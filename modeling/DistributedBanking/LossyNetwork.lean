import DistributedBanking.NetworkInvariant
import DistributedBanking.ServerLoop

/-!
# Simulated reply loss is loss on the network

Here the server of the network is the program with its loss simulator: an answer
that is kept back is never in the network. Each run of this system is a run of
the network that loses nothing at the server, with the same clients, the same
executions and the same bank; there the answer is sent and not delivered.
-/

namespace DistributedBanking.Network
open Store Banking Monitor Semantics Handler Server ClientProtocol

structure Lossy (ι M : Type) where
  net : Net ι M
  replyLoss : LossSimulator

/-- The same action, but another place for the reply in the list of all replies. -/
inductive Renamed {ι : Type} : Action ι → Action ι → Prop
  | same (a : Action ι) : Renamed a a
  | index (n n' : ℕ) (i : ι) : Renamed (.toClient n i) (.toClient n' i)

section Definitions
variable {ι M : Type} [DecidableEq ι] [Money M] [Float64 M] (cfg : Config ι)

def Lossy.process (l : Lossy ι M) : Process (Backend M × List ((Call ι × ℕ) × Bytes)) where
  dispatcher := l.net.dispatcher
  state := (l.net.backend, l.net.executions)
  replyLoss := l.replyLoss

def Lossy.toServer (l : Lossy ι M) (n now : ℕ) : Go (Lossy ι M) := do
  match l.net.up[n]? with
  | some call =>
    let (p, reply) ← l.process.round (traced call now) (call.arrived cfg)
    let down := l.net.down ++ (reply.map (Reply.mk call)).toList
    return ⟨{ l.net with
      dispatcher := p.dispatcher, backend := p.state.1, executions := p.state.2, down },
      p.replyLoss⟩
  | none => return l

def Lossy.step (l : Lossy ι M) : Action ι → Go (Lossy ι M)
  | .toServer n now => l.toServer cfg n now
  | a => do return { l with net := ← Network.step cfg l.net a }

def Lossy.run (l : Lossy ι M) (acts : List (Action ι)) : Go (Lossy ι M) :=
  acts.foldlM (Lossy.step cfg) l

/-- The network has sent the replies that the server has kept back, and is the same otherwise. -/
def Lossy.Hides (l : Lossy ι M) (net : Net ι M) : Prop :=
  ∃ down, net = { l.net with down } ∧ l.net.down.Sublist down

end Definitions

section Replies
variable {ι M : Type} [DecidableEq ι] [Money M] [Float64 M] (cfg : Config ι)

omit [Money M] [Float64 M] in
theorem start_withDown (net : Net ι M) (down : List (Reply ι)) (i : ι) (cmd : Command) :
    start cfg { net with down } i cmd = { start cfg net i cmd with down } ∧
      (start cfg net i cmd).down = net.down := by
  simp only [start]
  split <;> exact ⟨rfl, rfl⟩

omit [Money M] [Float64 M] in
theorem send_withDown (net : Net ι M) (down : List (Reply ι)) (i : ι) :
    send cfg { net with down } i = { send cfg net i with down } ∧
      (send cfg net i).down = net.down := by
  simp only [send]
  split
  · split <;> exact ⟨rfl, rfl⟩
  · exact ⟨rfl, rfl⟩

omit [Money M] [Float64 M] in
theorem receive_withDown (net : Net ι M) (down : List (Reply ι)) (i : ι) :
    receive cfg { net with down } i = { receive cfg net i with down } ∧
      (receive cfg net i).down = net.down := by
  simp only [receive]
  split
  · split
    · exact ⟨rfl, rfl⟩
    · split <;> exact ⟨rfl, rfl⟩
  · exact ⟨rfl, rfl⟩

omit [Money M] [Float64 M] in
theorem callback_withDown (net : Net ι M) (down : List (Reply ι)) (i : ι) (payload : Bytes) :
    callback cfg { net with down } i payload = { callback cfg net i payload with down } ∧
      (callback cfg net i payload).down = net.down := by
  simp only [callback]
  split <;> exact ⟨rfl, rfl⟩

theorem exists_index {α : Type} {down all : List α} (h : down.Sublist all) (n : ℕ) :
    ∃ n', all[n']? = down[n]? ∧ (down = all → n' = n) := by
  by_cases heq : down = all
  · exact ⟨n, by rw [heq], fun _ => rfl⟩
  · rcases hn : down[n]? with _ | reply
    · exact ⟨all.length, List.getElem?_length all, fun hequal => absurd hequal heq⟩
    · obtain ⟨n', hn'⟩ := List.mem_iff_getElem?.mp (h.subset (List.mem_of_getElem? hn))
      exact ⟨n', hn', fun hequal => absurd hequal heq⟩

omit [Money M] [Float64 M] in
theorem toClient_withDown (net : Net ι M) {down : List (Reply ι)} {n n' : ℕ} (i : ι)
    (hn : down[n']? = net.down[n]?) :
    toClient cfg { net with down } n' i = { toClient cfg net n i with down } ∧
      (toClient cfg net n i).down = net.down := by
  simp only [toClient, hn]
  split
  · split <;> exact ⟨rfl, rfl⟩
  · exact ⟨rfl, rfl⟩

theorem step_withDown (net : Net ι M) (down : List (Reply ι)) {a : Action ι}
    (hserver : ∀ n now, a ≠ .toServer n now) (hclient : ∀ n i, a ≠ .toClient n i) :
    ∃ net', step cfg net a = .ok net' ∧ step cfg { net with down } a = .ok { net' with down } ∧
      net'.down = net.down := by
  have hpure : ∀ f : Net ι M → Net ι M,
      f { net with down } = { f net with down } ∧ (f net).down = net.down →
      ∃ net', (pure (f net) : Go (Net ι M)) = .ok net' ∧
        (pure (f { net with down }) : Go (Net ι M)) = .ok { net' with down } ∧
        net'.down = net.down := by
    intro f hf
    exact ⟨f net, rfl, congrArg Except.ok hf.1, hf.2⟩
  cases a with
  | start i cmd => exact hpure (start cfg · i cmd) (start_withDown cfg net down i cmd)
  | send i => exact hpure (send cfg · i) (send_withDown cfg net down i)
  | sendFails i =>
    apply hpure (sendFails · i)
    simp only [sendFails]
    split <;> exact ⟨rfl, rfl⟩
  | receive i => exact hpure (receive cfg · i) (receive_withDown cfg net down i)
  | receiveFails i =>
    apply hpure (receiveFails · i)
    simp only [receiveFails]
    split <;> exact ⟨rfl, rfl⟩
  | listen i =>
    apply hpure (listen · i)
    simp only [listen]
    split <;> exact ⟨rfl, rfl⟩
  | stopListening i =>
    apply hpure (stopListening · i)
    simp only [stopListening]
    split <;> exact ⟨rfl, rfl⟩
  | restart i => exact hpure (restart cfg · i) ⟨rfl, rfl⟩
  | toServer n now => exact absurd rfl (hserver n now)
  | toClient n i => exact absurd rfl (hclient n i)
  | callback i payload =>
    exact hpure (callback cfg · i payload) (callback_withDown cfg net down i payload)
  | sweep now => exact ⟨_, rfl, rfl, rfl⟩

end Replies

section Simulation
variable {ι M : Type} [DecidableEq ι] [Money M] [Float64 M] {cfg : Config ι} {l : Lossy ι M}
  {net : Net ι M}

omit [DecidableEq ι] in
theorem dispatch_traced {net : Net ι M} (hmode : net.dispatcher.mode = .atMostOnce)
    {call : Call ι} (hcall : call.WellFormed cfg) (now : ℕ) :
    ∃ dispatcher state reply, net.dispatcher.dispatch (traced call now)
      (net.backend, net.executions) (call.arrived cfg).data (call.arrived cfg).addr =
        .ok (dispatcher, state, .ok reply) := by
  have hhandler := traced_eq cfg call now (net.backend, net.executions)
  obtain ⟨dispatcher, state, result, hdispatch, hanswered⟩ :=
    dispatch_answered (.inr hmode) hhandler
  have haccept := hcall.accepts
  rw [← hmode] at haccept
  cases hanswered with
  | rejected hreject => exact absurd haccept hreject
  | executed => exact ⟨_, _, _, hdispatch⟩
  | recorded => exact ⟨_, _, _, hdispatch⟩
  | replayed => exact ⟨_, _, _, hdispatch⟩

omit [DecidableEq ι] in
theorem Lossy.toServer_simulated (hinv : Inv cfg net) (h : l.Hides net) (n now : ℕ) :
    ∃ l' net', l.toServer cfg n now = .ok l' ∧ Network.toServer cfg net n now = .ok net' ∧
      l'.Hides net' ∧ l'.replyLoss.rate = l.replyLoss.rate ∧
      (l.replyLoss.isEnabled = false → l.net = net → l'.net = net') := by
  obtain ⟨down, rfl, hsub⟩ := h
  rcases hn : l.net.up[n]? with _ | call
  · refine ⟨l, { l.net with down }, ?_, ?_, ⟨down, rfl, hsub⟩, rfl, fun _ heq => heq⟩
    · rw [Lossy.toServer, hn]
      rfl
    · rw [Network.toServer, hn]
      rfl
  · have hcall : call.WellFormed cfg :=
      hinv.wellFormed call (hinv.up call (List.mem_of_getElem? hn))
    obtain ⟨dispatcher, ⟨backend, executions⟩, reply, hdispatch⟩ :=
      dispatch_traced (M := M) hinv.mode hcall now
    have hround := Process.round_ok (p := l.process) hdispatch
    have hserver : Network.toServer cfg { l.net with down } n now = .ok { l.net with
        dispatcher, backend, executions, down := down ++ [⟨call, reply⟩] } := by
      rw [Network.toServer, hn]
      simp only [hdispatch, ok_bind]
      rfl
    have hlossy : l.toServer cfg n now = .ok ⟨{ l.net with
        dispatcher, backend, executions,
        down := l.net.down ++ if l.replyLoss.drops 0 then [] else [⟨call, reply⟩] },
        l.replyLoss.shouldDrop.2⟩ := by
      rw [Lossy.toServer, hn]
      simp only [hround, ok_bind]
      change Except.ok _ = _
      cases hdrop : l.replyLoss.drops 0 <;> simp [Lossy.process, hdrop]
    refine ⟨_, _, hlossy, hserver, ⟨_, rfl, ?_⟩, l.replyLoss.shouldDrop_snd.1, ?_⟩
    · refine hsub.append ?_
      split
      · exact List.nil_sublist _
      · exact List.Sublist.refl _
    · intro hdisabled heq
      have hdown : l.net.down = down := congrArg Net.down heq
      rw [LossSimulator.drops_eq_false hdisabled, hdown]
      rfl

theorem Lossy.step_simulated (hinv : Inv cfg net) (h : l.Hides net) (a : Action ι) :
    ∃ l' a' net', l.step cfg a = .ok l' ∧ Renamed a a' ∧ Network.step cfg net a' = .ok net' ∧
      l'.Hides net' ∧ l'.replyLoss.rate = l.replyLoss.rate ∧
      (l.replyLoss.isEnabled = false → l.net = net → a' = a ∧ l'.net = net') := by
  by_cases hserver : ∃ n now, a = .toServer n now
  · obtain ⟨n, now, rfl⟩ := hserver
    obtain ⟨l', net', hl', hnet', hhides, hrate, hequal⟩ := l.toServer_simulated hinv h n now
    exact ⟨l', _, net', hl', .same _, hnet', hhides, hrate,
      fun hdisabled heq => ⟨rfl, hequal hdisabled heq⟩⟩
  have hstep : ∀ net', Network.step cfg l.net a = .ok net' →
      l.step cfg a = .ok { l with net := net' } := by
    intro net' hnet'
    cases a with
    | toServer n now => exact absurd ⟨n, now, rfl⟩ hserver
    | _ =>
      simp only [Lossy.step, hnet', ok_bind]
      rfl
  obtain ⟨down, rfl, hsub⟩ := h
  by_cases hclient : ∃ n i, a = .toClient n i
  · obtain ⟨n, i, rfl⟩ := hclient
    obtain ⟨n', hn', hsame⟩ := exists_index hsub n
    obtain ⟨hwith, hdown⟩ := toClient_withDown cfg l.net i hn'
    refine ⟨{ l with net := toClient cfg l.net n i }, _, _, hstep _ rfl, .index n n' i, rfl,
      ⟨down, hwith, hdown ▸ hsub⟩, rfl, ?_⟩
    intro _ heq
    have hequal : l.net.down = down := congrArg Net.down heq
    refine ⟨by rw [hsame hequal], ?_⟩
    rw [hwith, ← hequal, ← hdown]
  · obtain ⟨net', hnet', hwith, hdown⟩ := step_withDown cfg l.net down
      (fun n now heq => hserver ⟨n, now, heq⟩) fun n i heq => hclient ⟨n, i, heq⟩
    refine ⟨{ l with net := net' }, a, _, hstep _ hnet', .same a, hwith, ⟨down, rfl, ?_⟩, rfl, ?_⟩
    · exact hdown ▸ hsub
    · intro _ heq
      have hequal : l.net.down = down := congrArg Net.down heq
      rw [← hequal, ← hdown]
      exact ⟨rfl, rfl⟩

/-- Whatever answers the server program keeps back, its run is one of the network in which these
answers are sent and not delivered. Without a loss rate it is the very same run. -/
theorem lossy_refines (ls : LossSimulator) (acts : List (Action ι)) :
    ∃ l : Lossy ι M, Lossy.run cfg ⟨initial cfg, ls⟩ acts = .ok l ∧ ∃ acts' net,
      Network.run cfg (initial cfg) acts' = .ok net ∧ List.Forall₂ Renamed acts acts' ∧
      l.Hides net ∧ (ls.isEnabled = false → acts' = acts ∧ l.net = net) := by
  obtain ⟨l, acts', net, hrun, hacts, hrun', -, hhides, -, hequal⟩ :=
    Runs.foldlM_simulation (f := Lossy.step cfg) (g := Network.step cfg)
      (R := fun l net => Inv cfg net ∧ l.Hides net ∧ l.replyLoss.rate = ls.rate ∧
        (ls.isEnabled = false → l.net = net))
      (Q := fun a a' => Renamed a a' ∧ (ls.isEnabled = false → a = a'))
      (fun l net a hl => by
        obtain ⟨hinv, hhides, hrate, hequal⟩ := hl
        obtain ⟨l', a', net', hl', ha', hnet', hhides', hrate', hequal'⟩ :=
          l.step_simulated hinv hhides a
        obtain ⟨net'', hnet'', -, hinv'⟩ := hinv.total a'
        cases hnet'.symm.trans hnet''
        have hsame : l.replyLoss.isEnabled = ls.isEnabled := by
          rw [LossSimulator.isEnabled, hrate]
          rfl
        rw [hsame] at hequal'
        exact ⟨l', a', net', hl', ⟨ha', fun h => (hequal' h (hequal h)).1.symm⟩, hnet', hinv',
          hhides', hrate'.trans hrate, fun h => (hequal' h (hequal h)).2⟩)
      acts (s := ⟨initial cfg, ls⟩) (t := (initial cfg : Net ι M))
      ⟨initial_inv cfg, ⟨[], rfl, List.Sublist.refl _⟩, rfl, fun _ => rfl⟩
  refine ⟨l, hrun, acts', net, hrun', hacts.imp fun a a' h => h.1, hhides, fun hdisabled => ?_⟩
  refine ⟨?_, hequal hdisabled⟩
  exact (List.forall₂_eq_eq_eq ▸ hacts.imp fun a a' h => h.2 hdisabled : acts = acts').symm

end Simulation
end DistributedBanking.Network
