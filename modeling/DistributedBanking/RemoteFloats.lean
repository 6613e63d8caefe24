import DistributedBanking.ExactFloats
import DistributedBanking.RemoteLedger

/-!
# Floats across the network

What clients and server send each other over floats is what they would send over
exact rationals, when the commands that are started name whole numbers of one
unit and bring in no more than the significand can count. The ledger of the
exact run is then that of the floats.
-/

namespace DistributedBanking.Network
open Runs Store Banking Monitor Semantics Handler Server Doubles
open Threads (Serial ids)
open ClientProtocol (Command onHost parsed)

section Over
variable {ι M N : Type} {cfg : Config ι}

def Net.over (net : Net ι N) (b : Backend M) : Net ι M where
  clients := net.clients
  calls := net.calls
  up := net.up
  down := net.down
  dispatcher := net.dispatcher
  backend := b
  executions := net.executions
  returned := net.returned

variable [DecidableEq ι] (net : Net ι N) (b : Backend M)

theorem start_over (i : ι) (cmd : Command) :
    start cfg (net.over b) i cmd = (start cfg net i cmd).over b := by
  unfold start
  dsimp only [Net.over]
  split <;> rfl

theorem send_over (i : ι) : send cfg (net.over b) i = (send cfg net i).over b := by
  unfold send
  dsimp only [Net.over]
  split
  · split_ifs <;> rfl
  · rfl

theorem sendFails_over (i : ι) : sendFails (net.over b) i = (sendFails net i).over b := by
  unfold sendFails
  dsimp only [Net.over]
  split <;> rfl

theorem receive_over (i : ι) : receive cfg (net.over b) i = (receive cfg net i).over b := by
  unfold receive
  dsimp only [Net.over]
  split
  · split_ifs
    · rfl
    · split <;> rfl
  · rfl

theorem receiveFails_over (i : ι) :
    receiveFails (net.over b) i = (receiveFails net i).over b := by
  unfold receiveFails
  dsimp only [Net.over]
  split <;> rfl

theorem listen_over (i : ι) : listen (net.over b) i = (listen net i).over b := by
  unfold listen
  dsimp only [Net.over]
  split <;> rfl

theorem stopListening_over (i : ι) :
    stopListening (net.over b) i = (stopListening net i).over b := by
  unfold stopListening
  dsimp only [Net.over]
  split <;> rfl

theorem toClient_over (n : ℕ) (i : ι) :
    toClient cfg (net.over b) n i = (toClient cfg net n i).over b := by
  unfold toClient
  dsimp only [Net.over]
  split
  · split_ifs <;> rfl
  · rfl

theorem callback_over (hmon : b.mon = net.backend.mon) (i : ι) (payload : Bytes) :
    callback cfg (net.over b) i payload = (callback cfg net i payload).over b := by
  by_cases hsent : ∃ sent ∈ net.backend.mon.conn, (cfg.addr i, payload) ∈ sent
  · have hover : ∃ sent ∈ (net.over b).backend.mon.conn, (cfg.addr i, payload) ∈ sent :=
      hmon ▸ hsent
    simp only [callback, if_pos hsent, if_pos hover]
    rfl
  · have hover : ¬ ∃ sent ∈ (net.over b).backend.mon.conn, (cfg.addr i, payload) ∈ sent :=
      hmon ▸ hsent
    simp only [callback, if_neg hsent, if_neg hover]

end Over

section Lockstep
variable {ι M N : Type} [DecidableEq ι] [Money M] [Float64 M] [Money N] [Float64 N]
  {cfg : Config ι} {R : M → N → Prop} {Good : N → Prop}

omit [DecidableEq ι] in
theorem traced_ok (cfg : Config ι) (call : Call ι) (now : ℕ)
    (s : Backend M × List ((Call ι × ℕ) × Bytes)) :
    traced call now s (call.arrived cfg).data (call.arrived cfg).addr =
      .ok (((respond now s.1 (call.arrived cfg).data (call.arrived cfg).addr).1, s.2 ++
        [((call, now), (respond now s.1 (call.arrived cfg).data (call.arrived cfg).addr).2)]),
        (respond now s.1 (call.arrived cfg).data (call.arrived cfg).addr).2) := by
  rw [traced, buildHandler_eq now (call.arrived cfg).addr s.1 (call.arrived cfg).bounded, ok_bind]
  rfl

omit [DecidableEq ι] in
theorem toServer_over (hR : Reading R Good) {net : Net ι N}
    (hmode : net.dispatcher.mode = .atMostOnce) {b : Backend M} (hb : b.Reads R net.backend)
    (hamount : ∀ call ∈ net.up, AmountReads R (call.arrived cfg).data) (n now : ℕ)
    (hgood : ∀ net', toServer cfg net n now = .ok net' →
      Balances Good net'.backend.store.accounts) :
    ∃ net' b', toServer cfg net n now = .ok net' ∧
      toServer cfg (net.over b) n now = .ok (net'.over b') ∧ b'.Reads R net'.backend := by
  rcases hn : net.up[n]? with _ | call
  · have hover : (net.over b).up[n]? = none := hn
    refine ⟨net, b, ?_, ?_, hb⟩
    · rw [toServer, hn]
      rfl
    · rw [toServer, hover]
      rfl
  have hover : (net.over b).up[n]? = some call := hn
  have hrun : Running (⟨net.dispatcher, net.backend⟩ : Server N).dispatcher := .inr hmode
  have htraced := traced_ok cfg call now (net.backend, net.executions)
  have htraced' := traced_ok cfg call now (b, net.executions)
  by_cases hexec : Executes (⟨net.dispatcher, net.backend⟩ : Server N) (call.arrived cfg)
  · obtain ⟨next, hdispatch⟩ := dispatch_executes hrun hexec
    have hnet := hdispatch htraced
    have hnet' := hdispatch htraced'
    dsimp only at hnet hnet'
    have hserved : ∃ net', toServer cfg net n now = .ok net' ∧ net' = { net with
        dispatcher := next (respond now net.backend (call.arrived cfg).data
          (call.arrived cfg).addr).2
        backend := (respond now net.backend (call.arrived cfg).data (call.arrived cfg).addr).1
        executions := net.executions ++ [((call, now),
          (respond now net.backend (call.arrived cfg).data (call.arrived cfg).addr).2)]
        down := net.down ++ [⟨call,
          (respond now net.backend (call.arrived cfg).data (call.arrived cfg).addr).2⟩] } := by
      refine ⟨_, ?_, rfl⟩
      rw [toServer, hn]
      simp only [hnet, ok_bind]
      rfl
    obtain ⟨net', hserved, hnext⟩ := hserved
    have hstores := hgood net' hserved
    rw [hnext] at hstores
    obtain ⟨hbackend, hreply⟩ := respond_reads hR hb now (call.arrived cfg).addr
      (call.arrived cfg).bounded (hamount call (List.mem_of_getElem? hn)) hstores
    refine ⟨net', (respond now b (call.arrived cfg).data (call.arrived cfg).addr).1, hserved, ?_,
      hnext ▸ hbackend⟩
    rw [toServer, hover, hnext, ← hreply]
    simp only [Net.over, hnet', ok_bind]
    rfl
  · obtain ⟨d', res, hdispatch⟩ := dispatch_idle hrun hexec
    have hnet := hdispatch (traced (M := N) call now) (net.backend, net.executions)
    have hnet' := hdispatch (traced (M := M) call now) (b, net.executions)
    dsimp only at hnet hnet'
    cases res with
    | ok reply =>
      refine ⟨{ net with dispatcher := d', down := net.down ++ [⟨call, reply⟩] }, b, ?_, ?_, hb⟩
      · rw [toServer, hn]
        simp only [hnet, ok_bind]
        rfl
      · rw [toServer, hover]
        simp only [Net.over, hnet', ok_bind]
        rfl
    | error err =>
      refine ⟨{ net with dispatcher := d' }, b, ?_, ?_, hb⟩
      · rw [toServer, hn]
        simp only [hnet, ok_bind]
        rfl
      · rw [toServer, hover]
        simp only [Net.over, hnet', ok_bind]
        rfl

theorem step_over (hR : Reading R Good) {net : Net ι N} (hmode : net.dispatcher.mode = .atMostOnce)
    {b : Backend M} (hb : b.Reads R net.backend)
    (hamount : ∀ call ∈ net.up, AmountReads R (call.arrived cfg).data) (a : Action ι)
    (hgood : ∀ net', step cfg net a = .ok net' → Balances Good net'.backend.store.accounts) :
    ∃ net' b', step cfg net a = .ok net' ∧ step cfg (net.over b) a = .ok (net'.over b') ∧
      b'.Reads R net'.backend := by
  -- A client leaves the backend alone, which is the same lemma with `net.backend` for `b`.
  have hclient : ∀ {next : Net ι N} {next' : Net ι M}, next = next.over net.backend →
      next' = next.over b → ∃ net' b', (.ok next : Go (Net ι N)) = .ok net' ∧
        (.ok next' : Go (Net ι M)) = .ok (net'.over b') ∧ b'.Reads R net'.backend := by
    intro next next' hkept hover
    exact ⟨next, b, rfl, by rw [hover], by rw [hkept]; exact hb⟩
  cases a with
  | toServer n now => exact toServer_over hR hmode hb hamount n now hgood
  | sweep now =>
    exact ⟨_, { b with mon := b.mon.evictExpired now }, rfl, rfl, hb.store,
      congrArg (Manager.evictExpired · now) hb.mon⟩
  | start i cmd => exact hclient (start_over net net.backend i cmd) (start_over net b i cmd)
  | send i => exact hclient (send_over net net.backend i) (send_over net b i)
  | sendFails i => exact hclient (sendFails_over net net.backend i) (sendFails_over net b i)
  | receive i => exact hclient (receive_over net net.backend i) (receive_over net b i)
  | receiveFails i =>
    exact hclient (receiveFails_over net net.backend i) (receiveFails_over net b i)
  | listen i => exact hclient (listen_over net net.backend i) (listen_over net b i)
  | stopListening i =>
    exact hclient (stopListening_over net net.backend i) (stopListening_over net b i)
  | restart i => exact hclient rfl rfl
  | toClient n i => exact hclient (toClient_over net net.backend n i) (toClient_over net b n i)
  | callback i payload =>
    exact hclient (callback_over net net.backend rfl i payload)
      (callback_over net b hb.mon i payload)

end Lockstep
section Exact
variable {ι : Type} {cfg : Config ι} {k : ℤ}

def Call.paidIn (cfg : Config ι) (call : Call ι) : ℚ := (call.asks cfg).elim 0 Request.paidIn

def Call.InUnits (cfg : Config ι) (k : ℤ) (call : Call ι) : Prop :=
  ∀ req, call.asks cfg = some req → Request.InUnits k req

def Action.paidIn (cfg : Config ι) : Action ι → ℚ
  | .start i cmd =>
    (requestOf (parsed (onHost (cfg.host i) cmd))).elim 0 Request.paidIn
  | _ => 0

def Action.InUnits (cfg : Config ι) (k : ℤ) : Action ι → Prop
  | .start i cmd => ∀ req, requestOf (parsed (onHost (cfg.host i) cmd)) = some req →
    Request.InUnits k req
  | _ => True

theorem elim_paidIn_nonneg (req : Option (Request ℚ)) : 0 ≤ req.elim 0 Request.paidIn := by
  cases req with
  | none => exact le_rfl
  | some req => exact req.paidIn_nonneg

theorem Action.paidIn_nonneg (a : Action ι) : 0 ≤ a.paidIn cfg := by
  cases a with
  | start i cmd => exact elim_paidIn_nonneg _
  | _ => exact le_rfl

theorem Call.asks_map {M : Type} [Float64 M] (call : Call ι) :
    (call.asks cfg : Option (Request M)) =
      (call.asks cfg : Option (Request UInt64)).map (Request.map Float64.frombits) := by
  rw [Call.asks, Call.asks, ← requestOf_mapValue]
  congr 1
  simp only [parsed, mapValue, Option.map_map]
  rfl

theorem enact_funded {paid : ℚ} {s : MemoryStore ℚ} (h : Funded k paid s) {call : Call ι}
    (hunits : call.InUnits cfg k) :
    Funded k (paid + call.paidIn cfg) (enact s (call.asks cfg)).1 := by
  rw [Call.paidIn, call.asks_map]
  rcases hasks : (call.asks cfg : Option (Request UInt64)) with _ | ⟨op, txName⟩ | timeoutSeconds
  · rw [Option.map_none, Option.elim_none, add_zero]
    exact h
  · exact perform_funded h (hunits _ hasks).whole
  · rw [Option.map_some, Option.elim_some, Request.map, Request.paidIn, add_zero]
    exact h

theorem funded_of_serial {history : List (Call ι × Answer ℚ)} {s : MemoryStore ℚ}
    (h : Serial (fun call (s s' : MemoryStore ℚ) a => enact s (call.asks cfg) = (s', a))
      newMemoryStore history s) (hunits : ∀ call ∈ ids history, call.InUnits cfg k) :
    Funded k ((ids history).map (Call.paidIn cfg)).sum s := by
  induction h with
  | nil => exact ⟨balances_empty, le_rfl⟩
  | @snoc history s s' call a _ hspec ih =>
    rw [ids, List.map_append] at hunits ⊢
    have hbefore := ih fun call' hcall' => hunits call' (List.mem_append_left _ hcall')
    have hafter := enact_funded hbefore (hunits call (by simp))
    rw [hspec] at hafter
    rw [List.map_append, List.sum_append]
    simpa using hafter

/-- Distinct calls are executed, so what the started ones bring in bounds every balance. -/
theorem Reached.balances_exact [DecidableEq ι] {net : Net ι ℚ} (h : Reached cfg net)
    (hleast : -1074 ≤ k) (htop : 53 + k < 1024) (hunits : ∀ call ∈ net.calls, call.InUnits cfg k)
    (hpaid : (net.calls.map (Call.paidIn cfg)).sum ≤ 2 ^ (53 + k)) :
    Balances Exact net.backend.store.accounts := by
  obtain ⟨history, henacted⟩ := h.enacted
  have hissued := h.issued henacted
  have hfunded := funded_of_serial henacted.serial fun call hcall =>
    hunits call (hissued call hcall)
  have hsum : ((ids history).map (Call.paidIn cfg)).sum ≤
      (net.calls.map (Call.paidIn cfg)).sum := by
    obtain ⟨distinct, hperm, hsub⟩ := (h.once henacted).subperm hissued
    rw [← (hperm.map _).sum_eq]
    refine (hsub.map _).sum_le_sum fun x hx => ?_
    obtain ⟨call, -, rfl⟩ := List.mem_map.mp hx
    exact elim_paidIn_nonneg _
  intro accNo acc hget
  refine (hfunded.whole accNo acc hget).exact hleast htop ?_
  calc |acc.balance| ≤ wealth Account.balance net.backend.store.accounts :=
        balance_le_wealth _ hget
    _ ≤ ((ids history).map (Call.paidIn cfg)).sum := hfunded.wealth_le
    _ ≤ 2 ^ (53 + k) := hsum.trans hpaid

variable [DecidableEq ι] {acts : List (Action ι)}

theorem step_calls {net net' : Net ι ℚ} {a : Action ι} (hstep : Step cfg net a net')
    (ha : a.InUnits cfg k) (hunits : ∀ call ∈ net.calls, call.InUnits cfg k) :
    (∀ call ∈ net'.calls, call.InUnits cfg k) ∧ (net'.calls.map (Call.paidIn cfg)).sum ≤
      (net.calls.map (Call.paidIn cfg)).sum + a.paidIn cfg := by
  have hkept : (net.calls.map (Call.paidIn cfg)).sum ≤
      (net.calls.map (Call.paidIn cfg)).sum + a.paidIn cfg :=
    le_add_of_nonneg_right a.paidIn_nonneg
  cases hstep with
  | started hprepared call hcall =>
    subst hcall
    refine ⟨List.forall_mem_append.mpr ⟨hunits, List.forall_mem_singleton.mpr ha⟩, ?_⟩
    rw [List.map_append, List.sum_append, List.map_singleton, List.sum_singleton]
    exact le_rfl
  | _ => exact ⟨hunits, hkept⟩

/-- The networks over floats and over rationals do the same, action for action. -/
theorem remote_floats (hacts : ∀ a ∈ acts, a.Admissible cfg) (hleast : -1074 ≤ k)
    (htop : 53 + k < 1024) (hunits : ∀ a ∈ acts, a.InUnits cfg k)
    (hpaid : (acts.map (Action.paidIn cfg)).sum ≤ 2 ^ (53 + k)) :
    ∃ (net : Net ι ℚ) (b : Backend Float), run cfg (initial cfg) acts = .ok net ∧
      run cfg (initial cfg) acts = .ok (net.over b) ∧ b.Reads Stands net.backend := by
  obtain ⟨net, hrun, -⟩ := (initial_reached : Reached cfg (initial cfg : Net ι ℚ)).run hacts
  refine (run_induction
    (P := fun acts net => (∀ a ∈ acts, a.Admissible cfg ∧ a.InUnits cfg k) →
      (acts.map (Action.paidIn cfg)).sum ≤ 2 ^ (53 + k) → Reached cfg net ∧
        (∀ call ∈ net.calls, call.InUnits cfg k) ∧
        (net.calls.map (Call.paidIn cfg)).sum ≤ (acts.map (Action.paidIn cfg)).sum ∧
        ∃ b : Backend Float, run cfg (initial cfg) acts = .ok (net.over b) ∧
          b.Reads Stands net.backend) ?_ ?_ hrun (fun a ha => ⟨hacts a ha, hunits a ha⟩)
    hpaid).2.2.2.elim fun b hb => ⟨net, b, hrun, hb⟩
  · intro _ _
    refine ⟨initial_reached, by simp [initial], by simp [initial],
      ⟨newMemoryStore, newManager⟩, rfl, ?_⟩
    exact (newServer_reads (R := Stands) .atMostOnce).backend
  · intro acts net a net' _ ih hnet' hadmissible hpaid
    rw [List.map_append, List.sum_append, List.map_singleton, List.sum_singleton] at hpaid ⊢
    obtain ⟨hallowed, ha⟩ := List.forall_mem_append.mp hadmissible
    obtain ⟨hadmits, haunits⟩ := ha a (List.mem_singleton_self a)
    obtain ⟨hreached, hcalls, hsum, b, hb, hreads⟩ :=
      ih hallowed ((le_add_of_nonneg_right a.paidIn_nonneg).trans hpaid)
    obtain ⟨net'', hnet'', hreached', -⟩ := hreached.step hadmits
    cases hnet'.symm.trans hnet''
    obtain ⟨net'', hnet'', hstep, -⟩ := hreached.inv.total a
    cases hnet'.symm.trans hnet''
    obtain ⟨hcalls', hgrow⟩ := step_calls hstep haunits hcalls
    have hsum' := hgrow.trans (add_le_add_left hsum (a.paidIn cfg))
    have hamount : ∀ call ∈ net.up, AmountReads Stands (call.arrived cfg).data := by
      intro call hup
      have hcall := hreached.inv.up call hup
      have hparse := (hreached.inv.wellFormed call hcall).parseRequest (M := UInt64)
        (hreached.fits call hcall)
      exact InUnits.reads fun req hreq => hcalls call hcall req (hparse.symm.trans hreq)
    have hgood : ∀ next, step cfg net a = .ok next →
        Balances Exact next.backend.store.accounts := by
      intro next hnext
      cases hnet'.symm.trans hnext
      exact hreached'.balances_exact hleast htop hcalls' (hsum'.trans hpaid)
    obtain ⟨next, b', hnext, hover, hreads'⟩ :=
      step_over float_reading hreached.inv.mode hreads hamount a hgood
    cases hnet'.symm.trans hnext
    exact ⟨hreached', hcalls', hsum', b', foldlM_snoc.mpr ⟨_, hb, hover⟩, hreads'⟩

end Exact

def halvesTwice : List (Action Bool) :=
  [.start true openHalves, .send true, .toServer 0 0, .toServer 0 1, .toClient 1 true,
    .receive true]

theorem halvesTwice_admissible : ∀ a ∈ halvesTwice, a.Admissible twoClients := by
  simp [halvesTwice, Action.Admissible, twoClients, fits_openHalves]

theorem halvesTwice_units : ∀ a ∈ halvesTwice, a.InUnits twoClients (-1) := by
  have hstart : (Action.start true openHalves).InUnits twoClients (-1) := by
    intro req hreq a ha
    have hamount : (requestOf (parsed (onHost (twoClients.host true) openHalves))).bind
        Request.amount = some (0x3FF8000000000000 : UInt64) := by
      decide +kernel
    rw [hreq, Option.bind_some, ha] at hamount
    cases hamount
    exact ⟨by decide, 3 / 2, by decide +kernel, 3, by norm_num⟩
  simp only [halvesTwice, List.forall_mem_cons]
  exact ⟨hstart, trivial, trivial, trivial, trivial, trivial, by simp⟩

theorem halvesTwice_exact :
    ∃ (net : Net Bool ℚ) (b : Backend Float),
      run twoClients (initial twoClients) halvesTwice = .ok (net.over b) ∧
      net.returned.length = 1 ∧ b.Reads Stands net.backend := by
  have hpaid : (halvesTwice.map (Action.paidIn twoClients)).sum ≤ 2 ^ (53 + (-1 : ℤ)) := by
    have hsum : (halvesTwice.map (Action.paidIn twoClients)).sum = 3 / 2 := by decide +kernel
    rw [hsum]
    norm_num
  obtain ⟨net, b, hrun, hfloats, hreads⟩ := remote_floats halvesTwice_admissible (k := -1)
    (by norm_num) (by norm_num) halvesTwice_units hpaid
  have hreturned := eq_of_check (f := fun net => net.returned.length) (b := 1) hrun
    (by decide +kernel)
  exact ⟨net, b, hfloats, hreturned, hreads⟩

end DistributedBanking.Network
