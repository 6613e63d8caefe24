import DistributedBanking.NetworkInvariant

/-!
# At most once from end to end

With distinct client addresses and a single session of fewer than 2^32 requests
at each, the server executes no call twice and every reply carries the request
id of the call it was computed from.
-/

namespace DistributedBanking.Network
open Runs Store Banking Monitor Semantics Handler Server ClientProtocol

def Action.isRestart {ι : Type} : Action ι → Bool
  | .restart _ => true
  | _ => false

section Sessions
variable {ι M : Type} [DecidableEq ι] [Money M] [Float64 M] {cfg : Config ι} {net net' : Net ι M}
  {a : Action ι} {acts : List (Action ι)}

/-- Every client is in its first session, and so are its calls. -/
structure SingleSession (net : Net ι M) : Prop where
  session : ∀ i, (net.clients i).session = 0
  calls : ∀ call ∈ net.calls, call.session = 0

omit [DecidableEq ι] [Money M] [Float64 M] in
theorem initial_singleSession : SingleSession (initial cfg : Net ι M) where
  session _ := rfl
  calls := by simp [initial]

omit [Money M] [Float64 M] in
theorem SingleSession.setClient (h : SingleSession net) {i : ι} {c : Client ι}
    (hc : c.session = (net.clients i).session) : SingleSession (net.setClient i c) where
  session := Net.setClient_forall (P := fun _ c => c.session = 0) h.session (hc.trans (h.session i))
  calls := h.calls

theorem SingleSession.step (h : SingleSession net) (ha : a.isRestart = false)
    (hstep : Step cfg net a net') : SingleSession net' := by
  cases hstep with
  | idle => exact h
  | moved hmoves => exact h.setClient hmoves.session
  | @started i cmd bank message hprepared call hcall =>
    have hkept := h.setClient (i := i) (c := { net.clients i with
      bank, issued := (net.clients i).issued + 1, phase := .sending call 1 }) rfl
    have hfirst : call.session = 0 := by
      rw [hcall]
      exact h.session i
    exact ⟨hkept.session, List.forall_mem_append.mpr
      ⟨h.calls, List.forall_mem_singleton.mpr hfirst⟩⟩
  | @sent _ i call attempt hphase =>
    have hkept := h.setClient (i := i) (c := { net.clients i with
      phase := .receiving call attempt }) rfl
    exact ⟨hkept.session, hkept.calls⟩
  | @returned i call attempt answers raw inbox message hphase hinbox hreply hdecode =>
    have hkept := h.setClient (i := i) (c := { net.clients i with
      inbox, phase := afterReply call }) rfl
    exact ⟨hkept.session, hkept.calls⟩
  | restarted i => cases ha
  | delivered i hreply => exact h.setClient rfl
  | calledBack hsent => exact h.setClient rfl
  | served hn hmode hlog hreply => exact ⟨h.session, h.calls⟩
  | swept now => exact ⟨h.session, h.calls⟩

theorem run_singleSession (hsingle : ∀ a ∈ acts, a.isRestart = false) :
    ∃ net : Net ι M, run cfg (initial cfg) acts = .ok net ∧ Inv cfg net ∧ SingleSession net := by
  have hstep : ∀ (net : Net ι M) (a : Action ι) (acts : List (Action ι)),
      (Inv cfg net ∧ SingleSession net) ∧ (∀ b ∈ a :: acts, b.isRestart = false) →
        ∃ net', step cfg net a = .ok net' ∧
          (Inv cfg net' ∧ SingleSession net') ∧ ∀ b ∈ acts, b.isRestart = false := by
    intro net a acts hnet
    obtain ⟨⟨hinv, hs⟩, hsingle⟩ := hnet
    obtain ⟨ha, hrest⟩ := List.forall_mem_cons.mp hsingle
    obtain ⟨net', hnet', hstep, hinv'⟩ := hinv.total a
    exact ⟨net', hnet', ⟨hinv', hs.step ha hstep⟩, hrest⟩
  obtain ⟨net, hnet, hboth, -⟩ := foldlM_invariant_rest
    (I := fun net (acts : List (Action ι)) =>
      (Inv cfg net ∧ SingleSession net) ∧ ∀ b ∈ acts, b.isRestart = false)
    hstep ⟨⟨initial_inv cfg, initial_singleSession⟩, hsingle⟩
  exact ⟨net, hnet, hboth⟩

omit [DecidableEq ι] in
/-- Before the counter wraps around, the request id is the place of the call. -/
theorem number_of_requestId (h : Inv cfg net) (hs : SingleSession net) {call : Call ι}
    (hcall : call ∈ net.calls) (hroom : (net.clients call.client).issued < 2 ^ 32) :
    call.number = call.message.id.requestId.toNat := by
  have hlt : call.number < 2 ^ 32 := by
    rcases h.placed call hcall with hearlier | ⟨-, hnumber⟩
    · rw [hs.calls call hcall, hs.session] at hearlier
      exact absurd hearlier (lt_irrefl 0)
    · exact lt_of_le_of_lt hnumber hroom
  rw [(h.wellFormed call hcall).requestId, UInt32.toNat_ofNat_of_lt' hlt]

/-- The handler is called on issued calls only, and on none twice. -/
def ExecutesOnce (net : Net ι M) : Prop :=
  (∀ e ∈ net.executions, e.1.1 ∈ net.calls) ∧
    ∀ call ∈ net.calls, net.executions.countP (fun e => e.1.1 = call) ≤ 1

/-- Every reply ever sent to a client was computed by the handler from the one call of this client
that its request id counts to. -/
def RepliesCounted (cfg : Config ι) (net : Net ι M) : Prop :=
  ∀ r ∈ net.down, ∀ i, cfg.addr r.call.client = cfg.addr i →
    ∃ call ∈ net.calls, call.client = i ∧ call.number = (headerOf r.data).requestID.toNat ∧
      (∀ other ∈ net.calls, other.client = i → other.number = call.number → other = call) ∧
      ∃ now, ∃ b : Backend M, ((call, now), r.data) ∈ net.executions ∧
        r.data = (respond now b (call.arrived cfg).data (cfg.addr i)).2

theorem executesOnce (h : Inv cfg net) : ExecutesOnce net := by
  refine ⟨h.executed, ?_⟩
  intro call hcall
  apply h.recorded.countP_le_one (k := call.key cfg)
  intro e he hexecuted
  rw [h.key he, of_decide_eq_true hexecuted]

omit [DecidableEq ι] in
theorem repliesCounted (hinj : Function.Injective cfg.addr) (h : Inv cfg net)
    (hs : SingleSession net) (hroom : ∀ i, (net.clients i).issued < 2 ^ 32) :
    RepliesCounted cfg net := by
  intro r hr i haddr
  obtain ⟨e, he, hreply, hkey⟩ := h.execution hr
  obtain ⟨b, hb⟩ := h.computed he
  have hcall := h.executed e he
  have hstring : (cfg.addr e.1.1.client).string = (cfg.addr r.call.client).string :=
    congrArg Prod.fst hkey
  have hid : e.1.1.message.id.requestId = r.call.message.id.requestId := congrArg Prod.snd hkey
  have hclient : e.1.1.client = i := by
    apply hinj
    rw [UDPAddr.string_injective hstring, haddr]
  refine ⟨e.1.1, hcall, hclient, ?_, ?_, e.1.2, b, ?_, ?_⟩
  · rw [h.reply_requestId hr, ← hid]
    exact number_of_requestId h hs hcall (hroom _)
  · intro other hother hsame hnumber
    apply h.unique hother hcall
    refine ⟨by rw [hsame, hclient], ?_, hnumber⟩
    rw [hs.calls other hother, hs.calls _ hcall]
  · rw [← hreply]
    exact he
  · rw [← hreply, ← hb, ← hclient]
    rfl

/-- In every run of single sessions no call is executed twice, and as long as no client has issued
2^32 requests every reply belongs to the call that its request id counts to. -/
theorem atMostOnce_end_to_end (hinj : Function.Injective cfg.addr)
    (hsingle : ∀ a ∈ acts, a.isRestart = false) :
    ∃ net : Net ι M, run cfg (initial cfg) acts = .ok net ∧ ExecutesOnce net ∧
      ((∀ i, (net.clients i).issued < 2 ^ 32) → RepliesCounted cfg net) := by
  obtain ⟨net, hrun, hinv, hs⟩ := run_singleSession (M := M) hsingle
  exact ⟨net, hrun, executesOnce hinv, repliesCounted hinj hinv hs⟩

end Sessions

def twoClients : Config Bool where
  addr i := .loopback (if i then 4001 else 4000)
  host _ := .little
  localIpPort i := (0x7F000001, if i then 4001 else 4000)

def openCommand (name : UInt8) : Command :=
  { service := some 1, accountOwnerName := some [name], accountPassword := some [80],
    currency := some 1, monetaryValue := some 0 }

theorem twoClients_distinct : Function.Injective twoClients.addr := by
  decide

def twoOpenings : List (Action Bool) :=
  [.start true (openCommand 65), .start false (openCommand 66), .send true, .send false,
    .toServer 0 0, .toServer 1 1, .toServer 0 2, .toClient 2 true, .receive true]

theorem twoOpenings_single : ∀ a ∈ twoOpenings, a.isRestart = false := by
  decide

theorem two_openings_end_to_end :
    ∃ net : Net Bool Binary64, run twoClients (initial twoClients) twoOpenings = .ok net ∧
      ExecutesOnce net ∧ RepliesCounted twoClients net := by
  obtain ⟨net, hrun, honce, hcounted⟩ := atMostOnce_end_to_end (M := Binary64)
    twoClients_distinct twoOpenings_single
  have hissued := eq_of_check (f := fun net => ((net.clients true).issued,
    (net.clients false).issued)) (b := (1, 1)) hrun (by decide +kernel)
  rw [Prod.mk.injEq] at hissued
  refine ⟨net, hrun, honce, hcounted ?_⟩
  intro i
  cases i <;> omega

end DistributedBanking.Network
