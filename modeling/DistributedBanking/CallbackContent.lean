import DistributedBanking.Authorisation
import DistributedBanking.CallbackRoundTrip
import DistributedBanking.Callbacks

/-!
# What callbacks say

A packet reports an account when it encodes what is stored of it. Openings,
deposits and withdrawals are announced with what the bank checked or returned.
A transfer is announced with currency 0 and with the destination's name as the
request gives it, which the bank never compares.
-/

namespace DistributedBanking
open Store Banking Marshalling Monitor Semantics Handler Runs
open ClientProtocol (marshalCallbackUpdate_eq)
open Binary64 (ofPattern)

namespace Monitor
variable {M : Type} [Float64 M]

def Reports (store : MemoryStore M) (payload : Bytes) : Prop :=
  ∃ serviceID accNo acc, store.accounts.get accNo = some acc ∧
    payload = marshalCallbackUpdate
      ⟨serviceID, accNo, acc.holderName, acc.currencyType, acc.balance⟩

theorem bigEndianPutUint32_injective : Function.Injective bigEndianPutUint32 := by
  intro v w h
  have hround := bigEndianUint32_put v
  rw [h, bigEndianUint32_put] at hround
  exact (Except.ok.inj hround).symm

theorem marshalCallbackUpdate_inj {u v : AccountUpdate M}
    (h : marshalCallbackUpdate u = marshalCallbackUpdate v) :
    u.accountNumber = v.accountNumber ∧ u.holderName = v.holderName ∧
      u.currencyType = v.currencyType := by
  rw [marshalCallbackUpdate_eq, marshalCallbackUpdate_eq] at h
  obtain ⟨-, -, h⟩ : _ ∧ _ ∧ _ := by simpa only [List.cons.injEq] using h
  obtain ⟨haccNo, h⟩ := List.append_inj h (by simp)
  obtain ⟨-, h⟩ := List.append_inj h (by simp)
  have hlen : u.holderName.length = v.holderName.length := by
    have htotal := congrArg List.length h
    simpa using htotal
  obtain ⟨hname, h⟩ := List.append_inj h hlen
  exact ⟨bigEndianPutUint32_injective haccNo, hname, (List.cons.inj h).1⟩

theorem reports_marshal {store : MemoryStore M} {u : AccountUpdate M} {acc : Account M}
    (hget : store.accounts.get u.accountNumber = some acc) (hbalance : acc.balance = u.newBalance) :
    Reports store (marshalCallbackUpdate u) ↔
      u.holderName = acc.holderName ∧ u.currencyType = acc.currencyType := by
  constructor
  · intro hreports
    obtain ⟨serviceID, accNo, acc', hget', hpayload⟩ := hreports
    obtain ⟨rfl, hname, hcurr⟩ := marshalCallbackUpdate_inj hpayload
    obtain rfl : acc = acc' := Option.some.inj (hget.symm.trans hget')
    exact ⟨hname, hcurr⟩
  · intro hright
    obtain ⟨hname, hcurr⟩ := hright
    refine ⟨u.serviceID, u.accountNumber, acc, hget, ?_⟩
    rw [← hname, ← hcurr, hbalance]

end Monitor

namespace Banking
variable {M : Type} [Money M]

/-- A transfer that passes every check and whose callbacks get a currency or a holder wrong. -/
def Misnames (s : MemoryStore M) (op : Op M) (txName : Bytes) : Prop :=
  match op with
  | .transfer name accNo pw toAccNo curr amount =>
    ¬ amount ≤ 0 ∧ accNo ≠ toAccNo ∧ ∃ acc toAcc, Authorised s name accNo pw acc ∧
      s.accounts.get toAccNo = some toAcc ∧ acc.currencyType = curr ∧
      acc.currencyType = toAcc.currencyType ∧ ¬ acc.balance < amount ∧
      (curr ≠ 0 ∨ txName ≠ toAcc.holderName)
  | _ => False

def Op.isClose : Op M → Bool
  | .closeAccount _ _ _ => true
  | _ => false

variable [Float64 M] {s s' : MemoryStore M} {op : Op M} {res : Result M}

theorem effect_reports (heff : Effect s op s' res) (hclose : op.isClose = false)
    {txName : Bytes} (hop : ¬ Misnames s op txName) :
    ∀ u ∈ updatesOf op txName res, Reports s' (marshalCallbackUpdate u) := by
  cases heff with
  | @opened name pw curr balance _ haccounts =>
    have hstored : s'.accounts.get s.nextID = some ⟨s.nextID, name, pw, curr, balance⟩ := by
      rw [haccounts, FiniteMap.get_set_self]
    simp only [updatesOf, List.mem_singleton, forall_eq]
    rw [reports_marshal hstored rfl]
    exact ⟨rfl, rfl⟩
  | closed => simp [Op.isClose] at hclose
  | checked => simp [updatesOf]
  | @deposited name accNo pw curr amount acc _ hpos hauth hcurr haccounts =>
    have hstored : s'.accounts.get accNo =
        some { acc with balance := acc.balance + amount } := by
      rw [haccounts, FiniteMap.get_set_self]
    simp only [updatesOf, List.mem_singleton, forall_eq]
    rw [reports_marshal hstored rfl]
    exact ⟨hauth.holderName.symm, hcurr.symm⟩
  | @withdrawn name accNo pw curr amount acc _ hpos hauth hcurr hfunds haccounts =>
    have hstored : s'.accounts.get accNo =
        some { acc with balance := acc.balance - amount } := by
      rw [haccounts, FiniteMap.get_set_self]
    simp only [updatesOf, List.mem_singleton, forall_eq]
    rw [reports_marshal hstored rfl]
    exact ⟨hauth.holderName.symm, hcurr.symm⟩
  | @transferred name accNo pw toAccNo curr amount acc toAcc _ hpos hne hauth hto hcurr hsame
      hfunds haccounts =>
    have hright : curr = 0 ∧ txName = toAcc.holderName := by
      by_contra hwrong
      refine hop ⟨hpos, hne, acc, toAcc, hauth, hto, hcurr, hsame, hfunds, ?_⟩
      rwa [← not_and_or]
    have hsource : s'.accounts.get accNo =
        some { acc with balance := acc.balance - amount } := by
      rw [haccounts, FiniteMap.get_set_of_ne _ _ hne, FiniteMap.get_set_self]
    have hdest : s'.accounts.get toAccNo =
        some { toAcc with balance := toAcc.balance + amount } := by
      rw [haccounts, FiniteMap.get_set_self]
    have hzero : acc.currencyType = 0 := hcurr.trans hright.1
    simp only [updatesOf, List.mem_cons, List.not_mem_nil, or_false, forall_eq_or_imp, forall_eq]
    constructor
    · rw [reports_marshal hsource rfl]
      exact ⟨hauth.holderName.symm, hzero.symm⟩
    · rw [reports_marshal hdest rfl]
      exact ⟨hright.2, (hsame.symm.trans hzero).symm⟩
  | refused =>
    intro u hu
    cases op <;> simp [updatesOf] at hu

theorem misnames_updates {txName : Bytes} (hop : Misnames s op txName) :
    ∃ u ∈ updatesOf op txName (perform s op).2,
      ¬ Reports (perform s op).1 (marshalCallbackUpdate u) := by
  cases op with
  | transfer name accNo pw toAccNo curr amount =>
    obtain ⟨hpos, hne, acc, toAcc, hauth, hto, hcurr, hsame, hfunds, hwrong⟩ := hop
    obtain ⟨haccounts, -, -, -⟩ := transfer_writes hauth.stored hto hne (acc.balance - amount)
      (toAcc.balance + amount)
    rw [perform_transfer hpos hne hauth hto hcurr hsame hfunds]
    have hdest : (setBalance (setBalance s accNo (acc.balance - amount)) toAccNo
        (toAcc.balance + amount)).accounts.get toAccNo =
          some { toAcc with balance := toAcc.balance + amount } := by
      rw [haccounts, FiniteMap.get_set_self]
    refine ⟨_, List.mem_cons_of_mem _ List.mem_cons_self, ?_⟩
    rw [reports_marshal hdest rfl]
    intro hright
    obtain ⟨hname, hzero⟩ := hright
    rcases hwrong with hcurr' | hname'
    · exact hcurr' (hcurr.symm.trans (hsame.trans hzero.symm))
    · exact hname' hname
  | _ => exact hop.elim

end Banking

namespace Server
variable {M : Type} [Money M] [Float64 M]

def Event.closes (M : Type) [Float64 M] : Event → Bool
  | .datagram d _ =>
    match (parseRequest d.data : Option (Request M)) with
    | some (.bank op _) => op.isClose
    | _ => false
  | .sweep _ => false

/-- Unless the event closes an account, every callback it sends reports an account of the store
after it. -/
def Announces (s : Server M) (e : Event) (s' : Server M) : Prop :=
  e.closes M = false →
    ∀ x ∈ sent s.backend.mon s'.backend.mon, Reports s'.backend.store x.2

def Misannounced (s : Server M) : Event → Prop
  | .datagram d now =>
    Executes s d ∧ s.backend.mon.audience now ≠ 0 ∧
      ∃ op txName, parseRequest d.data = some (.bank op txName) ∧
        Misnames s.backend.store op txName
  | .sweep _ => False

theorem Dispatched.mem_sent {s s' : Server M} {d : Datagram} {now : ℕ}
    {res : Except DispatchError Bytes} (hdisp : Dispatched s d now s' res)
    {x : UDPAddr × Bytes} :
    x ∈ Monitor.sent s.backend.mon s'.backend.mon ↔ ∃ u ∈ callbackUpdates s d,
      ∃ a ∈ s.backend.mon.audience now, (a, marshalCallbackUpdate u) = x := by
  rw [hdisp.sent]
  induction callbackUpdates s d with
  | nil => simp
  | cons u us ih => simp [ih]

theorem dispatched_announces {s s' : Server M} {d : Datagram} {now : ℕ}
    {res : Except DispatchError Bytes} (hdisp : Dispatched s d now s' res) :
    Announces s (.datagram d now) s' ↔ ¬ Misannounced s (.datagram d now) := by
  constructor
  · intro hannounces hmisannounced
    obtain ⟨hexec, haudience, op, txName, hreq, hop⟩ := hmisannounced
    obtain ⟨a, ha⟩ := Multiset.exists_mem_of_ne_zero haudience
    obtain ⟨u, hu, hwrong⟩ := misnames_updates hop
    have hclose : Event.closes M (.datagram d now) = false := by
      cases op with
      | transfer => simp only [Event.closes, hreq, Op.isClose]
      | _ => exact hop.elim
    rw [← hdisp.store_executed hexec hreq] at hwrong
    refine hwrong (hannounces hclose (a, marshalCallbackUpdate u) (hdisp.mem_sent.mpr ?_))
    exact ⟨u, by simpa only [callbackUpdates, hreq, if_pos hexec] using hu, a, ha, rfl⟩
  · intro hclean hclose x hx
    obtain ⟨u, hu, a, ha, rfl⟩ := hdisp.mem_sent.mp hx
    have haudience : s.backend.mon.audience now ≠ 0 := by
      intro hempty
      rw [hempty] at ha
      exact Multiset.notMem_zero a ha
    rcases hdisp.store with ⟨hexec, op, txName, hreq, hstore⟩ | ⟨hquiet, -⟩
    · simp only [callbackUpdates, hreq, if_pos hexec] at hu
      simp only [Event.closes, hreq] at hclose
      rw [hstore]
      refine effect_reports (perform_effect s.backend.store op) hclose ?_ u hu
      exact fun hop => hclean ⟨hexec, haudience, op, txName, hreq, hop⟩
    · rw [callbackUpdates] at hu
      split at hu
      · rcases hquiet with hidle | hnone
        · rw [if_neg hidle] at hu
          exact absurd hu List.not_mem_nil
        · exact absurd ‹_› (hnone _ _)
      · exact absurd hu List.not_mem_nil

omit [Money M] in
theorem sweep_announces (s : Server M) (now : ℕ) : Announces s (.sweep now) (sweep s now) := by
  intro _ x hx
  have hquiet : (sweep s now).backend.mon.conn = s.backend.mon.conn := rfl
  rw [sent_of_quiet hquiet] at hx
  exact absurd hx (Multiset.notMem_zero x)

/-- All callbacks of a run, those of closings apart, are right exactly when no transfer of it is
announced wrongly. -/
theorem announces_run_iff {mode : Mode} (hmode : mode = .atLeastOnce ∨ mode = .atMostOnce)
    (es : List Event) :
    EveryStep step Announces (newServer (M := M) mode) es ↔
      EveryStep step (fun s e _ => ¬ Misannounced s e) (newServer (M := M) mode) es := by
  apply everyStep_congr (I := fun s _ => Running s.dispatcher)
  · intro s e es hrun
    cases e with
    | datagram d now =>
      obtain ⟨s', res, hstep, hdisp⟩ := step_datagram hrun d now
      exact ⟨s', hstep, dispatched_announces hdisp, fun _ => hdisp.running hrun⟩
    | sweep now =>
      exact ⟨sweep s now, rfl, iff_of_true (sweep_announces s now) id, fun _ => hrun⟩
  · exact running_newServer hmode

theorem opening_announces_iff :
    EveryStep step Announces (newServer (M := Binary64) .atMostOnce)
        [.datagram watchPacket 0, .datagram openingPacket second] ↔
      EveryStep step (fun s e _ => ¬ Misannounced s e) (newServer (M := Binary64) .atMostOnce)
        [.datagram watchPacket 0, .datagram openingPacket second] :=
  announces_run_iff (.inr rfl) _

def watchTeller : Datagram :=
  tellerPacket { service := some 5, monitorTimeoutSeconds := some 10 } (by decide +kernel)

def transferToB : Datagram :=
  tellerPacket ⟨some 7, some 10000, some [65], some [80], some 10001, some [66],
    some 0x3FF0000000000000, some 1, none, none⟩ (by decide +kernel)

theorem transfer_misannounced :
    ¬ EveryStep step Announces (newServer (M := Binary64) .atLeastOnce)
      [.datagram openA 0, .datagram openB 1, .datagram watchTeller 2, .datagram transferToB 3] := by
  intro hrun
  obtain ⟨s₁, h₁, -, s₂, h₂, -, s₃, h₃, -, s₄, h₄, hannounces, -⟩ := hrun
  have hrun : (run (newServer (M := Binary64) .atLeastOnce)
      [.datagram openA 0, .datagram openB 1, .datagram watchTeller 2]).toOption = some s₃ := by
    simp only [run, List.foldlM_cons, List.foldlM_nil, h₁, h₂, h₃, ok_bind]
    rfl
  have hserver : (run (newServer (M := Binary64) .atLeastOnce)
      [.datagram openA 0, .datagram openB 1, .datagram watchTeller 2]).toOption.map (fun s =>
        (s.dispatcher.mode, decide (Executes s transferToB), s.backend.mon.audience 3)) =
      some (.atLeastOnce, true, {.loopback 4000}) := by
    decide +kernel
  have hstore : (run (newServer (M := Binary64) .atLeastOnce)
      [.datagram openA 0, .datagram openB 1, .datagram watchTeller 2]).toOption.map (fun s =>
        [s.backend.store.accounts.get 10000, s.backend.store.accounts.get 10001]) =
      some [some ⟨10000, [65], passwordStringToFixed [80], 1, ofPattern 0x4014000000000000⟩,
        some ⟨10001, [66], passwordStringToFixed [80], 1, ofPattern 0x3FF0000000000000⟩] := by
    decide +kernel
  rw [hrun, Option.map_some, Option.some.injEq] at hserver hstore
  obtain ⟨hmode, hexec, haudience⟩ : _ ∧ _ ∧ _ := by simpa only [Prod.mk.injEq] using hserver
  obtain ⟨hA, hB⟩ : _ ∧ _ := by simpa only [List.cons.injEq, and_true] using hstore
  have hreq := ClientProtocol.parseRequest_packetOf (M := Binary64)
    (show transferToB.data.length ≤ 4096 by decide +kernel)
  obtain ⟨res, hdisp⟩ := step_dispatched (.inl hmode) h₄
  refine (dispatched_announces hdisp).mp hannounces ⟨of_decide_eq_true hexec, ?_, _, _, hreq, ?_⟩
  · rw [haudience]
    exact Multiset.singleton_ne_zero _
  · refine ⟨by decide +kernel, by decide, _, _, ⟨hA, rfl, rfl⟩, hB, rfl, rfl, ?_, .inl ?_⟩
    · decide +kernel
    · decide

end Server
end DistributedBanking
