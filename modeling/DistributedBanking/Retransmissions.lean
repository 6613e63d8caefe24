import DistributedBanking.AtMostOnce
import DistributedBanking.Authorisation
import DistributedBanking.ReplyHistory

/-!
# What each invocation semantics costs

A server that keeps no replies runs a request again for every copy that
arrives. `Repeated` says in closed form what `n` copies of one call do to a
store with exact balances, and `copies_repeat` that this is what a run of the
server does, whatever sweeps stand between the copies. A server that keeps the
replies keeps one for every request it ever accepted (`history_grows`).
-/

namespace DistributedBanking.Banking
open Store

def performs {M : Type} [Money M] (op : Op M) (n : ℕ) (s : MemoryStore M) : MemoryStore M :=
  (fun s => (perform s op).1)^[n] s

theorem performs_succ {M : Type} [Money M] (op : Op M) (n : ℕ) (s : MemoryStore M) :
    performs op (n + 1) s = performs op n (perform s op).1 := rfl

theorem performs_fixed {M : Type} [Money M] {op : Op M} {s : MemoryStore M}
    (h : (perform s op).1 = s) (n : ℕ) : performs op n s = s :=
  Function.iterate_fixed h n

def covered (balance amount : ℚ) (n : ℕ) : ℕ := min n ⌊balance / amount⌋₊

/-- What `n` runs of a call leave, `n` at least one. A closed account stays closed; an opening is
repeated under the next account numbers, which wrap at 32 bits. -/
inductive Repeated (s : MemoryStore ℚ) (n : ℕ) : Op ℚ → MemoryStore ℚ → Prop
  | opened {name : Bytes} {pw : Vector UInt8 8} {curr : UInt8} {balance : ℚ}
      {s' : MemoryStore ℚ}
      (haccounts : ∀ id, s'.accounts.get id =
        if (id - s.nextID).toNat < n then some ⟨id, name, pw, curr, balance⟩
        else s.accounts.get id)
      (hnext : s'.nextID = s.nextID + UInt32.ofNat n) :
      Repeated s n (.openAccount name pw curr balance) s'
  | closed {name : Bytes} {accNo : UInt32} {pw : Vector UInt8 8} {acc : Account ℚ}
      {s' : MemoryStore ℚ} (hauth : Authorised s name accNo pw acc)
      (haccounts : s'.accounts = s.accounts.delete accNo) (hnext : s'.nextID = s.nextID) :
      Repeated s n (.closeAccount name accNo pw) s'
  | checked {name : Bytes} {accNo : UInt32} {pw : Vector UInt8 8} :
      Repeated s n (.checkBalance name accNo pw) s
  | deposited {name : Bytes} {accNo : UInt32} {pw : Vector UInt8 8} {curr : UInt8} {amount : ℚ}
      {acc : Account ℚ} {s' : MemoryStore ℚ} (hpos : 0 < amount)
      (hauth : Authorised s name accNo pw acc) (hcurr : acc.currencyType = curr)
      (haccounts : s'.accounts =
        s.accounts.set accNo { acc with balance := acc.balance + n * amount })
      (hnext : s'.nextID = s.nextID) :
      Repeated s n (.deposit name accNo pw curr amount) s'
  | withdrawn {name : Bytes} {accNo : UInt32} {pw : Vector UInt8 8} {curr : UInt8} {amount : ℚ}
      {acc : Account ℚ} {s' : MemoryStore ℚ} (hpos : 0 < amount)
      (hauth : Authorised s name accNo pw acc) (hcurr : acc.currencyType = curr)
      (haccounts : s'.accounts = s.accounts.set accNo
        { acc with balance := acc.balance - covered acc.balance amount n * amount })
      (hnext : s'.nextID = s.nextID) :
      Repeated s n (.withdraw name accNo pw curr amount) s'
  | transferred {name : Bytes} {accNo : UInt32} {pw : Vector UInt8 8} {toAccNo : UInt32}
      {curr : UInt8} {amount : ℚ} {acc toAcc : Account ℚ} {s' : MemoryStore ℚ}
      (hpos : 0 < amount) (hne : accNo ≠ toAccNo) (hauth : Authorised s name accNo pw acc)
      (hto : s.accounts.get toAccNo = some toAcc) (hcurr : acc.currencyType = curr)
      (hsame : acc.currencyType = toAcc.currencyType)
      (haccounts : s'.accounts =
        (s.accounts.set accNo
          { acc with balance := acc.balance - covered acc.balance amount n * amount }).set toAccNo
          { toAcc with balance := toAcc.balance + covered acc.balance amount n * amount })
      (hnext : s'.nextID = s.nextID) :
      Repeated s n (.transfer name accNo pw toAccNo curr amount) s'
  | refused {op : Op ℚ} {err : BankingError} (hfail : (perform s op).2 = .failed err) :
      Repeated s n op s

section Covered
variable {balance amount : ℚ}

theorem covered_of_short (h : balance < amount) (hpos : 0 < amount) (n : ℕ) :
    covered balance amount n = 0 := by
  have hfloor : ⌊balance / amount⌋₊ = 0 := by
    rw [Nat.floor_eq_zero, div_lt_one hpos]
    exact h
  rw [covered, hfloor, Nat.min_zero]

theorem covered_succ (h : ¬ balance < amount) (hpos : 0 < amount) (n : ℕ) :
    covered balance amount (n + 1) = covered (balance - amount) amount n + 1 := by
  have hone : 1 ≤ balance / amount := by
    rw [le_div_iff₀ hpos, one_mul]
    exact not_lt.mp h
  have hfloor : 1 ≤ ⌊balance / amount⌋₊ := by
    apply Nat.le_floor
    exact_mod_cast hone
  have hquot : (balance - amount) / amount = balance / amount - 1 := by
    rw [sub_div, div_self hpos.ne']
  rw [covered, covered, hquot, Nat.floor_sub_one]
  omega

theorem sub_covered (h : ¬ balance < amount) (hpos : 0 < amount) (n : ℕ) :
    balance - amount - covered (balance - amount) amount n * amount =
      balance - covered balance amount (n + 1) * amount := by
  rw [covered_succ h hpos]
  push_cast
  ring

theorem add_covered (h : ¬ balance < amount) (hpos : 0 < amount) (n : ℕ) (other : ℚ) :
    other + amount + covered (balance - amount) amount n * amount =
      other + covered balance amount (n + 1) * amount := by
  rw [covered_succ h hpos]
  push_cast
  ring

end Covered

section Calls
variable {s : MemoryStore ℚ} {name : Bytes} {accNo toAccNo : UInt32} {pw : Vector UInt8 8}
  {curr : UInt8} {amount : ℚ} {acc toAcc : Account ℚ}

theorem Authorised.balance (hauth : Authorised s name accNo pw acc) (balance : ℚ) :
    Authorised (setBalance s accNo balance) name accNo pw { acc with balance } := by
  refine ⟨?_, hauth.password, hauth.holderName⟩
  rw [setBalance_accounts hauth.stored, FiniteMap.get_set_self]

theorem sub_succ_of_ne {id start : UInt32} (h : id ≠ start) :
    (id - start).toNat = (id - (start + 1)).toNat + 1 := by
  have hne : id.toNat ≠ start.toNat := fun heq => h (UInt32.toNat_inj.mp heq)
  have hid := id.toNat_lt
  have hstart := start.toNat_lt
  rw [UInt32.toNat_sub, UInt32.toNat_sub, UInt32.toNat_add]
  simp only [UInt32.reduceToNat]
  omega

theorem Authorised.unique {acc' : Account ℚ} (hauth : Authorised s name accNo pw acc)
    (hauth' : Authorised s name accNo pw acc') : acc = acc' :=
  Option.some.inj (hauth.stored.symm.trans hauth'.stored)

theorem performs_open (s : MemoryStore ℚ) (name : Bytes) (pw : Vector UInt8 8) (curr : UInt8)
    (balance : ℚ) (n : ℕ) :
    (performs (.openAccount name pw curr balance) n s).nextID = s.nextID + UInt32.ofNat n ∧
      ∀ id, (performs (.openAccount name pw curr balance) n s).accounts.get id =
        if (id - s.nextID).toNat < n then some ⟨id, name, pw, curr, balance⟩
        else s.accounts.get id := by
  induction n generalizing s with
  | zero => simp [performs]
  | succ n ih =>
    obtain ⟨hnext, haccounts⟩ := ih (openAccount s name pw curr balance).1
    have hid : (openAccount s name pw curr balance).1.nextID = s.nextID + 1 := rfl
    have hset : (openAccount s name pw curr balance).1.accounts =
        s.accounts.set s.nextID ⟨s.nextID, name, pw, curr, balance⟩ := rfl
    rw [hid] at hnext haccounts
    constructor
    · rw [performs_succ]
      rw [UInt32.ofNat_add, UInt32.add_comm (UInt32.ofNat n), ← UInt32.add_assoc]
      exact hnext
    · intro id
      rw [performs_succ]
      apply (haccounts id).trans
      rw [hset, FiniteMap.get_set]
      by_cases hfirst : id = s.nextID
      · subst hfirst
        simp
      · rw [if_neg hfirst, sub_succ_of_ne hfirst]
        simp only [Nat.succ_lt_succ_iff]

theorem performs_deposit (hpos : 0 < amount) (hauth : Authorised s name accNo pw acc)
    (hcurr : acc.currencyType = curr) (n : ℕ) :
    (performs (.deposit name accNo pw curr amount) n s).accounts =
        s.accounts.set accNo { acc with balance := acc.balance + n * amount } ∧
      (performs (.deposit name accNo pw curr amount) n s).nextID = s.nextID := by
  induction n generalizing s acc with
  | zero =>
    simp only [performs, Function.iterate_zero, id, Nat.cast_zero, zero_mul, add_zero, and_true]
    exact (FiniteMap.set_get _ hauth.stored).symm
  | succ n ih =>
    have hstep := perform_deposit (not_le.mpr hpos) hauth hcurr
    obtain ⟨haccounts, hnext⟩ := ih (hauth.balance (acc.balance + amount)) hcurr
    rw [performs_succ, hstep]
    refine ⟨haccounts.trans ?_, hnext.trans (setBalance_nextID _ _ _)⟩
    rw [setBalance_accounts hauth.stored, FiniteMap.set_set]
    push_cast
    congr 2
    ring

theorem withdraw_short (hauth : Authorised s name accNo pw acc) (h : acc.balance < amount) :
    (perform s (.withdraw name accNo pw curr amount)).1 = s := by
  rcases withdraw_cases s name accNo pw curr amount with
    ⟨acc', -, hauth', -, hfunds, -⟩ | ⟨err, hfail⟩
  · rw [hauth.unique hauth'] at h
    exact absurd h hfunds
  · simp only [perform, hfail]

theorem performs_withdraw (hpos : 0 < amount) (hauth : Authorised s name accNo pw acc)
    (hcurr : acc.currencyType = curr) (n : ℕ) :
    (performs (.withdraw name accNo pw curr amount) n s).accounts = s.accounts.set accNo
        { acc with balance := acc.balance - covered acc.balance amount n * amount } ∧
      (performs (.withdraw name accNo pw curr amount) n s).nextID = s.nextID := by
  induction n generalizing s acc with
  | zero =>
    simp only [performs, Function.iterate_zero, id, covered, Nat.zero_min, Nat.cast_zero,
      zero_mul, sub_zero, and_true]
    exact (FiniteMap.set_get _ hauth.stored).symm
  | succ n ih =>
    by_cases hfunds : acc.balance < amount
    · rw [performs_fixed (withdraw_short hauth hfunds), covered_of_short hfunds hpos]
      simp only [Nat.cast_zero, zero_mul, sub_zero, and_true]
      exact (FiniteMap.set_get _ hauth.stored).symm
    have hstep := perform_withdraw (not_le.mpr hpos) hauth hcurr hfunds
    obtain ⟨haccounts, hnext⟩ := ih (hauth.balance (acc.balance - amount)) hcurr
    rw [performs_succ, hstep]
    refine ⟨haccounts.trans ?_, hnext.trans (setBalance_nextID _ _ _)⟩
    rw [setBalance_accounts hauth.stored, FiniteMap.set_set, sub_covered hfunds hpos]

theorem transfer_short (hauth : Authorised s name accNo pw acc) (h : acc.balance < amount) :
    (perform s (.transfer name accNo pw toAccNo curr amount)).1 = s := by
  rcases transfer_cases s name accNo pw toAccNo curr amount with
    ⟨acc', toAcc', -, -, hauth', -, -, -, hfunds, -⟩ | ⟨err, hfail⟩
  · rw [hauth.unique hauth'] at h
    exact absurd h hfunds
  · simp only [perform, hfail]

theorem set_stored (hfrom : s.accounts.get accNo = some acc)
    (hto : s.accounts.get toAccNo = some toAcc) :
    (s.accounts.set accNo acc).set toAccNo toAcc = s.accounts := by
  rw [FiniteMap.set_get _ hfrom, FiniteMap.set_get _ hto]

theorem performs_transfer (hpos : 0 < amount) (hne : accNo ≠ toAccNo)
    (hauth : Authorised s name accNo pw acc) (hto : s.accounts.get toAccNo = some toAcc)
    (hcurr : acc.currencyType = curr) (hsame : acc.currencyType = toAcc.currencyType) (n : ℕ) :
    (performs (.transfer name accNo pw toAccNo curr amount) n s).accounts =
        (s.accounts.set accNo
          { acc with balance := acc.balance - covered acc.balance amount n * amount }).set toAccNo
          { toAcc with balance := toAcc.balance + covered acc.balance amount n * amount } ∧
      (performs (.transfer name accNo pw toAccNo curr amount) n s).nextID = s.nextID := by
  induction n generalizing s acc toAcc with
  | zero =>
    simp only [performs, Function.iterate_zero, id, covered, Nat.zero_min, Nat.cast_zero,
      zero_mul, sub_zero, add_zero, and_true]
    exact (set_stored hauth.stored hto).symm
  | succ n ih =>
    by_cases hfunds : acc.balance < amount
    · rw [performs_fixed (transfer_short hauth hfunds), covered_of_short hfunds hpos]
      simp only [Nat.cast_zero, zero_mul, sub_zero, add_zero, and_true]
      exact (set_stored hauth.stored hto).symm
    have hstep := perform_transfer (not_le.mpr hpos) hne hauth hto hcurr hsame hfunds
    obtain ⟨hwritten, hid, -, -⟩ := transfer_writes hauth.stored hto hne (acc.balance - amount)
      (toAcc.balance + amount)
    rw [performs_succ, hstep]
    generalize setBalance (setBalance s accNo (acc.balance - amount)) toAccNo
      (toAcc.balance + amount) = t at hwritten hid
    have hpaid : Authorised t name accNo pw { acc with balance := acc.balance - amount } := by
      refine ⟨?_, hauth.password, hauth.holderName⟩
      rw [hwritten, FiniteMap.get_set_of_ne _ _ hne, FiniteMap.get_set_self]
    have hcredited : t.accounts.get toAccNo =
        some { toAcc with balance := toAcc.balance + amount } := by
      rw [hwritten, FiniteMap.get_set_self]
    obtain ⟨haccounts, hnext⟩ := ih hpaid hcredited hcurr hsame
    refine ⟨haccounts.trans ?_, hnext.trans hid⟩
    simp only [sub_covered hfunds hpos, add_covered hfunds hpos, hwritten]
    apply FiniteMap.ext
    intro k
    simp only [FiniteMap.get_set]
    split_ifs <;> rfl

theorem close_missing (h : s.accounts.get accNo = none) :
    (perform s (.closeAccount name accNo pw)).1 = s := by
  rcases closeAccount_cases s name accNo pw with ⟨acc, s', hauth, -⟩ | ⟨err, hfail⟩
  · rw [hauth.stored] at h
    cases h
  · simp only [perform, hfail]

theorem performs_repeated (s : MemoryStore ℚ) (op : Op ℚ) (n : ℕ) :
    Repeated s (n + 1) op (performs op (n + 1) s) := by
  have heff := perform_effect s op
  generalize hres : perform s op = out at heff
  obtain ⟨t, res⟩ := out
  cases heff with
  | opened =>
    obtain ⟨hnext, haccounts⟩ := performs_open s _ _ _ _ (n + 1)
    exact .opened haccounts hnext
  | @closed name accNo pw acc _ hauth haccounts hnext =>
    have hgone : t.accounts.get accNo = none := by rw [haccounts, FiniteMap.get_delete_self]
    rw [performs_succ, hres, performs_fixed (close_missing hgone)]
    exact .closed hauth haccounts hnext
  | checked =>
    rw [performs_fixed (by rw [hres])]
    exact .checked
  | deposited hpos hauth hcurr =>
    obtain ⟨haccounts, hnext⟩ := performs_deposit (not_le.mp hpos) hauth hcurr (n + 1)
    exact .deposited (not_le.mp hpos) hauth hcurr haccounts hnext
  | withdrawn hpos hauth hcurr =>
    obtain ⟨haccounts, hnext⟩ := performs_withdraw (not_le.mp hpos) hauth hcurr (n + 1)
    exact .withdrawn (not_le.mp hpos) hauth hcurr haccounts hnext
  | transferred hpos hne hauth hto hcurr hsame =>
    obtain ⟨haccounts, hnext⟩ := performs_transfer (not_le.mp hpos) hne hauth hto hcurr hsame
      (n + 1)
    exact .transferred (not_le.mp hpos) hne hauth hto hcurr hsame haccounts hnext
  | refused =>
    rw [performs_fixed (by rw [hres])]
    exact .refused (by rw [hres])

end Calls
end DistributedBanking.Banking

namespace DistributedBanking.Server
open Store Banking Handler Marshalling Semantics

def CopyOf (d : Datagram) : Event → Prop
  | .datagram d' _ => d' = d
  | .sweep _ => True

def Event.isDatagram : Event → Bool
  | .datagram _ _ => true
  | .sweep _ => false

section Runs
variable {M : Type} [Money M] [Float64 M]

theorem copies_perform {s : Server M} (hmode : s.dispatcher.mode = .atLeastOnce) {d : Datagram}
    (haccept : Accepts .atLeastOnce d) {op : Op M} {txName : Bytes}
    (hreq : parseRequest d.data = some (.bank op txName)) {es : List Event}
    (hes : ∀ e ∈ es, CopyOf d e) :
    ∃ s', run s es = .ok s' ∧
      s'.backend.store = performs op (es.countP Event.isDatagram) s.backend.store := by
  induction es generalizing s with
  | nil => exact ⟨s, rfl, rfl⟩
  | cons e es ih =>
    have hrest : ∀ e ∈ es, CopyOf d e := fun e he => hes e (.tail _ he)
    cases e with
    | datagram d' now =>
      have hcopy : d' = d := hes _ (.head _)
      subst hcopy
      obtain ⟨t, res, hstep, hdisp⟩ := step_datagram (.inl hmode) d' now
      have hexec : Executes s d' := ⟨by rw [hmode]; exact haccept, .inl hmode⟩
      obtain ⟨s', hrun, hstore⟩ := ih (hdisp.mode.trans hmode) hrest
      refine ⟨s', ?_, ?_⟩
      · rw [run, List.foldlM_cons, hstep, Runs.ok_bind]
        exact hrun
      · rw [hstore, hdisp.store_executed hexec hreq, List.countP_cons_of_pos rfl, performs_succ]
    | sweep now =>
      have hswept : (sweep s now).dispatcher.mode = .atLeastOnce := hmode
      obtain ⟨s', hrun, hstore⟩ := ih hswept hrest
      refine ⟨s', ?_, ?_⟩
      · rw [run, List.foldlM_cons, show step s (.sweep now) = .ok (sweep s now) from rfl,
          Runs.ok_bind]
        exact hrun
      · rw [hstore, List.countP_cons_of_neg (by simp [Event.isDatagram])]
        rfl

end Runs

/-- The copies of an accepted request change the store as `Repeated` says. -/
theorem copies_repeat {s : Server ℚ} (hmode : s.dispatcher.mode = .atLeastOnce) {d : Datagram}
    (haccept : Accepts .atLeastOnce d) {op : Op ℚ} {txName : Bytes}
    (hreq : parseRequest d.data = some (.bank op txName)) {es : List Event}
    (hes : ∀ e ∈ es, CopyOf d e) (hsome : 0 < es.countP Event.isDatagram) :
    ∃ s', run s es = .ok s' ∧
      Repeated s.backend.store (es.countP Event.isDatagram) op s'.backend.store := by
  obtain ⟨s', hrun, hstore⟩ := copies_perform hmode haccept hreq hes
  refine ⟨s', hrun, ?_⟩
  obtain ⟨n, hn⟩ := Nat.exists_eq_succ_of_ne_zero hsome.ne'
  rw [hstore, hn]
  exact performs_repeated _ op n

theorem opening_repeats :
    ∃ s', run (newServer (M := ℚ) .atLeastOnce)
        [.datagram openA 0, .sweep 1, .datagram openA 2] = .ok s' ∧
      Repeated newMemoryStore 2
        (.openAccount [65] (passwordStringToFixed [80]) 1 5) s'.backend.store := by
  have hreq := ClientProtocol.parseRequest_packetOf (M := ℚ)
    (show openA.data.length ≤ 4096 by decide +kernel)
  have hfive : Float64.frombits 0x4014000000000000 = (5 : ℚ) := by decide +kernel
  have haccept : Accepts .atLeastOnce openA :=
    ⟨ClientProtocol.headerSize_le_serialize .little _,
      congrArg Semantics.MessageHeader.flag (ClientProtocol.headerOf_serialize .little _)⟩
  have hcopies : ∀ e ∈ [.datagram openA 0, .sweep 1, .datagram openA 2], CopyOf openA e := by
    simp [CopyOf]
  rw [← hfive]
  exact copies_repeat (s := newServer .atLeastOnce) rfl haccept hreq hcopies (by decide)

def filedUnder : Event → Option (Bytes × UInt32)
  | .datagram d _ => requestKey d
  | .sweep _ => none

theorem keys_newReplyHistory : ReplyHistory.newReplyHistory.keys = ∅ := by
  ext ⟨c, id⟩
  rw [ReplyHistory.mem_keys, ReplyHistory.lookup_newReplyHistory]
  simp

theorem keys_store (h : ReplyHistory) (c : Bytes) (id : UInt32) (reply : Bytes) :
    (h.store c id reply).keys = insert (c, id) h.keys := by
  ext ⟨c', id'⟩
  rw [Finset.mem_insert, ReplyHistory.mem_keys, ReplyHistory.mem_keys, ReplyHistory.lookup_store,
    Prod.mk.injEq]
  split_ifs with heq
  · simp [heq]
  · simp [heq]

theorem toFinset_snoc {es : List Event} {e : Event} :
    ((es ++ [e]).filterMap filedUnder).toFinset =
      (es.filterMap filedUnder).toFinset ∪ (filedUnder e).toFinset := by
  rw [List.filterMap_append, List.toFinset_append]
  cases h : filedUnder e with
  | none => simp [h]
  | some k => simp [h]

structure KeepsReplies (es : List Event) {M : Type} (s : Server M) (h : ReplyHistory) : Prop where
  mode : s.dispatcher.mode = .atMostOnce
  history : s.dispatcher.history = some h
  keys : h.keys = (es.filterMap filedUnder).toFinset

section Growth
variable {M : Type} [Money M] [Float64 M]

theorem KeepsReplies.dispatched {es : List Event} {s s' : Server M} {h : ReplyHistory}
    (hold : KeepsReplies es s h) {d : Datagram} {now : ℕ} {res : Except DispatchError Bytes}
    (hdisp : Dispatched s d now s' res) : ∃ h', KeepsReplies (es ++ [.datagram d now]) s' h' := by
  have hmode := hdisp.mode.trans hold.mode
  have hhist := hold.history
  obtain ⟨dispatcher, backend⟩ := s'
  cases hdisp with
  | rejected haccept =>
    rw [hold.mode] at haccept
    refine ⟨h, hmode, hhist, ?_⟩
    rw [toFinset_snoc, hold.keys, filedUnder, requestKey_of_not_accepts haccept]
    simp
  | executed haccept hleast =>
    rw [hold.mode] at hleast
    cases hleast
  | @recorded history haccept hmost hhistory hfresh =>
    rw [hold.mode] at haccept
    cases hhist.symm.trans hhistory
    refine ⟨_, hmode, rfl, ?_⟩
    rw [toFinset_snoc, keys_store, hold.keys, filedUnder, requestKey_of_accepts haccept]
    simp
  | @replayed history reply haccept hmost hhistory hcached =>
    rw [hold.mode] at haccept
    cases hhist.symm.trans hhistory
    have hkey : (d.addr.string, (headerOf d.data).requestID) ∈ h.keys := by
      rw [ReplyHistory.mem_keys, hcached]
      rfl
    refine ⟨h, hmode, hhist, ?_⟩
    rw [toFinset_snoc, ← hold.keys, filedUnder, requestKey_of_accepts haccept]
    simp [Finset.insert_eq_of_mem hkey]

/-- An at-most-once server keeps a reply for every pair of client and request id that it ever
accepted, and no other. -/
theorem history_grows (es : List Event) :
    ∃ (s : Server M) (h : ReplyHistory), run (newServer .atMostOnce) es = .ok s ∧
      s.dispatcher.history = some h ∧ h.keys = (es.filterMap filedUnder).toFinset ∧
      h.size = (es.filterMap filedUnder).toFinset.card := by
  obtain ⟨s, hrun, -⟩ := run_invariant (M := M) (P := fun _ => True) (s := newServer .atMostOnce)
    trivial (.inr rfl) (fun _ _ _ _ _ _ _ => trivial) (fun _ _ _ => trivial) es
  have hholds : ∃ h, KeepsReplies es s h := by
    apply Runs.run_induction (P := fun es s => ∃ h, KeepsReplies es s h) _ _ hrun
    · exact ⟨ReplyHistory.newReplyHistory, rfl, rfl, keys_newReplyHistory⟩
    · intro es s e t _ hold hstep
      obtain ⟨h, hold⟩ := hold
      cases e with
      | datagram d now =>
        obtain ⟨res, hdisp⟩ := step_dispatched (.inr hold.mode) hstep
        exact hold.dispatched hdisp
      | sweep now =>
        cases hstep
        refine ⟨h, hold.mode, hold.history, ?_⟩
        rw [toFinset_snoc, ← hold.keys, filedUnder]
        simp
  obtain ⟨h, hold⟩ := hholds
  refine ⟨s, h, hrun, hold.history, hold.keys, ?_⟩
  rw [← hold.keys, ReplyHistory.keys, FiniteMap.card_pairs]
  rfl

end Growth
end DistributedBanking.Server
