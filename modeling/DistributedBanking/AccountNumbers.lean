import DistributedBanking.BankingEffect

/-!
# Account numbers come round

`CreateAccount` hands out the counter and never looks whether its number is in
use. An account keeps its number until it is closed, so a number is handed out
twice at once exactly when an account is still open at the 2^32-th opening after
its own.
-/

namespace DistributedBanking.Banking
open Store

variable {M : Type} [Money M]

def after (s : MemoryStore M) (ops : List (Op M)) : MemoryStore M :=
  ops.foldl (fun s op => (perform s op).1) s

omit [Money M] in
def openings (ops : List (Op M)) : ℕ := ops.countP Op.isOpen

def Closes (s : MemoryStore M) (op : Op M) (accNo : UInt32) : Prop :=
  (∃ name pw, op = .closeAccount name accNo pw) ∧ (perform s op).2 = .closed

def ClosedIn (s : MemoryStore M) (ops : List (Op M)) (accNo : UInt32) : Prop :=
  ∃ as op bs, ops = as ++ op :: bs ∧ Closes (after s as) op accNo

/-- If the call opens an account, the number was free and every stored account stays as it is. -/
def OpensFresh (s : MemoryStore M) (op : Op M) : Prop :=
  ∀ accNo, (perform s op).2 = .opened accNo → s.accounts.get accNo = none ∧
    ∀ id acc, s.accounts.get id = some acc → (perform s op).1.accounts.get id = some acc

@[simp] theorem after_nil (s : MemoryStore M) : after s [] = s := rfl

@[simp] theorem after_cons (s : MemoryStore M) (op : Op M) (ops : List (Op M)) :
    after s (op :: ops) = after (perform s op).1 ops := rfl

theorem after_append (s : MemoryStore M) (as bs : List (Op M)) :
    after s (as ++ bs) = after (after s as) bs := List.foldl_append

theorem after_snoc (s : MemoryStore M) (as : List (Op M)) (op : Op M) :
    after s (as ++ [op]) = (perform (after s as) op).1 := by
  rw [after_append, after_cons, after_nil]

theorem after_nextID (s : MemoryStore M) (ops : List (Op M)) :
    (after s ops).nextID = s.nextID + UInt32.ofNat (openings ops) := by
  induction ops generalizing s with
  | nil => simp [openings]
  | cons op ops ih =>
    have hcount : openings (op :: ops) = op.isOpen.toNat + openings ops := by
      rw [openings, List.countP_cons, openings]
      cases op.isOpen <;> simp [Nat.add_comm]
    rw [after_cons, ih, perform_nextID, hcount, UInt32.ofNat_add, UInt32.add_assoc]

theorem Effect.stored {s s' : MemoryStore M} {op : Op M} {res : Result M}
    (heff : Effect s op s' res) (accNo : UInt32) :
    (s'.accounts.get accNo).isSome ↔ res = .opened accNo ∨ (s.accounts.get accNo).isSome ∧
      ¬ ((∃ name pw, op = .closeAccount name accNo pw) ∧ res = .closed) := by
  have hwrite : ∀ {m m' : FiniteMap UInt32 (Account M)} {k : UInt32} {acc acc' : Account M},
      m.get k = some acc → m' = m.set k acc' →
        ((m'.get accNo).isSome ↔ (m.get accNo).isSome) := by
    intro m m' k acc acc' hget hm'
    rw [hm', FiniteMap.get_set]
    split_ifs with hk
    · simp [hk, hget]
    · rfl
  cases heff with
  | opened haccounts =>
    rw [haccounts, FiniteMap.get_set]
    by_cases hid : accNo = s.nextID
    · simp [hid]
    · simp [hid, Ne.symm hid]
  | @closed name accNo' pw acc _ hauth haccounts =>
    rw [haccounts, FiniteMap.get_delete]
    by_cases hid : accNo = accNo'
    · simp [hid]
    · simp [hid, Ne.symm hid]
  | checked => simp
  | deposited hpos hauth hcurr haccounts => simpa using hwrite hauth.stored haccounts
  | withdrawn hpos hauth hcurr hfunds haccounts => simpa using hwrite hauth.stored haccounts
  | @transferred name from' pw to' curr amount acc toAcc _ hpos hne hauth hto hcurr hsame hfunds
      haccounts =>
    have hmid : ((s.accounts.set from' { acc with balance := acc.balance - amount }).get to') =
        some toAcc := by
      rw [FiniteMap.get_set_of_ne _ _ hne.symm, hto]
    simpa using (hwrite hmid haccounts).trans (hwrite hauth.stored rfl)
  | refused => simp

theorem perform_opened {s : MemoryStore M} {op : Op M} {accNo : UInt32} :
    (perform s op).2 = .opened accNo ↔ op.isOpen ∧ s.nextID = accNo := by
  have heff := perform_effect s op
  cases op with
  | openAccount => simp [perform, openAccount, createAccount, Op.isOpen]
  | _ =>
    simp only [Op.isOpen, Bool.false_eq_true, false_and, iff_false]
    intro hres
    generalize (perform s _).1 = s' at heff
    rw [hres] at heff
    cases heff

theorem perform_stored (s : MemoryStore M) (op : Op M) (accNo : UInt32) :
    ((perform s op).1.accounts.get accNo).isSome ↔
      op.isOpen ∧ s.nextID = accNo ∨ (s.accounts.get accNo).isSome ∧ ¬ Closes s op accNo := by
  rw [(perform_effect s op).stored accNo, perform_opened, Closes]

theorem after_stored {s : MemoryStore M} {accNo : UInt32} (h : (s.accounts.get accNo).isSome)
    {ops : List (Op M)} (hops : ¬ ClosedIn s ops accNo) :
    ((after s ops).accounts.get accNo).isSome := by
  induction ops generalizing s with
  | nil => exact h
  | cons op ops ih =>
    rw [after_cons]
    apply ih
    · rw [perform_stored]
      exact .inr ⟨h, fun hclose => hops ⟨[], op, ops, rfl, hclose⟩⟩
    · intro hclosed
      obtain ⟨as, op', bs, rfl, hclose⟩ := hclosed
      exact hops ⟨op :: as, op', bs, rfl, hclose⟩

theorem stored_origin {ops : List (Op M)} {accNo : UInt32}
    (h : ((after newMemoryStore ops).accounts.get accNo).isSome) :
    ∃ as op mid, ops = as ++ op :: mid ∧ op.isOpen ∧
      (after newMemoryStore as).nextID = accNo ∧
      ¬ ClosedIn (after newMemoryStore (as ++ [op])) mid accNo ∧
      ∀ cs op' ds, mid = cs ++ op' :: ds → op'.isOpen →
        (after newMemoryStore (as ++ op :: cs)).nextID ≠ accNo := by
  induction ops using List.reverseRecOn with
  | nil => simp [newMemoryStore] at h
  | append_singleton ops last ih =>
    rw [after_snoc, perform_stored] at h
    by_cases hlast : last.isOpen ∧ (after newMemoryStore ops).nextID = accNo
    · refine ⟨ops, last, [], rfl, hlast.1, hlast.2, ?_, ?_⟩
      · intro hclosed
        obtain ⟨as, op', bs, hnil, -⟩ := hclosed
        simp at hnil
      · intro cs op' ds hnil
        simp at hnil
    · obtain ⟨hbefore, hkept⟩ := h.resolve_left hlast
      obtain ⟨as, op, mid, rfl, hopen, hnum, hclosed, hothers⟩ := ih hbefore
      refine ⟨as, op, mid ++ [last], by simp, hopen, hnum, ?_, ?_⟩
      · intro hclosed
        obtain ⟨cs, op', ds, hsplit, hclose⟩ := hclosed
        rcases List.eq_nil_or_concat ds with rfl | ⟨ds', last', rfl⟩
        · obtain ⟨rfl, hop'⟩ := List.append_inj' hsplit rfl
          obtain rfl : last = op' := by simpa using hop'
          rw [← after_append] at hclose
          exact hkept (by simpa using hclose)
        · rw [List.concat_eq_append, ← List.cons_append, ← List.append_assoc] at hsplit
          obtain ⟨rfl, -⟩ := List.append_inj' hsplit rfl
          exact hclosed ⟨cs, op', ds', rfl, hclose⟩
      · intro cs op' ds hsplit hopen'
        rcases List.eq_nil_or_concat ds with rfl | ⟨ds', last', rfl⟩
        · obtain ⟨rfl, hop'⟩ := List.append_inj' hsplit rfl
          obtain rfl : last = op' := by simpa using hop'
          exact fun hnext => hlast ⟨hopen', hnext⟩
        · rw [List.concat_eq_append, ← List.cons_append, ← List.append_assoc] at hsplit
          obtain ⟨rfl, -⟩ := List.append_inj' hsplit rfl
          exact hothers cs op' ds' rfl hopen'

omit [Money M] in
theorem exists_opening {ops : List (Op M)} {k : ℕ} (h : k < openings ops) :
    ∃ cs op ds, ops = cs ++ op :: ds ∧ op.isOpen ∧ openings cs = k := by
  induction ops generalizing k with
  | nil => simp [openings] at h
  | cons op ops ih =>
    by_cases hopen : op.isOpen
    · rcases k with _ | k
      · exact ⟨[], op, ops, rfl, hopen, rfl⟩
      · rw [openings, List.countP_cons_of_pos hopen] at h
        obtain ⟨cs, op', ds, rfl, hopen', hcount⟩ := ih (k := k) (Nat.lt_of_succ_lt_succ h)
        refine ⟨op :: cs, op', ds, rfl, hopen', ?_⟩
        rw [openings, List.countP_cons_of_pos hopen]
        exact congrArg (· + 1) hcount
    · rw [openings, List.countP_cons_of_neg hopen] at h
      obtain ⟨cs, op', ds, rfl, hopen', hcount⟩ := ih h
      refine ⟨op :: cs, op', ds, rfl, hopen', ?_⟩
      rw [openings, List.countP_cons_of_neg hopen]
      exact hcount

theorem nextID_round (s : MemoryStore M) {op : Op M} (hopen : op.isOpen) {mid : List (Op M)} :
    (after s (op :: mid)).nextID = s.nextID ↔ 2 ^ 32 ∣ openings mid + 1 := by
  have hcount : openings (op :: mid) = openings mid + 1 := List.countP_cons_of_pos hopen
  rw [after_nextID, hcount]
  constructor
  · intro h
    have hzero := congrArg UInt32.toNat (UInt32.add_eq_left.mp h)
    rw [UInt32.toNat_ofNat', UInt32.toNat_zero] at hzero
    exact Nat.dvd_of_mod_eq_zero hzero
  · intro h
    rw [UInt32.add_eq_left, ← UInt32.toNat_inj, UInt32.toNat_ofNat', UInt32.toNat_zero]
    exact Nat.mod_eq_zero_of_dvd h

theorem opensFresh_of_free {s : MemoryStore M} {op : Op M}
    (h : op.isOpen → s.accounts.get s.nextID = none) : OpensFresh s op := by
  intro accNo hopened
  obtain ⟨hopen, rfl⟩ := perform_opened.mp hopened
  refine ⟨h hopen, ?_⟩
  intro id acc hget
  have hne : id ≠ s.nextID := by
    intro hsame
    subst hsame
    rw [h hopen] at hget
    cases hget
  cases op with
  | openAccount => exact (FiniteMap.get_set_of_ne _ _ hne).trans hget
  | _ => simp [Op.isOpen] at hopen

/-- No opening of a run hands out a number in use exactly when every account is closed before the
2^32-th opening after its own. -/
theorem opensFresh_run_iff (ops : List (Op M)) :
    (∀ as op bs, ops = as ++ op :: bs → OpensFresh (after newMemoryStore as) op) ↔
      ∀ as op mid op' bs, ops = as ++ op :: (mid ++ op' :: bs) → op.isOpen → op'.isOpen →
        openings mid = 2 ^ 32 - 1 →
          ClosedIn (after newMemoryStore (as ++ [op])) mid (after newMemoryStore as).nextID := by
  constructor
  · intro hfresh as op mid op' bs hops hopen hopen' hmid
    by_contra hclosed
    have hstored : ((after newMemoryStore (as ++ op :: mid)).accounts.get
        (after newMemoryStore as).nextID).isSome := by
      rw [← List.singleton_append, ← List.append_assoc, after_append]
      apply after_stored _ hclosed
      rw [after_snoc, perform_stored]
      exact .inl ⟨hopen, rfl⟩
    have hround : (after newMemoryStore (as ++ op :: mid)).nextID =
        (after newMemoryStore as).nextID := by
      rw [after_append, nextID_round _ hopen, hmid]
      exact dvd_rfl
    have hfree := (hfresh (as ++ op :: mid) op' bs (by simp [hops])
      (after newMemoryStore as).nextID (perform_opened.mpr ⟨hopen', hround⟩)).1
    rw [hfree] at hstored
    cases hstored
  · intro hclosed as op bs hops
    apply opensFresh_of_free
    intro hopen
    by_contra hused
    obtain ⟨as', op', mid, rfl, hopen', hnum, hkept, hothers⟩ :=
      stored_origin (Option.isSome_iff_ne_none.mpr hused)
    rw [← hnum] at hkept hothers
    have hdvd : 2 ^ 32 ∣ openings mid + 1 := by
      rw [after_append] at hnum
      exact (nextID_round _ hopen').mp hnum.symm
    have hfew : openings mid < 2 ^ 32 := by
      by_contra hmany
      obtain ⟨cs, op'', ds, rfl, hopen'', hcount⟩ :=
        exists_opening (k := 2 ^ 32 - 1) (by omega : 2 ^ 32 - 1 < openings mid)
      apply hothers cs op'' ds rfl hopen''
      rw [after_append, nextID_round _ hopen', hcount]
      exact dvd_rfl
    have hmid : openings mid = 2 ^ 32 - 1 := by
      have hle := Nat.le_of_dvd (Nat.succ_pos _) hdvd
      omega
    exact hkept (hclosed as' op' mid op bs (by simp [hops]) hopen' hopen hmid)

def openEmpty : Op ℚ := .openAccount [65] (.replicate 8 0) 1 0

/-- Open and close accounts, the first one being the `i`-th account after account 10000. -/
def churn : ℕ → ℕ → List (Op ℚ)
  | 0, _ => []
  | k + 1, i =>
    openEmpty :: .closeAccount [65] (10000 + UInt32.ofNat i) (.replicate 8 0) :: churn k (i + 1)

theorem openings_churn (k i : ℕ) : openings (churn k i) = k := by
  induction k generalizing i with
  | zero => rfl
  | succ k ih =>
    rw [churn, openings, List.countP_cons_of_pos rfl, List.countP_cons_of_neg (by simp [Op.isOpen])]
    exact congrArg (· + 1) (ih (i + 1))

theorem churn_spares {k i : ℕ} (hi : 0 < i) (hk : i + k ≤ 2 ^ 32) {name : Bytes}
    {pw : Vector UInt8 8} : .closeAccount name 10000 pw ∉ churn k i := by
  induction k generalizing i with
  | zero => exact List.not_mem_nil
  | succ k ih =>
    have hne : (10000 : UInt32) ≠ 10000 + UInt32.ofNat i := by
      intro h
      have hzero := congrArg UInt32.toNat (UInt32.add_eq_left.mp h.symm)
      rw [UInt32.toNat_ofNat_of_lt' (show i < 2 ^ 32 by omega), UInt32.toNat_zero] at hzero
      omega
    have hrest := ih (i := i + 1) (Nat.succ_pos i) (by omega)
    simp [churn, openEmpty, hne, hrest]

/-- While account 10000 stays open, 2^32 - 1 others are opened and closed again. -/
def longRun : List (Op ℚ) := openEmpty :: (churn (2 ^ 32 - 1) 1 ++ [openEmpty])

theorem longRun_reuses :
    ¬ ∀ as op bs, longRun = as ++ op :: bs → OpensFresh (after newMemoryStore as) op := by
  intro hfresh
  have hround : (after newMemoryStore (openEmpty :: churn (2 ^ 32 - 1) 1)).nextID = 10000 := by
    have hdvd : 2 ^ 32 ∣ openings (churn (2 ^ 32 - 1) 1) + 1 := by
      rw [openings_churn, Nat.sub_add_cancel (by decide)]
    have hopen : openEmpty.isOpen := rfl
    exact (nextID_round newMemoryStore hopen).mpr hdvd
  have hstored : ((after newMemoryStore (openEmpty :: churn (2 ^ 32 - 1) 1)).accounts.get
      10000).isSome := by
    rw [after_cons]
    apply after_stored
    · rw [perform_stored]
      exact .inl ⟨rfl, rfl⟩
    · intro hclosed
      obtain ⟨as, op, bs, hsplit, ⟨name, pw, rfl⟩, -⟩ := hclosed
      have hmem : .closeAccount name 10000 pw ∈ churn (2 ^ 32 - 1) 1 := by
        rw [hsplit]
        exact List.mem_append_right as List.mem_cons_self
      exact churn_spares (by decide) (by decide) hmem
  have hfree := (hfresh (openEmpty :: churn (2 ^ 32 - 1) 1) openEmpty [] rfl 10000
    (perform_opened.mpr ⟨rfl, hround⟩)).1
  rw [hfree] at hstored
  cases hstored

end DistributedBanking.Banking
