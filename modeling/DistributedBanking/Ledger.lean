import DistributedBanking.BankingEffect

/-!
# The ledger

A run of the bank leaves a trace: each call with the store it found and its
result. On exact rationals the balance of a stored account is what the trace
says it should be: the opening balance, plus what was paid in and minus what
was paid out since then. The balances in the results and the sum over the store
follow the trace as well, as long as the account numbers do not wrap around.
-/

namespace DistributedBanking.Banking
open Store

structure Entry where
  before : MemoryStore ℚ
  op : Op ℚ
  res : Result ℚ

def runOps (s : MemoryStore ℚ) : List (Op ℚ) → MemoryStore ℚ × List Entry
  | [] => (s, [])
  | op :: ops =>
    let (s', res) := perform s op
    let (s'', trace) := runOps s' ops
    (s'', ⟨s, op, res⟩ :: trace)

theorem runOps_snoc (s : MemoryStore ℚ) (ops : List (Op ℚ)) (op : Op ℚ) :
    runOps s (ops ++ [op]) = ((perform (runOps s ops).1 op).1,
      (runOps s ops).2 ++ [⟨(runOps s ops).1, op, (perform (runOps s ops).1 op).2⟩]) := by
  induction ops generalizing s with
  | nil => rfl
  | cons first ops ih => simp only [List.cons_append, runOps, ih]

def opens (ops : List (Op ℚ)) : ℕ := ops.countP Op.isOpen

namespace Entry

def credit (id : UInt32) (e : Entry) : ℚ :=
  match e.op, e.res with
  | .deposit _ accNo _ _ amount, .balance _ => if accNo = id then amount else 0
  | .transfer _ _ _ toAccNo _ amount, .balances _ _ => if toAccNo = id then amount else 0
  | _, _ => 0

def debit (id : UInt32) (e : Entry) : ℚ :=
  match e.op, e.res with
  | .withdraw _ accNo _ _ amount, .balance _ => if accNo = id then amount else 0
  | .transfer _ accNo _ _ _ amount, .balances _ _ => if accNo = id then amount else 0
  | _, _ => 0

def Renews (id : UInt32) (e : Entry) : Prop :=
  e.res = .opened id ∨ ∃ name pw, e.op = .closeAccount name id pw ∧ e.res = .closed

def opened (e : Entry) : ℚ :=
  match e.op, e.res with
  | .openAccount _ _ _ balance, .opened _ => balance
  | _, _ => 0

def deposited (e : Entry) : ℚ :=
  match e.op, e.res with
  | .deposit _ _ _ _ amount, .balance _ => amount
  | _, _ => 0

def withdrawn (e : Entry) : ℚ :=
  match e.op, e.res with
  | .withdraw _ _ _ _ amount, .balance _ => amount
  | _, _ => 0

def removed (e : Entry) : ℚ :=
  match e.op, e.res with
  | .closeAccount _ accNo _, .closed => ((e.before.accounts.get accNo).map Account.balance).getD 0
  | _, _ => 0

end Entry

/-- After `trace` the account should hold `bal`: its opening balance with all that moved since. -/
def LedgerBalance (trace : List Entry) (id : UInt32) (bal : ℚ) : Prop :=
  ∃ past start name pw curr balance since,
    trace = past ++ ⟨start, .openAccount name pw curr balance, .opened id⟩ :: since ∧
    (∀ e ∈ since, ¬ e.Renews id) ∧
    bal = balance + (since.map (Entry.credit id)).sum - (since.map (Entry.debit id)).sum

theorem LedgerBalance.open (trace : List Entry) (s : MemoryStore ℚ) (name : Bytes)
    (pw : Vector UInt8 8) (curr : UInt8) (balance : ℚ) (id : UInt32) :
    LedgerBalance (trace ++ [⟨s, .openAccount name pw curr balance, .opened id⟩]) id balance :=
  ⟨trace, s, name, pw, curr, balance, [], rfl, by simp, by simp⟩

theorem LedgerBalance.snoc {trace : List Entry} {id : UInt32} {bal bal' : ℚ} {e : Entry}
    (h : LedgerBalance trace id bal) (he : ¬ e.Renews id)
    (hbal : bal' = bal + e.credit id - e.debit id) : LedgerBalance (trace ++ [e]) id bal' := by
  obtain ⟨past, start, name, pw, curr, balance, since, rfl, hsince, rfl⟩ := h
  refine ⟨past, start, name, pw, curr, balance, since ++ [e], by simp, ?_, ?_⟩
  · intro e' he'
    rcases List.mem_append.mp he' with h | h
    · exact hsince e' h
    · rw [List.mem_singleton.mp h]
      exact he
  · simp only [List.map_append, List.sum_append, List.map_cons, List.map_nil, List.sum_cons,
      List.sum_nil, add_zero]
    rw [hbal]
    ring

theorem last_renewal {id : UInt32} {e e' : Entry} {as since since' : List Entry}
    (h : e :: since = as ++ e' :: since') (hsince : ∀ x ∈ since, ¬ x.Renews id)
    (he' : e'.Renews id) : e = e' ∧ since = since' := by
  cases as with
  | nil =>
    rw [List.nil_append, List.cons.injEq] at h
    exact h
  | cons a as =>
    rw [List.cons_append, List.cons.injEq] at h
    have hmem : e' ∈ since := by
      rw [h.2]
      exact List.mem_append_right _ List.mem_cons_self
    exact absurd he' (hsince e' hmem)

theorem LedgerBalance.unique {trace : List Entry} {id : UInt32} {bal bal' : ℚ}
    (h : LedgerBalance trace id bal) (h' : LedgerBalance trace id bal') : bal = bal' := by
  obtain ⟨past, start, name, pw, curr, balance, since, rfl, hsince, rfl⟩ := h
  obtain ⟨past', start', name', pw', curr', balance', since', heq, hsince', rfl⟩ := h'
  rcases List.append_eq_append_iff.mp heq with ⟨as, -, hlast⟩ | ⟨as, -, hlast⟩
  · obtain ⟨hopening, htail⟩ := last_renewal hlast hsince (.inl rfl)
    cases hopening
    rw [htail]
  · obtain ⟨hopening, htail⟩ := last_renewal hlast hsince' (.inl rfl)
    cases hopening
    rw [htail]

/-- The balances in a result are those the ledger gives after the call. -/
def Truthful (trace : List Entry) (e : Entry) : Prop :=
  match e.op, e.res with
  | .checkBalance _ accNo _, .balance b => LedgerBalance trace accNo b
  | .deposit _ accNo _ _ _, .balance b => LedgerBalance trace accNo b
  | .withdraw _ accNo _ _ _, .balance b => LedgerBalance trace accNo b
  | .transfer _ accNo _ toAccNo _ _, .balances b c =>
    LedgerBalance trace accNo b ∧ LedgerBalance trace toAccNo c
  | _, _ => True

def storeTotal (s : MemoryStore ℚ) : ℚ := s.accounts.total fun _ acc => acc.balance

structure Ledger (trace : List Entry) (s : MemoryStore ℚ) : Prop where
  below : Below s
  balances : ∀ id acc, s.accounts.get id = some acc → LedgerBalance trace id acc.balance
  replies : ∀ past e later, trace = past ++ e :: later → Truthful (past ++ [e]) e
  total : storeTotal s = (trace.map Entry.opened).sum + (trace.map Entry.deposited).sum -
    (trace.map Entry.withdrawn).sum - (trace.map Entry.removed).sum

theorem Ledger.initial : Ledger [] (newMemoryStore : MemoryStore ℚ) where
  below := by simp [Below, newMemoryStore]
  balances := by simp [newMemoryStore]
  replies := by simp
  total := by simp [storeTotal, newMemoryStore]

section Step
variable {trace : List Entry} {s s' : MemoryStore ℚ} {op : Op ℚ} {res : Result ℚ}

theorem effect_balance (heff : Effect s op s' res) {id : UInt32}
    {acc' : Account ℚ} (hget : s'.accounts.get id = some acc') :
    (∃ acc, s.accounts.get id = some acc ∧ ¬ (Entry.mk s op res).Renews id ∧
        acc'.balance = acc.balance + (Entry.mk s op res).credit id -
          (Entry.mk s op res).debit id) ∨
      ∃ name pw curr, op = .openAccount name pw curr acc'.balance ∧ res = .opened id := by
  cases heff with
  | opened haccounts hnext =>
    rw [haccounts, FiniteMap.get_set] at hget
    by_cases hid : id = s.nextID
    · rw [if_pos hid] at hget
      subst hid
      cases Option.some.inj hget
      exact .inr ⟨_, _, _, rfl, rfl⟩
    · rw [if_neg hid] at hget
      have hne : s.nextID ≠ id := Ne.symm hid
      exact .inl ⟨acc', hget, by simp [Entry.Renews, hne], by simp [Entry.credit, Entry.debit]⟩
  | closed hauth haccounts hnext =>
    rw [haccounts, FiniteMap.get_delete] at hget
    split_ifs at hget with hid
    have hne := Ne.symm hid
    exact .inl ⟨acc', hget, by simp [Entry.Renews, hne], by simp [Entry.credit, Entry.debit]⟩
  | checked =>
    exact .inl ⟨acc', hget, by simp [Entry.Renews], by simp [Entry.credit, Entry.debit]⟩
  | deposited hpos hauth hcurr haccounts hnext =>
    rw [haccounts, FiniteMap.get_set] at hget
    split_ifs at hget with hid
    · subst hid
      cases Option.some.inj hget
      exact .inl ⟨_, hauth.stored, by simp [Entry.Renews], by simp [Entry.credit, Entry.debit]⟩
    · have hne := Ne.symm hid
      exact .inl ⟨acc', hget, by simp [Entry.Renews], by simp [Entry.credit, Entry.debit, hne]⟩
  | withdrawn hpos hauth hcurr hfunds haccounts hnext =>
    rw [haccounts, FiniteMap.get_set] at hget
    split_ifs at hget with hid
    · subst hid
      cases Option.some.inj hget
      exact .inl ⟨_, hauth.stored, by simp [Entry.Renews], by simp [Entry.credit, Entry.debit]⟩
    · have hne := Ne.symm hid
      exact .inl ⟨acc', hget, by simp [Entry.Renews], by simp [Entry.credit, Entry.debit, hne]⟩
  | transferred hpos hne hauth hto hcurr hsame hfunds haccounts hnext =>
    rw [haccounts, FiniteMap.get_set, FiniteMap.get_set] at hget
    split_ifs at hget with hidTo hid
    · subst hidTo
      cases Option.some.inj hget
      exact .inl ⟨_, hto, by simp [Entry.Renews], by simp [Entry.credit, Entry.debit, hne]⟩
    · subst hid
      cases Option.some.inj hget
      have hne' := Ne.symm hne
      exact .inl ⟨_, hauth.stored, by simp [Entry.Renews],
        by simp [Entry.credit, Entry.debit, hne']⟩
    · have hfrom := Ne.symm hid
      have hdest := Ne.symm hidTo
      exact .inl ⟨acc', hget, by simp [Entry.Renews],
        by simp [Entry.credit, Entry.debit, hfrom, hdest]⟩
  | refused =>
    exact .inl ⟨acc', hget, by simp [Entry.Renews], by simp [Entry.credit, Entry.debit]⟩

theorem step_balances (h : Ledger trace s) (heff : Effect s op s' res) :
    ∀ id acc, s'.accounts.get id = some acc →
      LedgerBalance (trace ++ [⟨s, op, res⟩]) id acc.balance := by
  intro id acc' hget
  rcases effect_balance heff hget with
    ⟨acc, hold, hrenews, hbal⟩ | ⟨name, pw, curr, rfl, rfl⟩
  · exact (h.balances id acc hold).snoc hrenews hbal
  · exact LedgerBalance.open trace s name pw curr acc'.balance id

theorem step_truthful (heff : Effect s op s' res)
    (hbalances : ∀ id acc, s'.accounts.get id = some acc →
      LedgerBalance (trace ++ [⟨s, op, res⟩]) id acc.balance) :
    Truthful (trace ++ [⟨s, op, res⟩]) ⟨s, op, res⟩ := by
  cases heff with
  | opened => trivial
  | closed => trivial
  | checked hauth => exact hbalances _ _ hauth.stored
  | @deposited name accNo pw curr amount acc _ hpos hauth hcurr haccounts hnext =>
    have hget : s'.accounts.get accNo = some { acc with balance := acc.balance + amount } := by
      rw [haccounts, FiniteMap.get_set_self]
    exact hbalances _ _ hget
  | @withdrawn name accNo pw curr amount acc _ hpos hauth hcurr hfunds haccounts hnext =>
    have hget : s'.accounts.get accNo = some { acc with balance := acc.balance - amount } := by
      rw [haccounts, FiniteMap.get_set_self]
    exact hbalances _ _ hget
  | @transferred name accNo pw toAccNo curr amount acc toAcc _ hpos hne hauth hto hcurr hsame hfunds
      haccounts hnext =>
    have hfrom : s'.accounts.get accNo = some { acc with balance := acc.balance - amount } := by
      rw [haccounts, FiniteMap.get_set_of_ne _ _ hne, FiniteMap.get_set_self]
    have hdest : s'.accounts.get toAccNo =
        some { toAcc with balance := toAcc.balance + amount } := by
      rw [haccounts, FiniteMap.get_set_self]
    exact ⟨hbalances _ _ hfrom, hbalances _ _ hdest⟩
  | refused => cases op <;> trivial

theorem step_replies (h : Ledger trace s)
    (he : Truthful (trace ++ [⟨s, op, res⟩]) ⟨s, op, res⟩) :
    ∀ past e later, trace ++ [⟨s, op, res⟩] = past ++ e :: later →
      Truthful (past ++ [e]) e := by
  intro past e later heq
  rcases List.append_eq_append_iff.mp heq with ⟨as, hpast, hlast⟩ | ⟨as, htrace, hlast⟩
  · cases as with
    | nil =>
      simp only [List.append_nil] at hpast
      simp only [List.nil_append, List.cons.injEq] at hlast
      rw [hpast, ← hlast.1]
      exact he
    | cons a as =>
      have hlen := congrArg List.length hlast
      simp at hlen
  · cases as with
    | nil =>
      simp only [List.append_nil] at htrace
      simp only [List.nil_append, List.cons.injEq] at hlast
      rw [← htrace, hlast.1]
      exact he
    | cons a as =>
      simp only [List.cons_append, List.cons.injEq] at hlast
      rw [hlast.1]
      exact h.replies past a as htrace

theorem effect_total (hbelow : Below s) (heff : Effect s op s' res) :
    storeTotal s' = storeTotal s + (Entry.mk s op res).opened +
      (Entry.mk s op res).deposited - (Entry.mk s op res).withdrawn -
      (Entry.mk s op res).removed := by
  cases heff with
  | opened haccounts hnext =>
    rw [storeTotal, haccounts, FiniteMap.total_set_of_none _ _ hbelow.fresh]
    simp [storeTotal, Entry.opened, Entry.deposited, Entry.withdrawn, Entry.removed]
    ring
  | closed hauth haccounts hnext =>
    have hdel := FiniteMap.total_delete_of_some (fun _ acc => Account.balance acc) hauth.stored
    simp only [storeTotal, haccounts]
    simp [Entry.opened, Entry.deposited, Entry.withdrawn, Entry.removed, hauth.stored]
    linarith
  | checked => simp [Entry.opened, Entry.deposited, Entry.withdrawn, Entry.removed]
  | @deposited name accNo pw curr amount acc _ hpos hauth hcurr haccounts hnext =>
    have hset := FiniteMap.total_set_of_some (fun _ acc => Account.balance acc)
      { acc with balance := acc.balance + amount } hauth.stored
    simp only [storeTotal, haccounts]
    simp [Entry.opened, Entry.deposited, Entry.withdrawn, Entry.removed]
    simp only at hset
    linarith
  | @withdrawn name accNo pw curr amount acc _ hpos hauth hcurr hfunds haccounts hnext =>
    have hset := FiniteMap.total_set_of_some (fun _ acc => Account.balance acc)
      { acc with balance := acc.balance - amount } hauth.stored
    simp only [storeTotal, haccounts]
    simp [Entry.opened, Entry.deposited, Entry.withdrawn, Entry.removed]
    simp only at hset
    linarith
  | @transferred name accNo pw toAccNo curr amount acc toAcc _ hpos hne hauth hto hcurr hsame hfunds
      haccounts hnext =>
    have hfirst := FiniteMap.total_set_of_some (fun _ acc => Account.balance acc)
      { acc with balance := acc.balance - amount } hauth.stored
    have hto' : (s.accounts.set accNo { acc with balance := acc.balance - amount }).get toAccNo =
        some toAcc := by
      rw [FiniteMap.get_set_of_ne _ _ (Ne.symm hne), hto]
    have hsecond := FiniteMap.total_set_of_some (fun _ acc => Account.balance acc)
      { toAcc with balance := toAcc.balance + amount } hto'
    simp only [storeTotal, haccounts]
    simp [Entry.opened, Entry.deposited, Entry.withdrawn, Entry.removed]
    simp only at hfirst hsecond
    linarith
  | refused => cases op <;> simp [Entry.opened, Entry.deposited, Entry.withdrawn, Entry.removed]

theorem Ledger.step (h : Ledger trace s) (heff : Effect s op s' res)
    (hwrap : op.isOpen = true → s.nextID.toNat + 1 < 2 ^ 32) :
    Ledger (trace ++ [⟨s, op, res⟩]) s' where
  below := h.below.effect heff hwrap
  balances := step_balances h heff
  replies := step_replies h (step_truthful heff (step_balances h heff))
  total := by
    simp only [List.map_append, List.sum_append, List.map_cons, List.map_nil, List.sum_cons,
      List.sum_nil, add_zero]
    rw [effect_total h.below heff, h.total]
    ring

end Step

theorem runOps_ledger {trace : List Entry} {s : MemoryStore ℚ} (h : Ledger trace s)
    (ops : List (Op ℚ)) (hopens : s.nextID.toNat + opens ops < 2 ^ 32) :
    Ledger (trace ++ (runOps s ops).2) (runOps s ops).1 := by
  induction ops generalizing trace s with
  | nil => simpa [runOps] using h
  | cons op ops ih =>
    have heff := perform_effect s op
    have hcount : opens (op :: ops) = opens ops + op.isOpen.toNat := by
      simp only [opens, List.countP_cons]
      cases op.isOpen <;> rfl
    have hnext := heff.nextID_le
    have hstep := h.step heff fun hopen => by
      rw [hcount, hopen] at hopens
      simp only [Bool.toNat_true] at hopens
      omega
    have hrest := ih hstep (by omega)
    simpa [runOps] using hrest

theorem ledger_of_run {ops : List (Op ℚ)} (hopens : opens ops < 2 ^ 32 - 10000) :
    let s := (runOps newMemoryStore ops).1
    let trace := (runOps newMemoryStore ops).2
    (∀ id acc, s.accounts.get id = some acc → LedgerBalance trace id acc.balance) ∧
    (∀ past e later, trace = past ++ e :: later → Truthful (past ++ [e]) e) ∧
    storeTotal s = (trace.map Entry.opened).sum + (trace.map Entry.deposited).sum -
      (trace.map Entry.withdrawn).sum - (trace.map Entry.removed).sum := by
  have hstart : (newMemoryStore : MemoryStore ℚ).nextID.toNat = 10000 := rfl
  have hledger := runOps_ledger Ledger.initial ops (by omega)
  rw [List.nil_append] at hledger
  exact ⟨hledger.balances, hledger.replies, hledger.total⟩

theorem ledger_of_open_deposit :
    let ops := [.openAccount [65] (Vector.replicate 8 0) 1 5,
      .deposit [65] 10000 (Vector.replicate 8 0) 1 3]
    let s := (runOps newMemoryStore ops).1
    let trace := (runOps newMemoryStore ops).2
    (∀ id acc, s.accounts.get id = some acc → LedgerBalance trace id acc.balance) ∧
    (∀ past e later, trace = past ++ e :: later → Truthful (past ++ [e]) e) ∧
    storeTotal s = (trace.map Entry.opened).sum + (trace.map Entry.deposited).sum -
      (trace.map Entry.withdrawn).sum - (trace.map Entry.removed).sum :=
  ledger_of_run (by decide)

end DistributedBanking.Banking
