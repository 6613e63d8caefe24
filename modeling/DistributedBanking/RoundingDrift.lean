import DistributedBanking.Funds

/-!
# How far rounding takes a balance

A sum or a difference of doubles is off by at most half a unit of the last
place. Over a run of the bank this adds up to half a unit for each payment into
or out of an account, as long as the significand can count what came in.
-/

namespace DistributedBanking.Banking
open Store Server Doubles

def number (x : Float) : ℚ := (valueOf x).toRat

def Finite (x : Float) : Prop := ∃ q, valueOf x = .finite q

theorem Finite.value {x : Float} (h : Finite x) : valueOf x = .finite (number x) := by
  obtain ⟨q, hq⟩ := h
  rw [number, hq]
  rfl

def held (acc : Account Float) : ℚ := number acc.balance

section Rounding
variable {k : ℤ} {x y : Float}

theorem top_exact (hleast : -1074 ≤ k) (htop : 53 + k < 1024) : Exact (2 ^ (53 + k)) := by
  have hpos : (0 : ℚ) < 2 ^ (53 + k) := zpow_pos two_pos _
  refine Whole.exact ⟨2 ^ 53, ?_⟩ hleast htop (abs_of_pos hpos).le
  rw [zpow_add₀ two_ne_zero]
  norm_cast

theorem near (hleast : -1074 ≤ k) (htop : 53 + k < 1024) {q : ℚ}
    (h : Rounded (.finite q) (valueOf x)) (hq : |q| ≤ 2 ^ (53 + k)) :
    Finite x ∧ |number x - q| ≤ 2 ^ k / 2 ∧ |number x| ≤ |q| + 2 ^ k / 2 := by
  obtain ⟨hrep, hsmall⟩ := top_exact hleast htop
  rw [abs_of_pos (zpow_pos two_pos _)] at hsmall
  generalize hv : valueOf x = v at h
  cases h with
  | special hx => exact absurd rfl (hx q)
  | finite hw =>
    have herror : |number x - q| ≤ 2 ^ k / 2 := by
      rw [number, hv]
      exact hw.error hleast hq
    have hsize := (abs_sub_abs_le_abs_sub (number x) q).trans herror
    exact ⟨⟨_, hv⟩, herror, sub_le_iff_le_add'.mp hsize⟩
  | posInf hw hlarge =>
    have hle := hw.le hrep ((le_abs_self q).trans hq)
    exact absurd (hlarge.trans hle) (not_le.mpr hsmall)
  | negInf hw hlarge =>
    have hge := hw.ge hrep.neg (neg_le_of_abs_le hq)
    exact absurd (neg_le_neg_iff.mp (hge.trans hlarge)) (not_le.mpr hsmall)

theorem near_add (hleast : -1074 ≤ k) (htop : 53 + k < 1024) (hx : Finite x) (hy : Finite y)
    (hsum : |number x + number y| ≤ 2 ^ (53 + k)) :
    Finite (x + y) ∧ |number (x + y) - (number x + number y)| ≤ 2 ^ k / 2 ∧
      |number (x + y)| ≤ |number x + number y| + 2 ^ k / 2 := by
  have hrounded := valueOf_add x y
  rw [hx.value, hy.value, finite_add] at hrounded
  exact near hleast htop hrounded hsum

theorem near_sub (hleast : -1074 ≤ k) (htop : 53 + k < 1024) (hx : Finite x) (hy : Finite y)
    (hsum : |number x - number y| ≤ 2 ^ (53 + k)) :
    Finite (x - y) ∧ |number (x - y) - (number x - number y)| ≤ 2 ^ k / 2 ∧
      |number (x - y)| ≤ |number x - number y| + 2 ^ k / 2 := by
  have hrounded := valueOf_sub x y
  rw [hx.value, hy.value, finite_sub] at hrounded
  exact near hleast htop hrounded hsum

theorem number_pos (hx : Finite x) (h : ¬ x ≤ 0) : 0 < number x := by
  rw [le_iff, hx.value, valueOf_zero, Binary64.le_def] at h
  simpa [Binary64.lessEq] using h

theorem number_le (hx : Finite x) (hy : Finite y) (h : ¬ x < y) : number y ≤ number x := by
  rw [lt_iff, hx.value, hy.value, Binary64.lt_def] at h
  simpa [Binary64.less] using h

end Rounding

structure FloatEntry where
  op : Op Float
  res : Result Float

namespace FloatEntry

def credit (id : UInt32) (e : FloatEntry) : ℚ :=
  match e.op, e.res with
  | .deposit _ accNo _ _ amount, .balance _ => if accNo = id then number amount else 0
  | .transfer _ _ _ toAccNo _ amount, .balances _ _ => if toAccNo = id then number amount else 0
  | _, _ => 0

def debit (id : UInt32) (e : FloatEntry) : ℚ :=
  match e.op, e.res with
  | .withdraw _ accNo _ _ amount, .balance _ => if accNo = id then number amount else 0
  | .transfer _ accNo _ _ _ amount, .balances _ _ => if accNo = id then number amount else 0
  | _, _ => 0

def payments (id : UInt32) (e : FloatEntry) : ℕ :=
  match e.op, e.res with
  | .deposit _ accNo _ _ _, .balance _ => if accNo = id then 1 else 0
  | .withdraw _ accNo _ _ _, .balance _ => if accNo = id then 1 else 0
  | .transfer _ accNo _ toAccNo _ _, .balances _ _ => if accNo = id ∨ toAccNo = id then 1 else 0
  | _, _ => 0

end FloatEntry

def runFloats (s : MemoryStore Float) : List (Op Float) → MemoryStore Float × List FloatEntry
  | [] => (s, [])
  | op :: ops =>
    let (s', res) := perform s op
    let (s'', trace) := runFloats s' ops
    (s'', ⟨op, res⟩ :: trace)

/-- The opening balance with all that moved since, give or take half a unit for each payment. -/
def Drifts (k : ℤ) (trace : List FloatEntry) (id : UInt32) (bal : ℚ) : Prop :=
  ∃ past name pw curr balance since,
    trace = past ++ ⟨.openAccount name pw curr balance, .opened id⟩ :: since ∧
    (∀ e ∈ since, e.res ≠ .opened id) ∧
    |bal - (number balance + (since.map (FloatEntry.credit id)).sum -
      (since.map (FloatEntry.debit id)).sum)| ≤
        (since.map (FloatEntry.payments id)).sum * (2 ^ k / 2)

theorem Drifts.open (k : ℤ) (trace : List FloatEntry) (name : Bytes) (pw : Vector UInt8 8)
    (curr : UInt8) (balance : Float) (id : UInt32) :
    Drifts k (trace ++ [⟨.openAccount name pw curr balance, .opened id⟩]) id (number balance) :=
  ⟨trace, name, pw, curr, balance, [], rfl, by simp, by simp⟩

theorem Drifts.snoc {k : ℤ} {trace : List FloatEntry} {id : UInt32} {bal bal' : ℚ} {e : FloatEntry}
    (h : Drifts k trace id bal) (he : e.res ≠ .opened id)
    (hbal : |bal' - (bal + e.credit id - e.debit id)| ≤ e.payments id * (2 ^ k / 2)) :
    Drifts k (trace ++ [e]) id bal' := by
  obtain ⟨past, name, pw, curr, balance, since, rfl, hsince, hdrift⟩ := h
  refine ⟨past, name, pw, curr, balance, since ++ [e], by simp, ?_, ?_⟩
  · intro e' he'
    rcases List.mem_append.mp he' with h | h
    · exact hsince e' h
    · rw [List.mem_singleton.mp h]
      exact he
  · simp only [List.map_append, List.sum_append, List.map_cons, List.map_nil, List.sum_cons,
      List.sum_nil, add_zero, Nat.cast_add, add_mul]
    refine le_trans (le_of_eq_of_le (congrArg _ ?_) (abs_add_le _ _)) (add_le_add hdrift hbal)
    ring

/-- What holds of the floats after the calls of a trace, when no more than `paid` was brought in. -/
structure Drifting (k : ℤ) (paid : ℚ) (trace : List FloatEntry) (s : MemoryStore Float) : Prop where
  finite : Balances Finite s.accounts
  wealth_le : wealth held s.accounts ≤ paid + trace.length * 2 ^ k
  ledger : ∀ id acc, s.accounts.get id = some acc → Drifts k trace id (held acc)

def Moved (k : ℤ) (s s' : MemoryStore Float) (e : FloatEntry) : Prop :=
  ∀ id acc', s'.accounts.get id = some acc' →
    (∃ name pw curr balance, e = ⟨.openAccount name pw curr balance, .opened id⟩ ∧
      held acc' = number balance) ∨
    ∃ acc, s.accounts.get id = some acc ∧ e.res ≠ .opened id ∧
      |held acc' - (held acc + e.credit id - e.debit id)| ≤ e.payments id * (2 ^ k / 2)

theorem Moved.ledger {k : ℤ} {trace : List FloatEntry} {s s' : MemoryStore Float} {e : FloatEntry}
    (hmoved : Moved k s s' e)
    (h : ∀ id acc, s.accounts.get id = some acc → Drifts k trace id (held acc)) :
    ∀ id acc, s'.accounts.get id = some acc → Drifts k (trace ++ [e]) id (held acc) := by
  intro id acc' hget
  rcases hmoved id acc' hget with ⟨name, pw, curr, balance, rfl, hheld⟩ | ⟨acc, hold, hres, hbal⟩
  · rw [hheld]
    exact .open k trace name pw curr balance id
  · exact (h id acc hold).snoc hres hbal

section Step
variable {k : ℤ} {paid : ℚ} {trace : List FloatEntry} {s s' : MemoryStore Float}

theorem unmoved {op : Op Float} {res : Result Float} {id : UInt32} {acc : Account Float}
    (hget : s.accounts.get id = some acc) (hres : res ≠ .opened id)
    (hcredit : FloatEntry.credit id ⟨op, res⟩ = 0) (hdebit : FloatEntry.debit id ⟨op, res⟩ = 0) :
    ∃ acc', s.accounts.get id = some acc' ∧ res ≠ .opened id ∧
      |held acc - (held acc' + FloatEntry.credit id ⟨op, res⟩ - FloatEntry.debit id ⟨op, res⟩)| ≤
        FloatEntry.payments id ⟨op, res⟩ * (2 ^ k / 2) := by
  refine ⟨acc, hget, hres, ?_⟩
  rw [hcredit, hdebit, add_zero, sub_zero, sub_self, abs_zero]
  positivity

theorem length_snoc_units (trace : List FloatEntry) (e : FloatEntry) :
    ((trace ++ [e]).length : ℚ) * 2 ^ k = trace.length * 2 ^ k + 2 ^ k := by
  rw [List.length_append, List.length_singleton, Nat.cast_add, Nat.cast_one, add_mul, one_mul]

variable (hleast : -1074 ≤ k) (htop : 53 + k < 1024)
include hleast htop

theorem deposit_drifting (h : Drifting k paid trace s) {name : Bytes} {accNo : UInt32}
    {pw : Vector UInt8 8} {curr : UInt8} {amount : Float} {acc : Account Float}
    (hamount : Finite amount) (hroom : paid + |number amount| + trace.length * 2 ^ k ≤ 2 ^ (53 + k))
    (hget : s.accounts.get accNo = some acc)
    (haccounts : s'.accounts = s.accounts.set accNo { acc with balance := acc.balance + amount }) :
    Drifting k (paid + |number amount|)
      (trace ++ [⟨.deposit name accNo pw curr amount, .balance (acc.balance + amount)⟩]) s' := by
  have hwealth := h.wealth_le
  have hbal : |held acc| ≤ wealth held s.accounts := balance_le_wealth held hget
  have hunit : (0 : ℚ) < 2 ^ k := zpow_pos two_pos k
  have hsum := abs_add_le (held acc) (number amount)
  obtain ⟨hfinite, hnear, hnew⟩ := near_add hleast htop (h.finite _ _ hget) hamount (by
    change |held acc + number amount| ≤ _
    linarith)
  have hset := wealth_set_of_some held { acc with balance := acc.balance + amount } hget
  change _ ≤ |held acc + number amount| + _ at hnew
  refine ⟨?_, ?_, Moved.ledger (fun id acc' hget' => .inr ?_) h.ledger⟩
  · rw [haccounts]
    exact h.finite.set _ hfinite
  · rw [haccounts, length_snoc_units]
    change |held acc| + wealth held _ = |number (acc.balance + amount)| + _ at hset
    linarith
  · rw [haccounts, FiniteMap.get_set] at hget'
    split_ifs at hget' with hid
    · cases Option.some.inj hget'
      subst hid
      refine ⟨acc, hget, by simp, ?_⟩
      simpa [FloatEntry.credit, FloatEntry.debit, FloatEntry.payments, held] using hnear
    · have hother : ¬ accNo = id := fun heq => hid heq.symm
      exact unmoved hget' (by simp) (by simp [FloatEntry.credit, hother])
        (by simp [FloatEntry.debit])

theorem withdraw_drifting (h : Drifting k paid trace s) {name : Bytes} {accNo : UInt32}
    {pw : Vector UInt8 8} {curr : UInt8} {amount : Float} {acc : Account Float}
    (hamount : Finite amount) (hroom : paid + trace.length * 2 ^ k ≤ 2 ^ (53 + k))
    (hpos : ¬ amount ≤ 0) (hfunds : ¬ acc.balance < amount)
    (hget : s.accounts.get accNo = some acc)
    (haccounts : s'.accounts = s.accounts.set accNo { acc with balance := acc.balance - amount }) :
    Drifting k paid
      (trace ++ [⟨.withdraw name accNo pw curr amount, .balance (acc.balance - amount)⟩]) s' := by
  have hwealth := h.wealth_le
  have hbal : |held acc| ≤ wealth held s.accounts := balance_le_wealth held hget
  have hunit : (0 : ℚ) < 2 ^ k := zpow_pos two_pos k
  have hcover := number_le (h.finite _ _ hget) hamount hfunds
  change number amount ≤ held acc at hcover
  have hless : |held acc - number amount| ≤ |held acc| := by
    rw [abs_of_nonneg (sub_nonneg.mpr hcover)]
    linarith [le_abs_self (held acc), number_pos hamount hpos]
  obtain ⟨hfinite, hnear, hnew⟩ := near_sub hleast htop (h.finite _ _ hget) hamount (by
    change |held acc - number amount| ≤ _
    linarith)
  have hset := wealth_set_of_some held { acc with balance := acc.balance - amount } hget
  change _ ≤ |held acc - number amount| + _ at hnew
  refine ⟨?_, ?_, Moved.ledger (fun id acc' hget' => .inr ?_) h.ledger⟩
  · rw [haccounts]
    exact h.finite.set _ hfinite
  · rw [haccounts, length_snoc_units]
    change |held acc| + wealth held _ = |number (acc.balance - amount)| + _ at hset
    linarith
  · rw [haccounts, FiniteMap.get_set] at hget'
    split_ifs at hget' with hid
    · cases Option.some.inj hget'
      subst hid
      refine ⟨acc, hget, by simp, ?_⟩
      simpa [FloatEntry.credit, FloatEntry.debit, FloatEntry.payments, held] using hnear
    · have hother : ¬ accNo = id := fun heq => hid heq.symm
      exact unmoved hget' (by simp) (by simp [FloatEntry.credit])
        (by simp [FloatEntry.debit, hother])

theorem transfer_drifting (h : Drifting k paid trace s) {name : Bytes} {accNo toAccNo : UInt32}
    {pw : Vector UInt8 8} {curr : UInt8} {amount : Float} {acc toAcc : Account Float}
    (hamount : Finite amount) (hroom : paid + trace.length * 2 ^ k ≤ 2 ^ (53 + k))
    (hpos : ¬ amount ≤ 0) (hfunds : ¬ acc.balance < amount) (hne : accNo ≠ toAccNo)
    (hget : s.accounts.get accNo = some acc) (hto : s.accounts.get toAccNo = some toAcc)
    (haccounts : s'.accounts =
      (s.accounts.set accNo { acc with balance := acc.balance - amount }).set toAccNo
        { toAcc with balance := toAcc.balance + amount }) :
    Drifting k paid (trace ++ [⟨.transfer name accNo pw toAccNo curr amount,
      .balances (acc.balance - amount) (toAcc.balance + amount)⟩]) s' := by
  have hwealth := h.wealth_le
  have hbal : |held acc| ≤ wealth held s.accounts := balance_le_wealth held hget
  have hunit : (0 : ℚ) < 2 ^ k := zpow_pos two_pos k
  have hqpos := number_pos hamount hpos
  have hcover := number_le (h.finite _ _ hget) hamount hfunds
  change number amount ≤ held acc at hcover
  have hless : |held acc - number amount| = |held acc| - number amount := by
    rw [abs_of_nonneg (sub_nonneg.mpr hcover), abs_of_pos (hqpos.trans_le hcover)]
  -- The payee's balance and the payer's are different shares of what the bank holds.
  have hboth : |held acc| + |held toAcc| ≤ wealth held s.accounts := by
    have hdelete := wealth_delete held hget
    have hkept : (s.accounts.delete accNo).get toAccNo = some toAcc := by
      rw [FiniteMap.get_delete, if_neg (Ne.symm hne), hto]
    have hshare := balance_le_wealth held hkept
    linarith
  have hsum := abs_add_le (held toAcc) (number amount)
  rw [abs_of_pos hqpos] at hsum
  obtain ⟨hfinite, hnear, hnew⟩ := near_sub hleast htop (h.finite _ _ hget) hamount (by
    change |held acc - number amount| ≤ _
    linarith)
  obtain ⟨hfiniteTo, hnearTo, hnewTo⟩ := near_add hleast htop (h.finite _ _ hto) hamount (by
    change |held toAcc + number amount| ≤ _
    linarith [le_abs_self (held acc)])
  change _ ≤ |held acc - number amount| + _ at hnew
  change _ ≤ |held toAcc + number amount| + _ at hnewTo
  have hset := wealth_set_of_some held { acc with balance := acc.balance - amount } hget
  have hgetTo : (s.accounts.set accNo { acc with balance := acc.balance - amount }).get toAccNo =
      some toAcc := by
    rw [FiniteMap.get_set_of_ne _ _ (Ne.symm hne), hto]
  have hsetTo := wealth_set_of_some held { toAcc with balance := toAcc.balance + amount } hgetTo
  refine ⟨?_, ?_, Moved.ledger (fun id acc' hget' => .inr ?_) h.ledger⟩
  · have hpayer : Balances Finite
        (s.accounts.set accNo { acc with balance := acc.balance - amount }) :=
      h.finite.set _ hfinite
    rw [haccounts]
    exact hpayer.set _ hfiniteTo
  · rw [haccounts, length_snoc_units]
    change |held acc| + wealth held _ = |number (acc.balance - amount)| + _ at hset
    change |held toAcc| + wealth held _ = |number (toAcc.balance + amount)| + _ at hsetTo
    linarith
  · rw [haccounts, FiniteMap.get_set, FiniteMap.get_set] at hget'
    split_ifs at hget' with hidTo hid
    · cases Option.some.inj hget'
      subst hidTo
      refine ⟨toAcc, hto, by simp, ?_⟩
      simpa [FloatEntry.credit, FloatEntry.debit, FloatEntry.payments, held, hne] using hnearTo
    · cases Option.some.inj hget'
      subst hid
      refine ⟨acc, hget, by simp, ?_⟩
      simpa [FloatEntry.credit, FloatEntry.debit, FloatEntry.payments, held, Ne.symm hne]
        using hnear
    · have hother : ¬ accNo = id := fun heq => hid heq.symm
      have hotherTo : ¬ toAccNo = id := fun heq => hidTo heq.symm
      exact unmoved hget' (by simp) (by simp [FloatEntry.credit, hotherTo])
        (by simp [FloatEntry.debit, hother])

theorem perform_drifting (h : Drifting k paid trace s) {op : Op Float}
    (hop : ∀ x, op.amount = some x → Finite x)
    (hroom : paid + (op.map number).paidIn + trace.length * 2 ^ k ≤ 2 ^ (53 + k)) :
    Drifting k (paid + (op.map number).paidIn) (trace ++ [⟨op, (perform s op).2⟩])
      (perform s op).1 := by
  have hunit : (0 : ℚ) < 2 ^ k := zpow_pos two_pos k
  have hwealth := h.wealth_le
  have heff := perform_effect s op
  generalize (perform s op).1 = s' at heff ⊢
  generalize (perform s op).2 = res at heff ⊢
  cases heff with
  | @opened name pw curr balance s' haccounts hnext =>
    refine ⟨?_, ?_, Moved.ledger (fun id acc' hget => ?_) h.ledger⟩
    · rw [haccounts]
      exact h.finite.set _ (hop _ rfl)
    · have hset : wealth held (s.accounts.set s.nextID ⟨s.nextID, name, pw, curr, balance⟩) ≤
          |number balance| + wealth held s.accounts := wealth_set_le _ _
      rw [haccounts, length_snoc_units, Op.map, Op.paidIn]
      linarith
    · rw [haccounts, FiniteMap.get_set] at hget
      split_ifs at hget with hid
      · cases Option.some.inj hget
        subst hid
        exact .inl ⟨name, pw, curr, balance, rfl, rfl⟩
      · refine .inr (unmoved hget (fun hres => hid ?_) rfl rfl)
        exact (Result.opened.inj hres).symm
  | @closed name accNo pw acc s' hauth haccounts hnext =>
    refine ⟨?_, ?_, Moved.ledger (fun id acc' hget => ?_) h.ledger⟩
    · rw [haccounts]
      exact h.finite.delete _
    · have hdelete := wealth_delete held hauth.stored
      have hnonneg := abs_nonneg (held acc)
      rw [haccounts, length_snoc_units, Op.map, Op.paidIn]
      linarith
    · rw [haccounts, FiniteMap.get_delete] at hget
      split_ifs at hget
      exact .inr (unmoved hget (by simp) rfl rfl)
  | checked hauth =>
    refine ⟨h.finite, ?_, Moved.ledger (fun id acc' hget => ?_) h.ledger⟩
    · rw [length_snoc_units, Op.map, Op.paidIn]
      linarith
    · exact .inr (unmoved hget (by simp) rfl rfl)
  | deposited hpos hauth hcurr haccounts hnext =>
    exact deposit_drifting hleast htop h (hop _ rfl) hroom hauth.stored haccounts
  | withdrawn hpos hauth hcurr hfunds haccounts hnext =>
    rw [Op.map, Op.paidIn, add_zero] at hroom ⊢
    exact withdraw_drifting hleast htop h (hop _ rfl) hroom hpos hfunds hauth.stored haccounts
  | transferred hpos hne hauth hto hcurr hsame hfunds haccounts hnext =>
    rw [Op.map, Op.paidIn, add_zero] at hroom ⊢
    exact transfer_drifting hleast htop h (hop _ rfl) hroom hpos hfunds hne hauth.stored hto
      haccounts
  | @refused op err =>
    refine ⟨h.finite, ?_, Moved.ledger (fun id acc' hget => ?_) h.ledger⟩
    · have hnonneg := (op.map number).paidIn_nonneg
      rw [length_snoc_units]
      linarith
    · exact .inr (unmoved hget (by simp) (by cases op <;> rfl) (by cases op <;> rfl))

theorem run_drifting (h : Drifting k paid trace s) {ops : List (Op Float)}
    (hops : ∀ op ∈ ops, ∀ x, op.amount = some x → Finite x)
    (hroom : paid + (ops.map fun op => (op.map number).paidIn).sum +
      (trace.length + ops.length) * 2 ^ k ≤ 2 ^ (53 + k)) :
    Drifting k (paid + (ops.map fun op => (op.map number).paidIn).sum)
      (trace ++ (runFloats s ops).2) (runFloats s ops).1 := by
  have hunit : (0 : ℚ) < 2 ^ k := zpow_pos two_pos k
  induction ops generalizing paid trace s with
  | nil => simpa [runFloats] using h
  | cons op ops ih =>
    have hrest : 0 ≤ (ops.map fun op => (op.map number).paidIn).sum :=
      List.sum_nonneg fun x hx => by
        obtain ⟨op', -, rfl⟩ := List.mem_map.mp hx
        exact (op'.map number).paidIn_nonneg
    have hlater : (0 : ℚ) ≤ (ops.length + 1) * 2 ^ k := by positivity
    rw [List.map_cons, List.sum_cons, List.length_cons, Nat.cast_add, Nat.cast_one, ← add_assoc,
      add_mul] at hroom
    have hstep := perform_drifting hleast htop h (hops op List.mem_cons_self) (by linarith)
    have hnext := ih hstep (fun op' hop' => hops op' (List.mem_cons_of_mem op hop')) (by
      rw [add_mul, length_snoc_units]
      linarith)
    rw [runFloats, List.map_cons, List.sum_cons, ← add_assoc]
    rw [List.append_assoc] at hnext
    exact hnext

/-- Rounding takes a balance no further from its ledger than half a unit for each payment, when
what is brought in and one unit for each call fit into the significand. -/
theorem floats_drift {ops : List (Op Float)}
    (hops : ∀ op ∈ ops, ∀ x, op.amount = some x → Finite x)
    (hroom : (ops.map fun op => (op.map number).paidIn).sum + ops.length * 2 ^ k ≤ 2 ^ (53 + k))
    {id : UInt32} {acc : Account Float}
    (hget : (runFloats newMemoryStore ops).1.accounts.get id = some acc) :
    Finite acc.balance ∧ Drifts k (runFloats newMemoryStore ops).2 id (number acc.balance) := by
  have hstart : Drifting k 0 [] newMemoryStore :=
    ⟨balances_empty, by simp [wealth, newMemoryStore], fun id acc hget => by
      simp [newMemoryStore] at hget⟩
  have hend := run_drifting hleast htop hstart hops (by simpa using hroom)
  rw [List.nil_append] at hend
  exact ⟨hend.finite id acc hget, hend.ledger id acc hget⟩

end Step

def tenth : Float := Float64.frombits 0x3FB999999999999A
def fifth : Float := Float64.frombits 0x3FC999999999999A

def tenths : List (Op Float) :=
  [.openAccount [65] (Marshalling.passwordStringToFixed [80]) 1 tenth,
    .deposit [65] 10000 (Marshalling.passwordStringToFixed [80]) 1 fifth]

theorem tenths_drift : ∃ acc, (runFloats newMemoryStore tenths).1.accounts.get 10000 = some acc ∧
    number acc.balance ≠ number tenth + number fifth ∧
    Drifts (-54) (runFloats newMemoryStore tenths).2 10000 (number acc.balance) := by
  have htenth : Finite tenth := ⟨_, (valueOf_frombits _).trans (by rfl)⟩
  have hfifth : Finite fifth := ⟨_, (valueOf_frombits _).trans (by rfl)⟩
  have hops : ∀ op ∈ tenths, ∀ x, op.amount = some x → Finite x := by
    intro op hop x hx
    rcases List.mem_pair.mp hop with rfl | rfl
    · cases hx
      exact htenth
    · cases hx
      exact hfifth
  have hroom : (tenths.map fun op => (op.map number).paidIn).sum + tenths.length * 2 ^ (-54 : ℤ) ≤
      2 ^ (53 + (-54 : ℤ)) := by
    have hsum : (tenths.map fun op => (op.map number).paidIn).sum ≤ 1 / 3 := by decide +kernel
    have hlength : tenths.length = 2 := rfl
    rw [hlength]
    refine (add_le_add_left hsum _).trans ?_
    norm_num
  have hbalance : ((runFloats newMemoryStore tenths).1.accounts.get 10000).map
      (fun acc => decide (number acc.balance ≠ number tenth + number fifth)) = some true := by
    decide +kernel
  obtain ⟨acc, hget, hoff⟩ := Option.map_eq_some_iff.mp hbalance
  obtain ⟨-, hdrifts⟩ := floats_drift (k := -54) (by norm_num) (by norm_num) hops hroom hget
  exact ⟨acc, hget, of_decide_eq_true hoff, hdrifts⟩

end DistributedBanking.Banking
