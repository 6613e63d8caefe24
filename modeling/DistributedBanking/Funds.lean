import DistributedBanking.FloatReading

/-!
# What the bank holds

On exact rationals the balances together, each without its sign, do not exceed
what was brought in by openings and deposits; withdrawals and transfers need
cover, so they add nothing. Amounts in whole units leave balances in whole
units.
-/

namespace DistributedBanking.Banking
open Store Server Doubles

section Wealth
variable {M : Type} {f : Account M → ℚ} {accounts : FiniteMap UInt32 (Account M)} {k : UInt32}
  {acc : Account M}

def wealth (f : Account M → ℚ) (accounts : FiniteMap UInt32 (Account M)) : ℚ :=
  accounts.total fun _ acc => |f acc|

theorem wealth_nonneg (f : Account M → ℚ) (accounts : FiniteMap UInt32 (Account M)) :
    0 ≤ wealth f accounts := by
  refine Multiset.sum_nonneg fun x hx => ?_
  obtain ⟨e, -, rfl⟩ := Multiset.mem_map.mp hx
  exact abs_nonneg _

theorem wealth_set_of_some (f : Account M → ℚ) (acc' : Account M)
    (h : accounts.get k = some acc) :
    |f acc| + wealth f (accounts.set k acc') = |f acc'| + wealth f accounts :=
  FiniteMap.total_set_of_some (fun _ a => |f a|) acc' h

theorem wealth_delete (f : Account M → ℚ) (h : accounts.get k = some acc) :
    |f acc| + wealth f (accounts.delete k) = wealth f accounts :=
  FiniteMap.total_delete_of_some (fun _ a => |f a|) h

theorem balance_le_wealth (f : Account M → ℚ) (h : accounts.get k = some acc) :
    |f acc| ≤ wealth f accounts := by
  have hdelete := wealth_delete f h
  have hnonneg := wealth_nonneg f (accounts.delete k)
  linarith

theorem wealth_set_le (f : Account M → ℚ) (acc' : Account M) :
    wealth f (accounts.set k acc') ≤ |f acc'| + wealth f accounts := by
  rcases hget : accounts.get k with _ | acc
  · exact (FiniteMap.total_set_of_none _ acc' hget).le
  · have hset := wealth_set_of_some f acc' hget
    have hnonneg := abs_nonneg (f acc)
    linarith

end Wealth

/-- What a call can bring into the bank. -/
def Op.paidIn : Op ℚ → ℚ
  | .openAccount _ _ _ balance => |balance|
  | .closeAccount _ _ _ => 0
  | .checkBalance _ _ _ => 0
  | .deposit _ _ _ _ amount => |amount|
  | .withdraw _ _ _ _ _ => 0
  | .transfer _ _ _ _ _ _ => 0

theorem Op.paidIn_nonneg (op : Op ℚ) : 0 ≤ op.paidIn := by
  cases op <;> simp [Op.paidIn]

structure Funded (k : ℤ) (paid : ℚ) (s : MemoryStore ℚ) : Prop where
  whole : Balances (Whole k) s.accounts
  wealth_le : wealth Account.balance s.accounts ≤ paid

theorem perform_funded {k : ℤ} {paid : ℚ} {s : MemoryStore ℚ} (h : Funded k paid s) {op : Op ℚ}
    (hop : ∀ a, op.amount = some a → Whole k a) :
    Funded k (paid + op.paidIn) (perform s op).1 := by
  have heff := perform_effect s op
  generalize (perform s op).1 = s' at heff ⊢
  generalize (perform s op).2 = res at heff
  obtain ⟨hwhole, htotal⟩ := h
  cases heff with
  | @opened name pw curr balance s' haccounts hnext =>
    have hset : wealth Account.balance
        (s.accounts.set s.nextID ⟨s.nextID, name, pw, curr, balance⟩) ≤
          |balance| + wealth Account.balance s.accounts := wealth_set_le _ _
    constructor
    · rw [haccounts]
      exact hwhole.set _ (hop _ rfl)
    · rw [haccounts, Op.paidIn]
      linarith
  | @closed name accNo pw acc s' hauth haccounts hnext =>
    have hdelete := wealth_delete Account.balance hauth.stored
    have hnonneg := abs_nonneg acc.balance
    constructor
    · rw [haccounts]
      exact hwhole.delete _
    · rw [haccounts, Op.paidIn]
      linarith
  | checked => exact ⟨hwhole, by rw [Op.paidIn]; linarith⟩
  | @deposited name accNo pw curr amount acc s' hpos hauth hcurr haccounts hnext =>
    have hset := wealth_set_of_some Account.balance { acc with balance := acc.balance + amount }
      hauth.stored
    have habs := abs_add_le acc.balance amount
    constructor
    · rw [haccounts]
      exact hwhole.set _ ((hwhole _ _ hauth.stored).add (hop _ rfl))
    · rw [haccounts, Op.paidIn]
      linarith
  | @withdrawn name accNo pw curr amount acc s' hpos hauth hcurr hfunds haccounts hnext =>
    have hset := wealth_set_of_some Account.balance { acc with balance := acc.balance - amount }
      hauth.stored
    have hless : |acc.balance - amount| ≤ |acc.balance| := by
      rw [abs_of_nonneg (sub_nonneg.mpr (not_lt.mp hfunds))]
      linarith [le_abs_self acc.balance, not_le.mp hpos]
    constructor
    · rw [haccounts]
      exact hwhole.set _ ((hwhole _ _ hauth.stored).sub (hop _ rfl))
    · rw [haccounts, Op.paidIn]
      linarith
  | @transferred name accNo pw toAccNo curr amount acc toAcc s' hpos hne hauth hto hcurr hsame
      hfunds haccounts hnext =>
    have hpaid := wealth_set_of_some Account.balance { acc with balance := acc.balance - amount }
      hauth.stored
    have hget : (s.accounts.set accNo { acc with balance := acc.balance - amount }).get toAccNo =
        some toAcc := by
      rw [FiniteMap.get_set_of_ne _ _ (Ne.symm hne), hto]
    have hset := wealth_set_of_some Account.balance
      { toAcc with balance := toAcc.balance + amount } hget
    have hless : |acc.balance - amount| = acc.balance - amount :=
      abs_of_nonneg (sub_nonneg.mpr (not_lt.mp hfunds))
    have habs := abs_add_le toAcc.balance amount
    have hamount : |amount| = amount := abs_of_pos (not_le.mp hpos)
    have hwholeAmount := hop _ rfl
    constructor
    · rw [haccounts]
      exact (hwhole.set _ ((hwhole _ _ hauth.stored).sub hwholeAmount)).set _
        ((hwhole _ _ hto).add hwholeAmount)
    · rw [haccounts, Op.paidIn]
      linarith [le_abs_self acc.balance]
  | refused => exact ⟨hwhole, by linarith [op.paidIn_nonneg]⟩

end DistributedBanking.Banking
