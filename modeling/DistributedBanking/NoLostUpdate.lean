import DistributedBanking.Ledger
import DistributedBanking.Settlement

/-!
# No lost update

However the steps of concurrent deposits, withdrawals, transfers and balance
checks are interleaved, the accounts end with what the results say, a balance
is never negative while its mutex is free, and a returned balance is the one
that the call left at its unlock.
-/

namespace DistributedBanking.Concurrent
open Store Banking Threads

def movesMoney {M : Type} : Op M → Bool
  | .openAccount _ _ _ _ => false
  | .closeAccount _ _ _ => false
  | _ => true

theorem movesMoney_opens {M : Type} {op : Op M} (h : movesMoney op = true) : op.isOpen = false := by
  cases op <;> simp_all [movesMoney, Op.isOpen]

theorem movesMoney_closes {M : Type} {op : Op M} (h : movesMoney op = true) :
    closes op = false := by
  cases op <;> simp_all [movesMoney, closes]

def balanceOf (s : Memory ℚ) (acc : Ref) : ℚ := (s.objects acc).balance

def Reported (s₀ : Memory ℚ) (op : Op ℚ) (res : Result ℚ) (released : Ref → List ℚ) : Prop :=
  match op, res with
  | .deposit _ accNo _ _ _, .balance b => ∃ acc, s₀.accounts.get accNo = some acc ∧
      released acc = [b]
  | .withdraw _ accNo _ _ _, .balance b => ∃ acc, s₀.accounts.get accNo = some acc ∧
      released acc = [b]
  | .checkBalance _ accNo _, .balance b => ∃ acc, s₀.accounts.get accNo = some acc ∧
      released acc = [b]
  | .transfer _ fromAccNo _ toAccNo _ _, .balances f t => ∃ fromAcc toAcc,
      s₀.accounts.get fromAccNo = some fromAcc ∧ s₀.accounts.get toAccNo = some toAcc ∧
      released fromAcc = [f] ∧ released toAcc = [t]
  | _, .failed _ => True
  | _, _ => False

variable {ι : Type} {s₀ : Memory ℚ} {calls : ι → Op ℚ} {op : Op ℚ} {res : Result ℚ}
  {g : Share Ref Cell}

theorem Settled.reported (h : Settled s₀ g op res) (hop : movesMoney op = true) :
    Reported s₀ op res fun acc => (g.released acc).map Prod.fst := by
  cases h with
  | deposited hacc hleaves => exact ⟨_, hacc, by simp [hleaves.released]⟩
  | withdrawn hacc hleaves => exact ⟨_, hacc, by simp [hleaves.released]⟩
  | checked hacc hleaves => exact ⟨_, hacc, by simp [hleaves.released]⟩
  | closed hacc hleaves => simp [movesMoney] at hop
  | transferred hpos hfrom hto hne hleaves =>
    exact ⟨_, _, hfrom, hto, by simp [hleaves.releasedFrom], by simp [hleaves.releasedTo]⟩
  | refused hsame => cases op <;> trivial
  | detached hop' hleaves => cases op <;> trivial

def entry (s₀ : Memory ℚ) (op : Op ℚ) (res : Result ℚ) : Entry := ⟨s₀.view, op, res⟩

theorem update_apply {β : Type} {id accNo : UInt32} {acc acc' : Ref}
    (hacc' : s₀.accounts.get accNo = some acc') (hacc : s₀.accounts.get id = some acc)
    (f : Ref → β) (x : β) :
    Function.update f acc' x acc = if accNo = id then x else f acc := by
  split_ifs with h
  · subst h
    rw [hacc'] at hacc
    cases hacc
    exact Function.update_self ..
  · exact Function.update_of_ne (Memory.ref_ne hacc hacc' (Ne.symm h)) _ _

theorem Settled.gain_eq (h : Settled s₀ g op res) (hop : movesMoney op = true) {id : UInt32}
    {acc : Ref} (hacc : s₀.accounts.get id = some acc) :
    gain funds (g.changes acc) = (entry s₀ op res).credit id - (entry s₀ op res).debit id := by
  cases h with
  | deposited hacc' hleaves =>
    rw [hleaves.changes, update_apply hacc' hacc]
    split_ifs with hid <;> simp [entry, Entry.credit, Entry.debit, gain_change, funds, hid]
  | withdrawn hacc' hleaves =>
    rw [hleaves.changes, update_apply hacc' hacc]
    split_ifs with hid <;> simp [entry, Entry.credit, Entry.debit, gain_change, funds, hid]
  | checked hacc' hleaves =>
    simp [hleaves.unchanged, entry, Entry.credit, Entry.debit]
  | closed hacc' hleaves => simp [movesMoney] at hop
  | @transferred _ fromAccNo toAccNo _ _ _ _ _ _ _ hpos hfrom hto hne hleaves =>
    have hids : toAccNo = id → fromAccNo ≠ id := by
      intro hid hid'
      subst hid
      subst hid'
      rw [hfrom] at hto
      exact hne (Option.some.inj hto)
    rw [hleaves.changes, update_apply hto hacc, update_apply hfrom hacc]
    by_cases hid : toAccNo = id
    · simp [entry, Entry.credit, Entry.debit, gain_change, funds, hid, hids hid]
    · by_cases hid' : fromAccNo = id <;>
        simp [entry, Entry.credit, Entry.debit, gain_change, funds, hid, hid']
  | refused hsame =>
    rw [hsame]
    cases op <;> simp [entry, Entry.credit, Entry.debit]
  | @detached _ _ _ acc' hop' hleaves =>
    have hzero : gain funds (g.changes acc) = 0 := by
      rw [hleaves.changes]
      by_cases hacc' : acc = acc' <;> simp [hacc', funds]
    rw [hzero]
    cases op <;> simp [entry, Entry.credit, Entry.debit]

variable [DecidableEq ι] {sched : List ι} {c : Config ι Lock (Memory ℚ) (Result ℚ)}

/-- For any number of calls and any interleaving: the entries stay, a balance is never negative
while its mutex is free, the results report the balances of the critical sections, and when all
calls have finished each account has gained what the successful ones say. -/
theorem no_lost_update [Fintype ι] (hcalls : ∀ i, movesMoney (calls i) = true)
    (hrun : sched.foldlM step (start s₀ calls) = .ok c) :
    (∀ id acc, s₀.accounts.get id = some acc → c.mem.accounts.get id = some acc ∧
      (0 ≤ balanceOf s₀ acc → c.locks.writer (.account acc) = none → 0 ≤ balanceOf c.mem acc)) ∧
    (∀ i res, c.threads i = .done res → Reported s₀ (calls i) res
      (atRelease .account balanceOf i (start s₀ calls) sched)) ∧
    ∀ results : ι → Result ℚ, (∀ i, c.threads i = .done (results i)) →
      ∀ id acc, s₀.accounts.get id = some acc →
        balanceOf c.mem acc = balanceOf s₀ acc +
          ∑ i, (entry s₀ (calls i) (results i)).credit id -
          ∑ i, (entry s₀ (calls i) (results i)).debit id := by
  have hkeep : ∀ i, closes (calls i) = false := fun i => movesMoney_closes (hcalls i)
  have hres := settled_run (fun i => movesMoney_opens (hcalls i)) hrun (.inl hkeep)
  have hsame : c.mem.accounts = s₀.accounts := hres.inv.same hkeep
  refine ⟨fun id acc hacc => ⟨by rw [hsame, hacc], fun hpos hfree => hres.free acc hfree hpos⟩,
    fun i res hdone => ?_, fun results hdone id acc hacc => ?_⟩
  · have hreport := (hres.finished hdone).reported (hcalls i)
    have hmap : (fun acc => (atRelease .account contents i (start s₀ calls) sched acc).map
        Prod.fst) = atRelease .account balanceOf i (start s₀ calls) sched :=
      funext fun acc => (atRelease_map Prod.fst Lock.account contents i acc).symm
    rw [← hmap]
    exact hreport
  · have hkey := s₀.keyed id acc hacc
    have hstored : Stored s₀ acc := by rwa [Stored, hkey]
    have hstored' : Stored c.mem acc := by rw [Stored, hsame, hkey, hacc]
    have hgain : ∀ i, gain funds (changes contents i (start s₀ calls) sched acc) =
        (entry s₀ (calls i) (results i)).credit id - (entry s₀ (calls i) (results i)).debit id :=
      fun i => (hres.finished (hdone i)).gain_eq (hcalls i) hacc
    have hworth := worth_eq funds contents hrun acc
    rw [funds_of_stored hstored', Finset.sum_congr rfl fun i _ => hgain i,
      Finset.sum_sub_distrib, ← add_sub_assoc] at hworth
    exact hworth.trans (by rw [funds_of_stored (s := (start s₀ calls).mem) hstored]; rfl)

def threeCalls : Fin 3 → Op ℚ
  | 0 => .deposit [65] 10000 (.replicate 8 0) 1 20
  | 1 => .withdraw [65] 10000 (.replicate 8 0) 1 30
  | 2 => .transfer [65] 10000 (.replicate 8 0) 10001 1 50

def threeResults : Fin 3 → Result ℚ
  | 0 => .balance 120
  | 1 => .balance 90
  | 2 => .balances 40 100

/-- All three have looked the account up before the first of them locks it. -/
def threeSchedule : List (Fin 3) :=
  .replicate 4 0 ++ .replicate 4 1 ++ .replicate 9 2 ++ .replicate 11 0 ++ .replicate 12 1 ++
    .replicate 23 2

theorem threeCalls_balance :
    ∃ c, threeSchedule.foldlM step (start twoAccounts threeCalls) = .ok c ∧
      balanceOf c.mem ⟨10000, 0⟩ = balanceOf twoAccounts ⟨10000, 0⟩ +
        ∑ i, (entry twoAccounts (threeCalls i) (threeResults i)).credit 10000 -
        ∑ i, (entry twoAccounts (threeCalls i) (threeResults i)).debit 10000 := by
  obtain ⟨c, hrun, hdone⟩ := Runs.exists_of_check
    (x := threeSchedule.foldlM step (start twoAccounts threeCalls))
    (p := fun c => decide (∀ i, (c.threads i).result = some (threeResults i)))
    (by decide +kernel)
  have hresults := of_decide_eq_true hdone
  exact ⟨c, hrun, (no_lost_update (fun i => by decide +revert) hrun).2.2 threeResults
    (fun i => Prog.result_eq_some.mp (hresults i)) 10000 ⟨10000, 0⟩ (by decide +kernel)⟩

end DistributedBanking.Concurrent
