import DistributedBanking.Ledger
import DistributedBanking.Settlement

/-!
# Transfers against closings

A transfer that has both of its accounts in the store when it has their mutexes
is all or nothing, and no money is lost but what the closings take out. The
mutexes do not keep an account in the store between a transfer's lookups and its
locks, and the transfer drops the errors that would tell: a closing in between
makes it move money to or from an object that the store has lost.
-/

namespace DistributedBanking.Concurrent
open Store Banking Threads

/-- What a finished transfer has done: on success the two balances have changed by the amount, each
in one change and of an account in the store, and nothing else; on failure, nothing. -/
def AllOrNothing (s₀ : Memory ℚ) (op : Op ℚ) (res : Result ℚ)
    (changes : Ref → List (Cell × Cell)) : Prop :=
  match op, res with
  | .transfer _ fromAccNo _ toAccNo _ amount, .balances f t => ∃ fromAcc toAcc,
      s₀.accounts.get fromAccNo = some fromAcc ∧ s₀.accounts.get toAccNo = some toAcc ∧
      changes fromAcc = [((f + amount, true), (f, true))] ∧
      changes toAcc = [((t - amount, true), (t, true))] ∧
      ∀ acc, acc ≠ fromAcc → acc ≠ toAcc → changes acc = []
  | .transfer _ _ _ _ _ _, .failed _ => ∀ acc, changes acc = []
  | .transfer _ _ _ _ _ _, _ => False
  | _, _ => True

def removed (log : List (Cell × Cell)) : ℚ :=
  (log.map fun t => if t.1.2 ∧ ¬ t.2.2 then t.1.1 else 0).sum

@[simp] theorem removed_nil : removed [] = 0 := rfl

@[simp] theorem removed_change (v w : Cell) :
    removed (change v w) = if v.2 ∧ ¬ w.2 then v.1 else 0 := by
  rw [change]
  split_ifs with heq hgone
  · simp [heq] at hgone
  · rfl
  · simp_all [removed]
  · simp_all [removed]

/-- The money that a call has taken out of the store with the accounts it deleted. -/
def takenOut (s₀ : Memory ℚ) (changes : Ref → List (Cell × Cell)) : ℚ :=
  s₀.accounts.total fun _ acc => removed (changes acc)

variable {ι : Type} {s₀ s : Memory ℚ} {calls : ι → Op ℚ} {op : Op ℚ} {res : Result ℚ}
  {g : Share Ref Cell}

theorem Settled.allOrNothing (h : Settled s₀ g op res) : AllOrNothing s₀ op res g.changes := by
  cases h with
  | deposited hacc hleaves => trivial
  | withdrawn hacc hleaves => trivial
  | checked hacc hleaves => trivial
  | closed hacc hleaves => trivial
  | @transferred _ _ _ _ _ amount b d fromAcc toAcc hpos hfrom hto hne hleaves =>
    have hchange : ∀ x y : ℚ, y ≠ x → change (x, true) (y, true) = [((x, true), (y, true))] :=
      fun x y hxy => if_neg (by simp [hxy])
    refine ⟨fromAcc, toAcc, hfrom, hto, ?_, ?_, fun acc hacc hacc' => ?_⟩
    · rw [hleaves.changes, Function.update_of_ne hne, Function.update_self,
        hchange b (b - amount) (by linarith), sub_add_cancel]
    · rw [hleaves.changes, Function.update_self, hchange d (d + amount) (by linarith),
        add_sub_cancel_right]
    · rw [hleaves.changes, Function.update_of_ne hacc', Function.update_of_ne hacc]
  | refused hsame => cases op <;> simp [AllOrNothing, hsame]
  | detached hop hleaves => cases op <;> simp_all [AllOrNothing, transfers]

theorem total_single {id : UInt32} {acc : Ref} (hacc : s₀.accounts.get id = some acc) (x : ℚ) :
    (s₀.accounts.total fun _ acc' => if acc' = acc then x else 0) = x := by
  rw [FiniteMap.total_eq_single hacc, if_pos rfl]
  intro id' acc' hacc' hne
  exact if_neg (Memory.ref_ne hacc' hacc hne)

theorem total_pair {id id' : UInt32} {fromAcc toAcc : Ref}
    (hfrom : s₀.accounts.get id = some fromAcc) (hto : s₀.accounts.get id' = some toAcc) (x : ℚ) :
    (s₀.accounts.total fun _ acc =>
      (if acc = fromAcc then -x else 0) + if acc = toAcc then x else 0) = 0 := by
  rw [FiniteMap.total_add, total_single hfrom, total_single hto, neg_add_cancel]

theorem Settled.conserves (h : Settled s₀ g op res) (hop : transfers op = true ∨ closes op = true) :
    (s₀.accounts.total fun _ acc => gain funds (g.changes acc)) + takenOut s₀ g.changes = 0 := by
  have hzero : (∀ acc, gain funds (g.changes acc) + removed (g.changes acc) = 0) →
      (s₀.accounts.total fun _ acc => gain funds (g.changes acc) + removed (g.changes acc)) = 0 :=
    fun hcells => by simp only [hcells, FiniteMap.total_zero]
  have hsingle : ∀ {acc log}, g.changes = Function.update (fun _ => []) acc log →
      gain funds log + removed log = 0 → ∀ acc', gain funds (g.changes acc') +
        removed (g.changes acc') = 0 := by
    intro acc log hchanges hlog acc'
    rw [hchanges]
    by_cases hcell : acc' = acc
    · rw [hcell, Function.update_self, hlog]
    · rw [Function.update_of_ne hcell, gain_nil, removed_nil, add_zero]
  rw [takenOut, ← FiniteMap.total_add]
  cases h with
  | deposited hacc hleaves => simp [transfers, closes] at hop
  | withdrawn hacc hleaves => simp [transfers, closes] at hop
  | checked hacc hleaves => simp [transfers, closes] at hop
  | closed hacc hleaves => exact hzero (hsingle hleaves.changes (by simp [funds]))
  | @transferred _ _ _ _ _ amount b d fromAcc toAcc hpos hfrom hto hne hleaves =>
    rw [← total_pair hfrom hto amount]
    refine FiniteMap.total_congr fun _ acc _ => ?_
    rw [hleaves.changes]
    by_cases hcell : acc = toAcc
    · subst hcell
      simp [funds, hne.symm]
    · by_cases hcell' : acc = fromAcc <;> simp [hcell, hcell', funds, hne]
  | refused hsame => exact hzero fun acc => by simp [hsame]
  | detached hop' hleaves => exact hzero (hsingle hleaves.changes (by simp [funds]))

theorem storeTotal_view (h : Since s₀ calls s) :
    storeTotal s.view = s₀.accounts.total fun _ acc => funds (contents s acc) := by
  rw [storeTotal, Memory.view, FiniteMap.total_map, FiniteMap.total_submap h.shrunk]
  refine FiniteMap.total_congr fun id acc hacc => ?_
  have hkey := s₀.keyed id acc hacc
  simp [funds, contents, Stored, hkey]

variable [DecidableEq ι] {sched : List ι} {c : Config ι Lock (Memory ℚ) (Result ℚ)}

/-- For any number of transfers and closings and any interleaving, when each transfer has its
accounts in the store, or too little in the source, as it gets its second mutex: it is all or
nothing, and when all calls have finished, the store has lost what the closings took out. -/
theorem transfer_all_or_nothing [Fintype ι]
    (hcalls : ∀ i, transfers (calls i) = true ∨ closes (calls i) = true)
    (hrun : sched.foldlM step (start s₀ calls) = .ok c) (hcovered : CoveredRun s₀ calls sched) :
    (∀ i res, c.threads i = .done res →
      AllOrNothing s₀ (calls i) res (changes contents i (start s₀ calls) sched)) ∧
    ((∀ i, ∃ res, c.threads i = .done res) →
      storeTotal c.mem.view + ∑ i, takenOut s₀ (changes contents i (start s₀ calls) sched) =
        storeTotal s₀.view) := by
  have hopen : ∀ i, (calls i).isOpen = false := fun i => by
    have hop := hcalls i
    revert hop
    cases calls i <;> simp [Op.isOpen, transfers, closes]
  have hres := settled_run hopen hrun (.inr hcovered)
  refine ⟨fun i res hdone => (hres.finished hdone).allOrNothing, fun hdone => ?_⟩
  have hstart : Since s₀ calls s₀ := ⟨fun _ _ h => h, fun _ => rfl⟩
  have hgain : ∀ i, (s₀.accounts.total fun _ acc =>
      gain funds (changes contents i (start s₀ calls) sched acc)) +
        takenOut s₀ (changes contents i (start s₀ calls) sched) = 0 := fun i => by
    obtain ⟨res, hi⟩ := hdone i
    exact (hres.finished hi).conserves (hcalls i)
  calc storeTotal c.mem.view + ∑ i, takenOut s₀ (changes contents i (start s₀ calls) sched)
      = (s₀.accounts.total fun _ acc => funds (contents s₀ acc) +
          ∑ i, gain funds (changes contents i (start s₀ calls) sched acc)) +
          ∑ i, takenOut s₀ (changes contents i (start s₀ calls) sched) := by
        rw [storeTotal_view hres.inv]
        congr 1
        exact FiniteMap.total_congr fun _ acc _ => worth_eq funds contents hrun acc
    _ = storeTotal s₀.view := by
        rw [FiniteMap.total_add, FiniteMap.total_sum, add_assoc, ← Finset.sum_add_distrib,
          Finset.sum_congr rfl fun i _ => hgain i, Finset.sum_const_zero, add_zero,
          storeTotal_view hstart]

inductive Caller
  | payer
  | payee
  deriving DecidableEq

instance : Fintype Caller where
  elems := {.payer, .payee}
  complete caller := by cases caller <;> decide

def transferAndClose : Caller → Op ℚ
  | .payer => .transfer [65] 10000 (.replicate 8 0) 10001 1 30
  | .payee => .closeAccount [66] 10001 (.replicate 8 0)

def transferAndCloseResults : Caller → Result ℚ
  | .payer => .balances 70 80
  | .payee => .closed

def closeAfterwards : List Caller :=
  .replicate 13 .payer ++ .replicate 4 .payee ++ .replicate 19 .payer ++ .replicate 7 .payee

theorem closeAfterwards_conserves :
    ∃ c, closeAfterwards.foldlM step (start twoAccounts transferAndClose) = .ok c ∧
      (∀ i, AllOrNothing twoAccounts (transferAndClose i) (transferAndCloseResults i)
        (changes contents i (start twoAccounts transferAndClose) closeAfterwards)) ∧
      storeTotal c.mem.view + ∑ i, takenOut twoAccounts
          (changes contents i (start twoAccounts transferAndClose) closeAfterwards) =
        storeTotal twoAccounts.view := by
  obtain ⟨c, hrun, hdone⟩ := Runs.exists_of_check
    (x := closeAfterwards.foldlM step (start twoAccounts transferAndClose))
    (p := fun c => decide (∀ i, (c.threads i).result = some (transferAndCloseResults i)))
    (by decide +kernel)
  have hresults : ∀ i, c.threads i = .done (transferAndCloseResults i) :=
    fun i => Prog.result_eq_some.mp (of_decide_eq_true hdone i)
  obtain ⟨hall, htotal⟩ :=
    transfer_all_or_nothing (fun i => by decide +revert) hrun (by decide +kernel)
  exact ⟨c, hrun, fun i => hall i _ (hresults i), htotal fun i => ⟨_, hresults i⟩⟩

def closeInBetween : List Caller :=
  .replicate 9 .payer ++ .replicate 11 .payee ++ .replicate 22 .payer

/-- The transfer has found account 10001, which is then closed with its 50, and reports a balance of
80 there; the store has 70, and 30 are lost. -/
theorem closeInBetween_loses :
    ∃ c, closeInBetween.foldlM step (start twoAccounts transferAndClose) = .ok c ∧
      (∀ i, c.threads i = .done (transferAndCloseResults i)) ∧
      changes contents .payer (start twoAccounts transferAndClose) closeInBetween ⟨10001, 1⟩ =
        [((50, false), (80, false))] ∧
      ¬ AllOrNothing twoAccounts (transferAndClose .payer) (transferAndCloseResults .payer)
        (changes contents .payer (start twoAccounts transferAndClose) closeInBetween) ∧
      storeTotal twoAccounts.view = 150 ∧ storeTotal c.mem.view = 70 ∧
      ∑ i, takenOut twoAccounts
        (changes contents i (start twoAccounts transferAndClose) closeInBetween) = 50 := by
  obtain ⟨c, hrun, hcheck⟩ := Runs.exists_of_check
    (x := closeInBetween.foldlM step (start twoAccounts transferAndClose))
    (p := fun c => decide ((∀ i, (c.threads i).result = some (transferAndCloseResults i)) ∧
      storeTotal c.mem.view = 70))
    (by decide +kernel)
  obtain ⟨hresults, hstore⟩ := of_decide_eq_true hcheck
  have hchanges : changes contents .payer (start twoAccounts transferAndClose) closeInBetween
      ⟨10001, 1⟩ = [((50, false), (80, false))] := by decide +kernel
  refine ⟨c, hrun, fun i => Prog.result_eq_some.mp (hresults i), hchanges, fun hall => ?_,
    by decide +kernel, hstore, by decide +kernel⟩
  obtain ⟨fromAcc, toAcc, -, hto, -, hmoved, -⟩ := hall
  have hget : twoAccounts.accounts.get 10001 = some ⟨10001, 1⟩ := by decide +kernel
  rw [hget] at hto
  cases hto
  rw [hchanges] at hmoved
  simp at hmoved

end DistributedBanking.Concurrent
