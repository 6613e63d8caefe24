import DistributedBanking.FiniteMap
import Mathlib.Data.List.Lex
import Mathlib.Data.List.Sort

/-!
# Ranging over a map

A loop over a map visits every entry once, in an order that the runtime chooses
anew each time. One such order can be computed: that of the keys by their rank.
-/

structure MapRange (κ β : Type) [DecidableEq κ] where
  order : FiniteMap κ β → List (κ × β)
  complete : ∀ m, (order m : Multiset (κ × β)) = m.entries

namespace MapRange
variable {κ β : Type}

section Sorted
variable {γ : Type} [LinearOrder γ] {rank : κ → γ} (hrank : Function.Injective rank)

def sortedKeys (m : FiniteMap κ β) : List κ :=
  Quot.liftOn (m.entries.map Prod.fst) (List.insertionSort (Order.Preimage rank (· ≤ ·)))
    fun l l' h => by
      refine List.Perm.eq_of_pairwise ?_ (List.pairwise_insertionSort _ l)
        (List.pairwise_insertionSort _ l')
        ((List.perm_insertionSort _ l).trans (h.trans (List.perm_insertionSort _ l').symm))
      exact fun k k' _ _ hle hge => hrank (le_antisymm hle hge)

theorem coe_sortedKeys (m : FiniteMap κ β) :
    (sortedKeys hrank m : Multiset κ) = m.entries.map Prod.fst := by
  rw [sortedKeys]
  induction m.entries.map Prod.fst using Quot.inductionOn with
  | h l => exact Multiset.coe_eq_coe.mpr (List.perm_insertionSort _ l)

variable [DecidableEq κ]

def sorted : MapRange κ β where
  order m := (sortedKeys hrank m).filterMap fun k => (m.get k).map fun v => (k, v)
  complete m := by
    rw [← Multiset.filterMap_coe, coe_sortedKeys, Multiset.filterMap_map]
    obtain ⟨entries, hentries⟩ := Quot.exists_rep m.entries
    have hget : ∀ e ∈ entries, (m.get e.1).map (fun v => (e.1, v)) = some e := fun e he => by
      have hmem : e ∈ m.entries := hentries ▸ he
      rw [FiniteMap.mem_entries.mp hmem]
      rfl
    rw [← hentries]
    exact congrArg _ ((List.filterMap_congr hget).trans List.filterMap_some)

end Sorted

theorem bytes_injective : Function.Injective (List.map UInt8.toNat) :=
  List.map_injective_iff.mpr fun _ _ => UInt8.toNat_inj.mp

variable [DecidableEq κ] (range : MapRange κ β)

theorem mem_order {m : FiniteMap κ β} {k : κ} {v : β} :
    (k, v) ∈ range.order m ↔ m.get k = some v := by
  rw [← Multiset.mem_coe, range.complete, FiniteMap.mem_entries]

theorem sum_order {A : Type} [AddCommMonoid A] (f : κ → β → A) (m : FiniteMap κ β) :
    ((range.order m).map fun e => f e.1 e.2).sum = m.total f := by
  rw [FiniteMap.total, ← range.complete, Multiset.map_coe, Multiset.sum_coe]

end MapRange
