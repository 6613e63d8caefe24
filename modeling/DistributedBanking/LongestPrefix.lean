import Mathlib.Data.List.Infix

/-!
# The longest prefix with a property

What a scanner that reads as far as it can takes from the front of its input.
The search goes from the whole input down, so a prefix is found exactly when it
has the property and no longer one has it.
-/

namespace LongestPrefix

variable {α : Type*} {p : List α → Bool} {l t : List α}

def search (p : List α → Bool) (l : List α) : ℕ → Option (List α)
  | 0 => if p [] then some [] else none
  | n + 1 => if p (l.take (n + 1)) then some (l.take (n + 1)) else search p l n

def longestPrefix (p : List α → Bool) (l : List α) : Option (List α) := search p l l.length

theorem search_eq_some_iff {n : ℕ} (hn : n ≤ l.length) :
    search p l n = some t ↔
      t <+: l ∧ t.length ≤ n ∧ p t ∧ ∀ u, u <+: l → u.length ≤ n → p u → u.length ≤ t.length := by
  induction n with
  | zero =>
    have hnil : ∀ {u : List α}, u.length ≤ 0 → u = [] := fun h =>
      List.eq_nil_of_length_eq_zero (Nat.le_zero.mp h)
    constructor
    · intro h
      rw [search] at h
      split_ifs at h with hp
      cases h
      exact ⟨List.nil_prefix, le_refl _, hp, fun u _ hu _ => hu⟩
    · intro hlongest
      obtain ⟨-, hlen, hp, -⟩ := hlongest
      rw [hnil hlen] at hp ⊢
      rw [search, if_pos hp]
  | succ n ih =>
    have htake : (l.take (n + 1)).length = n + 1 := List.length_take_of_le hn
    -- The prefix of this length is the one that the search tries first.
    have heq : ∀ {u : List α}, u <+: l → u.length = n + 1 → u = l.take (n + 1) := fun hu hlen => by
      rw [← hlen]
      exact List.prefix_iff_eq_take.mp hu
    rw [search]
    split_ifs with hp
    · constructor
      · intro h
        cases h
        exact ⟨List.take_prefix _ _, htake.le, hp, fun u _ hu _ => hu.trans htake.ge⟩
      · intro hlongest
        obtain ⟨ht, hlen, -, hmax⟩ := hlongest
        have hlong := hmax _ (List.take_prefix _ _) htake.le hp
        rw [heq ht (by omega)]
    · rw [ih (by omega)]
      have hshort : ∀ {u : List α}, u <+: l → u.length ≤ n + 1 → p u → u.length ≤ n := by
        intro u hu hlen hpu
        by_contra hgt
        rw [heq hu (by omega)] at hpu
        exact hp hpu
      constructor
      · intro hlongest
        obtain ⟨ht, hlen, hpt, hmax⟩ := hlongest
        exact ⟨ht, by omega, hpt, fun u hu hlu hpu => hmax u hu (hshort hu hlu hpu) hpu⟩
      · intro hlongest
        obtain ⟨ht, hlen, hpt, hmax⟩ := hlongest
        exact ⟨ht, hshort ht hlen hpt, hpt, fun u hu hlu hpu => hmax u hu (by omega) hpu⟩

theorem longestPrefix_eq_some_iff :
    longestPrefix p l = some t ↔
      t <+: l ∧ p t ∧ ∀ u, u <+: l → p u → u.length ≤ t.length := by
  rw [longestPrefix, search_eq_some_iff (le_refl _)]
  constructor
  · intro hlongest
    obtain ⟨ht, -, hp, hmax⟩ := hlongest
    exact ⟨ht, hp, fun u hu hpu => hmax u hu hu.length_le hpu⟩
  · intro hlongest
    obtain ⟨ht, hp, hmax⟩ := hlongest
    exact ⟨ht, ht.length_le, hp, fun u hu _ hpu => hmax u hu hpu⟩

theorem longestPrefix_self (h : p l) : longestPrefix p l = some l :=
  longestPrefix_eq_some_iff.mpr ⟨List.prefix_refl l, h, fun _ hu _ => hu.length_le⟩

theorem longestPrefix_spec (h : longestPrefix p l = some t) : t <+: l ∧ p t := by
  obtain ⟨ht, hp, -⟩ := longestPrefix_eq_some_iff.mp h
  exact ⟨ht, hp⟩

end LongestPrefix
