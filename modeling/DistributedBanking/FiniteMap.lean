import Mathlib.Data.Finmap
import Mathlib.Algebra.BigOperators.Group.Finset.Sigma
import Mathlib.Algebra.BigOperators.Group.Multiset.Basic
import Mathlib.Algebra.Group.Basic

/-!
# Finite maps with one value type

A non-dependent view of `Finmap` with the four operations a hash map of an
imperative program offers: reading, writing, deleting and keeping the entries
that pass a test. Two maps with the same readings are equal, so an iteration
order is never observable. `total` sums a measure over the entries and has one
law for each operation; the size of a map is such a total, and so is the number
of entries in a map of maps.
-/

def FiniteMap (κ β : Type*) := Finmap (fun _ : κ => β)

namespace FiniteMap
variable {κ β : Type*}

instance : EmptyCollection (FiniteMap κ β) := ⟨(∅ : Finmap fun _ : κ => β)⟩
instance : Inhabited (FiniteMap κ β) := ⟨∅⟩

def entries (m : FiniteMap κ β) : Multiset (κ × β) :=
  (Finmap.entries m).map fun e => (e.1, e.2)

def total {A : Type*} [AddCommMonoid A] (f : κ → β → A) (m : FiniteMap κ β) : A :=
  (m.entries.map fun e => f e.1 e.2).sum

def filter (p : κ → β → Bool) (m : FiniteMap κ β) : FiniteMap κ β :=
  ⟨(Finmap.entries m).filter fun e => p e.1 e.2,
    Multiset.nodup_keys.1 (Multiset.nodup_of_le
      (Multiset.map_le_map (Multiset.filter_le _ _)) m.nodupKeys.nodup_keys)⟩

def map {γ : Type*} (f : β → γ) (m : FiniteMap κ β) : FiniteMap κ γ :=
  ⟨(Finmap.entries m).map fun e => ⟨e.1, f e.2⟩, by
    rw [← Multiset.nodup_keys, Multiset.keys, Multiset.map_map]
    exact m.nodupKeys.nodup_keys⟩

@[simp] theorem total_empty {A : Type*} [AddCommMonoid A] (f : κ → β → A) :
    (∅ : FiniteMap κ β).total f = 0 := rfl

theorem nodup_keys (m : FiniteMap κ β) : (m.entries.map Prod.fst).Nodup := by
  rw [entries, Multiset.map_map]
  exact (Finmap.nodupKeys m).nodup_keys

theorem entries_map {γ : Type*} (f : β → γ) (m : FiniteMap κ β) :
    (m.map f).entries = m.entries.map fun e => (e.1, f e.2) := by
  simp only [entries, map, Multiset.map_map, Function.comp_def]

theorem total_map {γ A : Type*} [AddCommMonoid A] (g : κ → γ → A) (f : β → γ)
    (m : FiniteMap κ β) : (m.map f).total g = m.total fun k v => g k (f v) := by
  simp only [total, entries_map, Multiset.map_map, Function.comp_def]

variable [DecidableEq κ]

instance [DecidableEq β] : DecidableEq (FiniteMap κ β) :=
  inferInstanceAs (DecidableEq (Finmap fun _ : κ => β))

def get (m : FiniteMap κ β) (k : κ) : Option β := Finmap.lookup k m

def set (m : FiniteMap κ β) (k : κ) (v : β) : FiniteMap κ β := Finmap.insert k v m

def delete (m : FiniteMap κ β) (k : κ) : FiniteMap κ β := Finmap.erase k m

@[ext] theorem ext {m n : FiniteMap κ β} (h : ∀ k, m.get k = n.get k) : m = n :=
  Finmap.ext_lookup h

@[simp] theorem get_empty (k : κ) : (∅ : FiniteMap κ β).get k = none :=
  Finmap.lookup_empty k

@[simp] theorem get_set_self (m : FiniteMap κ β) (k : κ) (v : β) : (m.set k v).get k = some v :=
  Finmap.lookup_insert m

theorem get_set_of_ne (m : FiniteMap κ β) {k k' : κ} (v : β) (h : k' ≠ k) :
    (m.set k v).get k' = m.get k' :=
  Finmap.lookup_insert_of_ne m h

theorem get_set (m : FiniteMap κ β) (k k' : κ) (v : β) :
    (m.set k v).get k' = if k' = k then some v else m.get k' := by
  split_ifs with h
  · rw [h, get_set_self]
  · exact get_set_of_ne m v h

@[simp] theorem get_delete_self (m : FiniteMap κ β) (k : κ) : (m.delete k).get k = none :=
  Finmap.lookup_erase k m

theorem get_delete_of_ne (m : FiniteMap κ β) {k k' : κ} (h : k' ≠ k) :
    (m.delete k).get k' = m.get k' :=
  Finmap.lookup_erase_ne h

theorem get_delete (m : FiniteMap κ β) (k k' : κ) :
    (m.delete k).get k' = if k' = k then none else m.get k' := by
  split_ifs with h
  · rw [h, get_delete_self]
  · exact get_delete_of_ne m h

theorem set_get (m : FiniteMap κ β) {k : κ} {v : β} (h : m.get k = some v) : m.set k v = m := by
  ext1 k'
  rw [get_set]
  split_ifs with hk
  · rw [hk, h]
  · rfl

@[simp] theorem set_set (m : FiniteMap κ β) (k : κ) (v w : β) :
    (m.set k v).set k w = m.set k w :=
  Finmap.insert_insert m

theorem mem_entries {m : FiniteMap κ β} {k : κ} {v : β} :
    (k, v) ∈ m.entries ↔ m.get k = some v := by
  induction m using Finmap.induction_on with
  | H l =>
    change (k, v) ∈ Multiset.map _ _ ↔ l.lookup k = some v
    simp only [AList.toFinmap_entries, Multiset.map_coe, Multiset.mem_coe, List.mem_map]
    rw [AList.lookup, ← Option.mem_def, List.mem_dlookup_iff l.nodupKeys]
    constructor
    · intro hmap
      obtain ⟨⟨a, b⟩, hmem, heq⟩ := hmap
      cases heq
      exact hmem
    · intro hmem
      exact ⟨⟨k, v⟩, hmem, rfl⟩

theorem get_filter (p : κ → β → Bool) (m : FiniteMap κ β) (k : κ) :
    (m.filter p).get k = (m.get k).filter (p k) := by
  apply Option.ext
  intro v
  rw [← mem_entries]
  simp only [entries, filter, Multiset.mem_map, Multiset.mem_filter, Option.filter_eq_some_iff,
    ← mem_entries (m := m)]
  constructor
  · intro hmap
    obtain ⟨e, ⟨he, hp⟩, heq⟩ := hmap
    cases heq
    exact ⟨⟨e, he, rfl⟩, hp⟩
  · intro hmap
    obtain ⟨⟨e, he, heq⟩, hp⟩ := hmap
    cases heq
    exact ⟨e, ⟨he, hp⟩, rfl⟩

theorem get_map {γ : Type*} (f : β → γ) (m : FiniteMap κ β) (k : κ) :
    (m.map f).get k = (m.get k).map f := by
  apply Option.ext
  intro w
  rw [← mem_entries, entries_map]
  simp only [Multiset.mem_map, Prod.exists, Prod.mk.injEq, Option.map_eq_some_iff]
  constructor
  · intro hmap
    obtain ⟨k', v, hmem, rfl, rfl⟩ := hmap
    exact ⟨v, mem_entries.mp hmem, rfl⟩
  · intro hget
    obtain ⟨v, hget, rfl⟩ := hget
    exact ⟨k, v, mem_entries.mpr hget, rfl, rfl⟩

theorem entries_set_of_none {m : FiniteMap κ β} {k : κ} (v : β) (h : m.get k = none) :
    (m.set k v).entries = (k, v) ::ₘ m.entries := by
  have hk : k ∉ (show Finmap fun _ : κ => β from m) := Finmap.lookup_eq_none.1 h
  simp only [entries, set, Finmap.entries_insert_of_notMem hk, Multiset.map_cons]

theorem set_delete_of_some {m : FiniteMap κ β} {k : κ} {v : β} (h : m.get k = some v) :
    (m.delete k).set k v = m := by
  ext1 k'
  rw [get_set]
  split_ifs with hk
  · rw [hk, h]
  · exact get_delete_of_ne m hk

section Total
variable {A : Type*} [AddCommMonoid A] (f : κ → β → A)

theorem total_set_of_none {m : FiniteMap κ β} {k : κ} (v : β) (h : m.get k = none) :
    (m.set k v).total f = f k v + m.total f := by
  simp [total, entries_set_of_none v h]

theorem total_delete_of_some {m : FiniteMap κ β} {k : κ} {v : β} (h : m.get k = some v) :
    f k v + (m.delete k).total f = m.total f := by
  rw [← total_set_of_none f v (get_delete_self m k), set_delete_of_some h]

theorem total_set_of_some {m : FiniteMap κ β} {k : κ} {v : β} (w : β) (h : m.get k = some v) :
    f k v + (m.set k w).total f = f k w + m.total f := by
  have hset : m.set k w = (m.delete k).set k w := by
    rw [← set_delete_of_some h, set_set, set_delete_of_some h]
  rw [hset, total_set_of_none f w (get_delete_self m k), ← total_delete_of_some f h]
  exact add_left_comm _ _ _

omit [DecidableEq κ] in
@[simp] theorem total_zero (m : FiniteMap κ β) : (m.total fun _ _ => (0 : A)) = 0 := by
  simp [total]

omit [DecidableEq κ] in
theorem total_add (g : κ → β → A) (m : FiniteMap κ β) :
    (m.total fun k v => f k v + g k v) = m.total f + m.total g :=
  Multiset.sum_map_add

omit [DecidableEq κ] in
theorem total_sum {ι : Type*} (s : Finset ι) (g : ι → κ → β → A) (m : FiniteMap κ β) :
    (m.total fun k v => ∑ i ∈ s, g i k v) = ∑ i ∈ s, m.total (g i) :=
  Multiset.sum_map_sum_map m.entries s.val

variable {f}

theorem total_congr {g : κ → β → A} {m : FiniteMap κ β}
    (h : ∀ k v, m.get k = some v → f k v = g k v) : m.total f = m.total g := by
  refine congrArg Multiset.sum (Multiset.map_congr rfl fun e he => ?_)
  exact h e.1 e.2 (mem_entries.mp he)

theorem total_eq_single {m : FiniteMap κ β} {k : κ} {v : β} (hk : m.get k = some v)
    (h : ∀ k' v', m.get k' = some v' → k' ≠ k → f k' v' = 0) : m.total f = f k v := by
  have hrest : (m.delete k).total f = (m.delete k).total fun _ _ => 0 := by
    refine total_congr fun k' v' hget => ?_
    rw [get_delete] at hget
    split_ifs at hget with hne
    exact h k' v' hget hne
  rw [← total_delete_of_some f hk, hrest, total_zero, add_zero]

omit [DecidableEq κ] in
theorem total_filter (p : κ → β → Bool) (m : FiniteMap κ β) :
    (m.filter p).total f = m.total fun k v => if p k v then f k v else 0 := by
  simp only [total, entries, filter, Multiset.map_map, Function.comp_def]
  induction Finmap.entries m using Multiset.induction_on with
  | empty => rfl
  | cons e es ih => by_cases h : p e.1 e.2 <;> simp [h, ih]

theorem total_submap [DecidableEq β] {m n : FiniteMap κ β}
    (h : ∀ k v, n.get k = some v → m.get k = some v) :
    n.total f = m.total fun k v => if n.get k = some v then f k v else 0 := by
  have hfilter : n = m.filter fun k v => n.get k = some v := by
    ext k v
    rw [get_filter, Option.filter_eq_some_iff, decide_eq_true_iff]
    exact ⟨fun hn => ⟨h k v hn, hn⟩, fun hn => hn.2⟩
  conv_lhs => rw [hfilter, total_filter]
  simp only [decide_eq_true_iff]

end Total

section Keys
variable {ι : Type*}

omit [DecidableEq κ] in
def size (m : FiniteMap κ β) : ℕ := m.total fun _ _ => 1

omit [DecidableEq κ] in
def keys (m : FiniteMap κ β) : Finset κ := ⟨m.entries.map Prod.fst, m.nodup_keys⟩

@[simp] theorem mem_keys {m : FiniteMap κ β} {k : κ} : k ∈ m.keys ↔ (m.get k).isSome := by
  simp only [keys, Finset.mem_mk, Multiset.mem_map, Prod.exists, mem_entries,
    Option.isSome_iff_exists]
  constructor
  · intro hmem
    obtain ⟨k', v, hget, hk⟩ := hmem
    exact ⟨v, hk ▸ hget⟩
  · intro hsome
    obtain ⟨v, hget⟩ := hsome
    exact ⟨k, v, hget, rfl⟩

omit [DecidableEq κ] in
@[simp] theorem card_keys (m : FiniteMap κ β) : m.keys.card = m.size := by
  simp [keys, size, total]

theorem size_eq_zero {m : FiniteMap κ β} : m.size = 0 ↔ ∀ k, m.get k = none := by
  simp [← card_keys, Finset.eq_empty_iff_forall_notMem]

theorem size_le_of_submap {m n : FiniteMap κ β}
    (h : ∀ k v, n.get k = some v → m.get k = some v) : n.size ≤ m.size := by
  rw [← card_keys, ← card_keys]
  refine Finset.card_le_card fun k hk => ?_
  rw [mem_keys, Option.isSome_iff_exists] at hk ⊢
  obtain ⟨v, hget⟩ := hk
  exact ⟨v, h k v hget⟩

theorem total_eq_sum_keys {A : Type*} [AddCommMonoid A] (f : κ → β → A) (m : FiniteMap κ β) :
    m.total f = ∑ k ∈ m.keys, (m.get k).elim 0 (f k) := by
  rw [total, Finset.sum, keys, Multiset.map_map]
  refine congrArg Multiset.sum (Multiset.map_congr rfl fun e he => ?_)
  rw [Function.comp_apply, mem_entries.mp he]
  rfl

def pairs (m : FiniteMap κ (FiniteMap ι β)) : Finset (κ × ι) :=
  (m.keys.sigma fun k => (m.get k).elim ∅ keys).map (Equiv.sigmaEquivProd κ ι).toEmbedding

theorem mem_pairs [DecidableEq ι] {m : FiniteMap κ (FiniteMap ι β)} {k : κ} {i : ι} :
    (k, i) ∈ m.pairs ↔ ((m.get k).bind fun inner => inner.get i).isSome := by
  simp only [pairs, Finset.mem_map_equiv, Equiv.sigmaEquivProd_symm_apply, Finset.mem_sigma,
    mem_keys]
  cases m.get k with
  | none => simp
  | some inner => simp

theorem card_pairs (m : FiniteMap κ (FiniteMap ι β)) :
    m.pairs.card = m.total fun _ inner => inner.size := by
  rw [pairs, Finset.card_map, Finset.card_sigma, total_eq_sum_keys]
  refine Finset.sum_congr rfl fun k _ => ?_
  cases m.get k with
  | none => rfl
  | some inner => exact card_keys inner

end Keys
end FiniteMap
