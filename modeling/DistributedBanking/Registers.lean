import Mathlib.Data.List.Induction

/-!
# Cells and the operations that write them

An operation leaves a cell alone, empties it or puts a value into it. After any
run the value is the one of the last operation that did not leave the cell alone.
-/

namespace Registers
variable {σ ω β : Type}

/-- `none` leaves the cell alone and `some cell'` overwrites it. -/
def write (effect : ω → Option (Option β)) (cell : Option β) (op : ω) : Option β :=
  (effect op).getD cell

theorem view_foldl {step : σ → ω → σ} (view : σ → Option β) (effect : ω → Option (Option β))
    (h : ∀ s op, view (step s op) = write effect (view s) op) (s : σ) (ops : List ω) :
    view (ops.foldl step s) = ops.foldl (write effect) (view s) := by
  induction ops generalizing s with
  | nil => rfl
  | cons op ops ih =>
    rw [List.foldl_cons, List.foldl_cons, ih, h]

variable (effect : ω → Option (Option β)) {cell : Option β} {ops : List ω}

theorem write_untouched (h : ∀ op ∈ ops, effect op = none) :
    ops.foldl (write effect) cell = cell := by
  induction ops with
  | nil => rfl
  | cons op ops ih =>
    have hop : write effect cell op = cell := by
      rw [write, h op List.mem_cons_self]
      rfl
    rw [List.foldl_cons, hop]
    exact ih fun o ho => h o (List.mem_cons_of_mem op ho)

theorem write_kept (hfull : cell.isSome) (h : ∀ op ∈ ops, effect op ≠ some none) :
    (ops.foldl (write effect) cell).isSome := by
  induction ops generalizing cell with
  | nil => exact hfull
  | cons op ops ih =>
    rw [List.foldl_cons]
    refine ih ?_ fun o ho => h o (List.mem_cons_of_mem op ho)
    have hop := h op List.mem_cons_self
    rw [write]
    cases heffect : effect op with
    | none => exact hfull
    | some written =>
      cases written with
      | none => exact absurd heffect hop
      | some v => rfl

theorem foldl_eq_some_iff {v : β} :
    ops.foldl (write effect) none = some v ↔
      ∃ pre op post, ops = pre ++ op :: post ∧ effect op = some (some v) ∧
        ∀ o ∈ post, effect o = none := by
  constructor
  · intro h
    induction ops using List.reverseRecOn with
    | nil => cases h
    | append_singleton ops op ih =>
      rw [List.foldl_append, List.foldl_cons, List.foldl_nil, write] at h
      cases heffect : effect op with
      | none =>
        rw [heffect] at h
        obtain ⟨pre, o, post, rfl, ho, hpost⟩ := ih h
        refine ⟨pre, o, post ++ [op], List.append_assoc pre (o :: post) [op], ho, ?_⟩
        intro o' ho'
        obtain hmem | hmem := List.mem_append.mp ho'
        · exact hpost o' hmem
        · rwa [List.mem_singleton.mp hmem]
      | some written =>
        rw [heffect] at h
        exact ⟨ops, op, [], rfl, heffect.trans (congrArg some h), fun o ho => by cases ho⟩
  · intro hlast
    obtain ⟨pre, op, post, hops, hop, hpost⟩ := hlast
    rw [hops, List.foldl_append, List.foldl_cons, write_untouched effect hpost, write, hop]
    rfl

theorem foldl_isSome_iff :
    (ops.foldl (write effect) none).isSome ↔
      ∃ pre op post, ops = pre ++ op :: post ∧ (∃ v, effect op = some (some v)) ∧
        ∀ o ∈ post, effect o ≠ some none := by
  constructor
  · intro h
    obtain ⟨v, hv⟩ := Option.isSome_iff_exists.mp h
    obtain ⟨pre, op, post, hops, hop, hpost⟩ := (foldl_eq_some_iff effect).mp hv
    refine ⟨pre, op, post, hops, ⟨v, hop⟩, ?_⟩
    intro o ho hempty
    rw [hpost o ho] at hempty
    cases hempty
  · intro hfilled
    obtain ⟨pre, op, post, hops, ⟨v, hop⟩, hpost⟩ := hfilled
    rw [hops, List.foldl_append, List.foldl_cons]
    refine write_kept effect ?_ hpost
    rw [write, hop]
    rfl

end Registers
