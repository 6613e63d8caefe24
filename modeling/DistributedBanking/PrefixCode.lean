import Mathlib.Data.List.Flatten
import Mathlib.Tactic.Common

/-!
# Codes whose words announce their own end

Reading a word off the front of a text gives back one value and one rest. Every
text is then a list of words followed by a rest that starts with no word, and
both are determined by the text.
-/

namespace PrefixCode
variable {α β : Type*}

structure IsPrefixCode (code : α → List β) (Valid : α → Prop) : Prop where
  ne_nil : ∀ a, code a ≠ []
  decodable : ∀ {a b x y}, Valid a → Valid b → code a ++ x = code b ++ y → a = b ∧ x = y

def Stuck (code : α → List β) (Valid : α → Prop) (t : List β) : Prop :=
  ∀ a x, Valid a → t ≠ code a ++ x

variable {code : α → List β} {Valid : α → Prop}

theorem stuck_of_length_lt {n : ℕ} (hcode : ∀ a, n ≤ (code a).length) {t : List β}
    (ht : t.length < n) : Stuck code Valid t := by
  intro a x _ heq
  have hlen := congrArg List.length heq
  have hword := hcode a
  rw [List.length_append] at hlen
  omega

theorem IsPrefixCode.split_unique (h : IsPrefixCode code Valid) {as bs : List α} {t u : List β}
    (has : ∀ a ∈ as, Valid a) (hbs : ∀ b ∈ bs, Valid b) (ht : Stuck code Valid t)
    (hu : Stuck code Valid u) (heq : as.flatMap code ++ t = bs.flatMap code ++ u) :
    as = bs ∧ t = u := by
  induction as generalizing bs with
  | nil =>
    cases bs with
    | nil => exact ⟨rfl, heq⟩
    | cons b bs =>
      rw [List.flatMap_nil, List.nil_append, List.flatMap_cons, List.append_assoc] at heq
      exact absurd heq (ht b _ (hbs b List.mem_cons_self))
  | cons a as ih =>
    cases bs with
    | nil =>
      rw [List.flatMap_nil, List.nil_append, List.flatMap_cons, List.append_assoc] at heq
      exact absurd heq.symm (hu a _ (has a List.mem_cons_self))
    | cons b bs =>
      rw [List.flatMap_cons, List.flatMap_cons, List.append_assoc, List.append_assoc] at heq
      obtain ⟨rfl, hrest⟩ := h.decodable (has a List.mem_cons_self) (hbs b List.mem_cons_self) heq
      obtain ⟨rfl, rfl⟩ := ih (fun c hc => has c (List.mem_cons_of_mem a hc))
        (fun c hc => hbs c (List.mem_cons_of_mem a hc)) hrest
      exact ⟨rfl, rfl⟩

theorem IsPrefixCode.exists_split (h : IsPrefixCode code Valid) (x : List β) :
    ∃ (as : List α) (t : List β),
      x = as.flatMap code ++ t ∧ (∀ a ∈ as, Valid a) ∧ Stuck code Valid t := by
  induction hn : x.length using Nat.strongRecOn generalizing x with
  | _ n ih =>
    by_cases hstuck : Stuck code Valid x
    · exact ⟨[], x, rfl, by simp, hstuck⟩
    simp only [Stuck, not_forall, not_not] at hstuck
    obtain ⟨a, y, ha, hx⟩ := hstuck
    have hshorter : y.length < n := by
      have hpos := List.length_pos_iff.mpr (h.ne_nil a)
      rw [← hn, hx, List.length_append]
      omega
    obtain ⟨as, t, hy, has, ht⟩ := ih y.length hshorter y rfl
    refine ⟨a :: as, t, ?_, ?_, ht⟩
    · rw [List.flatMap_cons, List.append_assoc, ← hy]
      exact hx
    · intro b hb
      rcases List.mem_cons.mp hb with rfl | hb
      · exact ha
      · exact has b hb

end PrefixCode
