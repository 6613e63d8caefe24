import Mathlib.Data.Finset.Disjoint

/-!
# Operations with a footprint

An operation on a state that is looked at key by key has a footprint when it
leaves every other key alone and when what it answers, and what it writes there,
depends on these keys only. Two operations whose footprints are disjoint answer
the same and leave the same state behind, in either order.
-/

namespace Footprints

variable {σ κ β ρ τ : Type*} {look : σ → κ → β}

def AgreeOn (look : σ → κ → β) (S : Finset κ) (s t : σ) : Prop := ∀ k ∈ S, look s k = look t k

structure HasFootprint (look : σ → κ → β) (f : σ → σ × ρ) (S : Finset κ) : Prop where
  frame : ∀ s k, k ∉ S → look (f s).1 k = look s k
  answer : ∀ s t, AgreeOn look S s t → (f s).2 = (f t).2
  writes : ∀ s t, AgreeOn look S s t → AgreeOn look S (f s).1 (f t).1

theorem hasFootprint_const (look : σ → κ → β) (r : ρ) (S : Finset κ) :
    HasFootprint look (fun s => (s, r)) S where
  frame _ _ _ := rfl
  answer _ _ _ := rfl
  writes _ _ h := h

section Disjoint
variable {f : σ → σ × ρ} {g : σ → σ × τ} {S T : Finset κ}

theorem HasFootprint.agree_after (hg : HasFootprint look g T) (hdisj : Disjoint S T) (s : σ) :
    AgreeOn look S (g s).1 s := by
  intro k hk
  exact hg.frame s k (Finset.disjoint_left.mp hdisj hk)

theorem HasFootprint.answer_after (hf : HasFootprint look f S) (hg : HasFootprint look g T)
    (hdisj : Disjoint S T) (s : σ) : (f (g s).1).2 = (f s).2 :=
  hf.answer _ _ (hg.agree_after hdisj s)

theorem HasFootprint.writes_after (hf : HasFootprint look f S) (hg : HasFootprint look g T)
    (hdisj : Disjoint S T) (s : σ) {k : κ} (hk : k ∈ S) :
    look (f (g s).1).1 k = look (g (f s).1).1 k := by
  have hout : k ∉ T := Finset.disjoint_left.mp hdisj hk
  rw [hf.writes _ _ (hg.agree_after hdisj s) k hk, hg.frame _ k hout]

theorem HasFootprint.commute (hf : HasFootprint look f S) (hg : HasFootprint look g T)
    (hdisj : Disjoint S T) (s : σ) : look (g (f s).1).1 = look (f (g s).1).1 := by
  funext k
  by_cases hS : k ∈ S
  · exact (hf.writes_after hg hdisj s hS).symm
  · by_cases hT : k ∈ T
    · exact hg.writes_after hf hdisj.symm s hT
    · rw [hg.frame _ k hT, hf.frame _ k hS, hf.frame _ k hS, hg.frame _ k hT]

end Disjoint
end Footprints
