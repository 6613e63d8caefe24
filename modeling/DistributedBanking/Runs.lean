import Mathlib.Data.List.Forall2
import Mathlib.Data.List.Induction

/-!
# Runs of a partial step function

A run folds a step function that may fail over a list of inputs. The invariant
rule shows that a run does not fail and what holds at its end. `EveryStep` says
that each step of a run succeeds and relates its states; two such properties
agree on a run when they agree step by step under an invariant.
-/

namespace Runs
variable {ε σ α : Type}

-- Not by `rfl`: `simp` would then rewrite by unfolding, and the kernel would repeat it.
theorem ok_bind {ε α β : Type} (a : α) (f : α → Except ε β) : (Except.ok a >>= f) = f a := id rfl

theorem error_bind {ε α β : Type} (e : ε) (f : α → Except ε β) :
    ((Except.error e : Except ε α) >>= f) = .error e := id rfl

/-- The invariant rule for a run that may fail: it does not, and the invariant holds at its end.
The invariant may look at the inputs to come. -/
theorem foldlM_invariant_rest {f : σ → α → Except ε σ} {I : σ → List α → Prop}
    (hstep : ∀ s a as, I s (a :: as) → ∃ s', f s a = .ok s' ∧ I s' as) {as : List α} {s : σ}
    (hI : I s as) : ∃ s', as.foldlM f s = .ok s' ∧ I s' [] := by
  induction as generalizing s with
  | nil => exact ⟨s, rfl, hI⟩
  | cons a as ih =>
    obtain ⟨t, ht, hIt⟩ := hstep s a as hI
    obtain ⟨s', hs', hIs⟩ := ih hIt
    exact ⟨s', by rw [List.foldlM_cons, ht, ok_bind, hs'], hIs⟩

theorem foldlM_invariant {f : σ → α → Except ε σ} {P : σ → Prop}
    (hstep : ∀ s a, P s → ∃ s', f s a = .ok s' ∧ P s') (as : List α) {s : σ} (hs : P s) :
    ∃ s', as.foldlM f s = .ok s' ∧ P s' :=
  foldlM_invariant_rest (I := fun s _ => P s) (fun s a _ => hstep s a) hs

theorem foldlM_snoc {f : σ → α → Except ε σ} {s s' : σ} {as : List α} {a : α} :
    (as ++ [a]).foldlM f s = .ok s' ↔ ∃ t, as.foldlM f s = .ok t ∧ f t a = .ok s' := by
  rw [List.foldlM_append]
  cases as.foldlM f s with
  | error e => simp [error_bind]
  | ok t => simp [ok_bind]

/-- What holds at the start and is kept by each step holds at the end of a run that succeeds. The
property may look at the inputs so far. -/
theorem run_induction {f : σ → α → Except ε σ} {P : List α → σ → Prop} {s₀ : σ} (hstart : P [] s₀)
    (hstep : ∀ as s a s', as.foldlM f s₀ = .ok s → P as s → f s a = .ok s' → P (as ++ [a]) s')
    {as : List α} {s : σ} (hrun : as.foldlM f s₀ = .ok s) : P as s := by
  induction as using List.reverseRecOn generalizing s with
  | nil =>
    cases hrun
    exact hstart
  | append_singleton as a ih =>
    obtain ⟨t, ht, hlast⟩ := foldlM_snoc.mp hrun
    exact hstep as t a s ht (ih ht) hlast

/-- A step by step simulation carries over to runs, with an input of one system for each input of
the other. -/
theorem foldlM_simulation {τ β : Type} {f : σ → α → Except ε σ} {g : τ → β → Except ε τ}
    {R : σ → τ → Prop} {Q : α → β → Prop}
    (hstep : ∀ s t a, R s t → ∃ s' b t', f s a = .ok s' ∧ Q a b ∧ g t b = .ok t' ∧ R s' t')
    (as : List α) {s : σ} {t : τ} (h : R s t) :
    ∃ s' bs t', as.foldlM f s = .ok s' ∧ List.Forall₂ Q as bs ∧ bs.foldlM g t = .ok t' ∧
      R s' t' := by
  induction as generalizing s t with
  | nil => exact ⟨s, [], t, rfl, .nil, rfl, h⟩
  | cons a as ih =>
    obtain ⟨s₁, b, t₁, hf, hQ, hg, hR⟩ := hstep s t a h
    obtain ⟨s', bs, t', hs', hQs, ht', hend⟩ := ih hR
    refine ⟨s', b :: bs, t', ?_, .cons hQ hQs, ?_, hend⟩
    · rw [List.foldlM_cons, hf, ok_bind, hs']
    · rw [List.foldlM_cons, hg, ok_bind, ht']

/-- A run does not fail exactly when none of its steps fails in the state it is taken from. -/
theorem exists_foldlM_iff {f : σ → α → Except ε σ} {s₀ : σ} {as : List α} :
    (∃ s, as.foldlM f s₀ = .ok s) ↔
      ∀ as₁ a as₂ s, as = as₁ ++ a :: as₂ → as₁.foldlM f s₀ = .ok s → ∃ s', f s a = .ok s' := by
  constructor
  · intro hrun as₁ a as₂ s hsplit hs
    obtain ⟨t, ht⟩ := hrun
    rw [hsplit, List.foldlM_append, hs, ok_bind, List.foldlM_cons] at ht
    rcases hstep : f s a with e | s'
    · rw [hstep, error_bind] at ht
      cases ht
    · exact ⟨s', rfl⟩
  · intro hsteps
    induction as using List.reverseRecOn with
    | nil => exact ⟨s₀, rfl⟩
    | append_singleton as a ih =>
      obtain ⟨t, ht⟩ := ih fun as₁ b as₂ s hsplit =>
        hsteps as₁ b (as₂ ++ [a]) s (by rw [hsplit]; simp)
      obtain ⟨s', hs'⟩ := hsteps as a [] t rfl ht
      exact ⟨s', foldlM_snoc.mpr ⟨t, ht, hs'⟩⟩

theorem exists_of_check {x : Except ε σ} {p : σ → Bool} (h : x.toOption.any p = true) :
    ∃ s, x = .ok s ∧ p s = true := by
  cases x with
  | error e => simp [Except.toOption] at h
  | ok s => exact ⟨s, rfl, h⟩

theorem eq_of_check {β : Type} {x : Except ε σ} {s : σ} {f : σ → β} {b : β} (hx : x = .ok s)
    (h : x.toOption.map f = some b) : f s = b := by
  rw [hx] at h
  exact Option.some.inj h

def EveryStep (f : σ → α → Except ε σ) (P : σ → α → σ → Prop) : σ → List α → Prop
  | _, [] => True
  | s, a :: as => ∃ s', f s a = .ok s' ∧ P s a s' ∧ EveryStep f P s' as

variable {f : σ → α → Except ε σ}

/-- Two properties of steps hold along a run or fail along it together, when they agree at each
step from an invariant that one of them keeps. The invariant may look at the inputs to come. -/
theorem everyStep_congr {P Q : σ → α → σ → Prop} {I : σ → List α → Prop}
    (hstep : ∀ s a as, I s (a :: as) →
      ∃ s', f s a = .ok s' ∧ (P s a s' ↔ Q s a s') ∧ (Q s a s' → I s' as))
    {s : σ} {as : List α} (hI : I s as) : EveryStep f P s as ↔ EveryStep f Q s as := by
  induction as generalizing s with
  | nil => simp [EveryStep]
  | cons a as ih =>
    obtain ⟨s', hs', hPQ, hnext⟩ := hstep s a as hI
    constructor
    · intro hstep
      obtain ⟨t, ht, hP, hrest⟩ := hstep
      rw [hs'] at ht
      cases ht
      have hQ := hPQ.mp hP
      exact ⟨s', hs', hQ, (ih (hnext hQ)).mp hrest⟩
    · intro hstep
      obtain ⟨t, ht, hQ, hrest⟩ := hstep
      rw [hs'] at ht
      cases ht
      exact ⟨s', hs', hPQ.mpr hQ, (ih (hnext hQ)).mpr hrest⟩

theorem EveryStep.last {P : σ → Prop} {s : σ} {as : List α}
    (h : EveryStep f (fun _ _ s' => P s') s as) (hs : P s) :
    ∃ s', as.foldlM f s = .ok s' ∧ P s' := by
  induction as generalizing s with
  | nil => exact ⟨s, rfl, hs⟩
  | cons a as ih =>
    obtain ⟨t, ht, hPt, hrest⟩ := h
    obtain ⟨s', hs', hP⟩ := ih hrest hPt
    exact ⟨s', by rw [List.foldlM_cons, ht, ok_bind, hs'], hP⟩

theorem everyStep_input {Q : α → Prop} (htotal : ∀ s a, ∃ s', f s a = .ok s') {s : σ}
    {as : List α} : EveryStep f (fun _ a _ => Q a) s as ↔ ∀ a ∈ as, Q a := by
  induction as generalizing s with
  | nil => simp [EveryStep]
  | cons a as ih =>
    obtain ⟨s', hs'⟩ := htotal s a
    simp only [EveryStep, hs', Except.ok.injEq, exists_eq_left', ih, List.mem_cons,
      forall_eq_or_imp]

section Outputs
variable {τ ρ : Type}

/-- The states and the outputs of a machine that runs for ever from an invariant. -/
theorem exists_sequence {f : ℕ → σ → Except ε (σ × ρ)} {J : ℕ → σ → Prop} {Q : ℕ → ρ → Prop}
    {s : σ} (hs : J 0 s)
    (hstep : ∀ i s, J i s → ∃ s' r, f i s = .ok (s', r) ∧ Q i r ∧ J (i + 1) s') :
    ∃ (states : ℕ → σ) (out : ℕ → ρ), states 0 = s ∧
      ∀ i, J i (states i) ∧ f i (states i) = .ok (states (i + 1), out i) ∧ Q i (out i) := by
  choose next output hnext using hstep
  let states : (i : ℕ) → { t : σ // J i t } := fun i =>
    Nat.rec ⟨s, hs⟩ (fun i t => ⟨next i t.1 t.2, (hnext i t.1 t.2).2.2⟩) i
  exact ⟨fun i => (states i).1, fun i => output i (states i).1 (states i).2, rfl, fun i =>
    ⟨(states i).2, (hnext i (states i).1 (states i).2).1, (hnext i (states i).1 (states i).2).2.1⟩⟩

def outputs (f : σ → α → Except ε (σ × ρ)) : σ → List α → Except ε (σ × List ρ)
  | s, [] => .ok (s, [])
  | s, a :: as => do
    let (s, r) ← f s a
    let (s, rs) ← outputs f s as
    return (s, r :: rs)

/-- Two systems put out the same when related states do; the relation may look at the inputs to
come. -/
theorem outputs_lockstep_rest {f : σ → α → Except ε (σ × ρ)} {g : τ → α → Except ε (τ × ρ)}
    {R : σ → τ → List α → Prop}
    (hstep : ∀ s t a as, R s t (a :: as) →
      ∃ s' t' r, f s a = .ok (s', r) ∧ g t a = .ok (t', r) ∧ R s' t' as) {as : List α} {s : σ}
    {t : τ} (h : R s t as) :
    ∃ s' t' rs, outputs f s as = .ok (s', rs) ∧ outputs g t as = .ok (t', rs) ∧ R s' t' [] := by
  induction as generalizing s t with
  | nil => exact ⟨s, t, [], rfl, rfl, h⟩
  | cons a as ih =>
    obtain ⟨s₁, t₁, r, hf, hg, hR⟩ := hstep s t a as h
    obtain ⟨s', t', rs, hs, ht, hend⟩ := ih hR
    refine ⟨s', t', r :: rs, ?_, ?_, hend⟩
    · rw [outputs, hf, ok_bind]
      simp only [hs, ok_bind]
      rfl
    · rw [outputs, hg, ok_bind]
      simp only [ht, ok_bind]
      rfl

theorem outputs_lockstep {f : σ → α → Except ε (σ × ρ)} {g : τ → α → Except ε (τ × ρ)}
    {R : σ → τ → Prop} {as : List α}
    (hstep : ∀ s t, ∀ a ∈ as, R s t →
      ∃ s' t' r, f s a = .ok (s', r) ∧ g t a = .ok (t', r) ∧ R s' t') {s : σ} {t : τ}
    (h : R s t) :
    ∃ s' t' rs, outputs f s as = .ok (s', rs) ∧ outputs g t as = .ok (t', rs) ∧ R s' t' := by
  have hnext : ∀ s t a rest, (R s t ∧ ∀ b ∈ a :: rest, b ∈ as) →
      ∃ s' t' r, f s a = .ok (s', r) ∧ g t a = .ok (t', r) ∧ R s' t' ∧ ∀ b ∈ rest, b ∈ as := by
    rintro s t a rest ⟨hR, hmem⟩
    obtain ⟨s', t', r, hf, hg, hR'⟩ := hstep s t a (hmem a List.mem_cons_self) hR
    exact ⟨s', t', r, hf, hg, hR', fun b hb => hmem b (List.mem_cons_of_mem a hb)⟩
  obtain ⟨s', t', rs, hs, ht, hR, -⟩ := outputs_lockstep_rest
    (R := fun s t rest => R s t ∧ ∀ b ∈ rest, b ∈ as) hnext ⟨h, fun b hb => hb⟩
  exact ⟨s', t', rs, hs, ht, hR⟩

end Outputs
end Runs
