import Mathlib.Tactic
import Mathlib.Logic.Function.Basic

/-!
# Suppressing duplicate requests

A machine executes inputs and files each one under a key, or under no key when
it turns the input away. The cached machine executes an input only when its key
has no recorded reply and answers from the record otherwise.

`run_firsts` compares a whole run with the run on the first input of each key.
The logged machine keeps every execution with its reply; `Recorded` says that
cache and log agree and that no key was executed twice.
-/

namespace Dedup
variable {σ ι κ ρ : Type*}

structure Machine (σ ι κ ρ : Type*) where
  exec : σ → ι → σ × ρ
  key : ι → Option κ

structure State (σ κ ρ : Type*) where
  inner : σ
  cache : κ → Option ρ

/-- The inputs with a key that is not in `seen` and that no earlier input has. -/
def firsts [DecidableEq κ] (key : ι → Option κ) : (κ → Bool) → List ι → List ι
  | _, [] => []
  | seen, x :: xs =>
    match key x with
    | none => firsts key seen xs
    | some k =>
      if seen k then firsts key seen xs
      else x :: firsts key (Function.update seen k true) xs

namespace Machine

/-- The machine that also keeps each execution with its reply, oldest first. -/
def logged (m : Machine σ ι κ ρ) : Machine (σ × List (ι × ρ)) ι κ ρ where
  exec s x :=
    let out := m.exec s.1 x
    ((out.1, s.2 ++ [(x, out.2)]), out.2)
  key := m.key

@[simp] theorem logged_key (m : Machine σ ι κ ρ) (x : ι) : m.logged.key x = m.key x := rfl

variable [DecidableEq κ]

def step (m : Machine σ ι κ ρ) (s : State σ κ ρ) (x : ι) : State σ κ ρ × Option ρ :=
  match m.key x with
  | none => (s, none)
  | some k =>
    match s.cache k with
    | some r => (s, some r)
    | none =>
      let out := m.exec s.inner x
      (⟨out.1, Function.update s.cache k (some out.2)⟩, some out.2)

def run (m : Machine σ ι κ ρ) : State σ κ ρ → List ι → State σ κ ρ
  | s, [] => s
  | s, x :: xs => run m (m.step s x).1 xs

def replies (m : Machine σ ι κ ρ) : State σ κ ρ → List ι → List (Option ρ)
  | _, [] => []
  | s, x :: xs => (m.step s x).2 :: replies m (m.step s x).1 xs

variable (m : Machine σ ι κ ρ)

theorem step_of_no_key {s : State σ κ ρ} {x : ι} (h : m.key x = none) : m.step s x = (s, none) := by
  simp [step, h]

theorem step_of_cached {s : State σ κ ρ} {x : ι} {k : κ} {r : ρ} (h : m.key x = some k)
    (hc : s.cache k = some r) : m.step s x = (s, some r) := by
  simp [step, h, hc]

theorem step_of_fresh {s : State σ κ ρ} {x : ι} {k : κ} (h : m.key x = some k)
    (hc : s.cache k = none) :
    m.step s x = (⟨(m.exec s.inner x).1,
      Function.update s.cache k (some (m.exec s.inner x).2)⟩, some (m.exec s.inner x).2) := by
  simp [step, h, hc]

theorem step_cases (s : State σ κ ρ) (x : ι) :
    (m.step s x).1 = s ∨
      ∃ k, m.key x = some k ∧ s.cache k = none ∧
        (m.step s x).1 = ⟨(m.exec s.inner x).1,
          Function.update s.cache k (some (m.exec s.inner x).2)⟩ := by
  cases hk : m.key x with
  | none => exact .inl (by rw [m.step_of_no_key hk])
  | some k =>
    cases hc : s.cache k with
    | some r => exact .inl (by rw [m.step_of_cached hk hc])
    | none => exact .inr ⟨k, rfl, hc, by rw [m.step_of_fresh hk hc]⟩

theorem isSome_update (c : κ → Option ρ) (k : κ) (r : ρ) :
    (fun j => (Function.update c k (some r) j).isSome) =
      Function.update (fun j => (c j).isSome) k true := by
  funext j
  by_cases h : j = k
  · subst h; simp
  · simp [h]

/-- Duplicates leave no trace: the inputs that are first of their key lead to the same state. -/
theorem run_firsts (s : State σ κ ρ) (xs : List ι) :
    m.run s (firsts m.key (fun k => (s.cache k).isSome) xs) = m.run s xs := by
  induction xs generalizing s with
  | nil => rfl
  | cons x xs ih =>
    cases hk : m.key x with
    | none => simp only [firsts, hk, run, m.step_of_no_key hk, ih]
    | some k =>
      cases hc : s.cache k with
      | some r => simp only [firsts, hk, hc, Option.isSome_some, if_true, run,
          m.step_of_cached hk hc, ih]
      | none =>
        have htail := ih (m.step s x).1
        rw [m.step_of_fresh hk hc, isSome_update] at htail
        simp only [firsts, hk, hc, Option.isSome_none, Bool.false_eq_true, if_false, run,
          m.step_of_fresh hk hc, htail]

@[simp] theorem length_replies (s : State σ κ ρ) (xs : List ι) :
    (m.replies s xs).length = xs.length := by
  induction xs generalizing s with
  | nil => rfl
  | cons x xs ih => simp [replies, ih]

theorem step_cache {s : State σ κ ρ} {k : κ} {r : ρ} (x : ι) (h : s.cache k = some r) :
    (m.step s x).1.cache k = some r := by
  rcases m.step_cases s x with hsame | ⟨j, -, hc, hstep⟩
  · rw [hsame]
    exact h
  · have hne : k ≠ j := by
      intro hsame
      subst hsame
      rw [h] at hc
      cases hc
    rw [hstep]
    exact (Function.update_of_ne hne _ _).trans h

theorem step_reply {s : State σ κ ρ} {x : ι} {k : κ} (h : m.key x = some k) :
    ∃ r, (m.step s x).2 = some r ∧ (m.step s x).1.cache k = some r := by
  cases hc : s.cache k with
  | some r => exact ⟨r, by rw [m.step_of_cached h hc], by rw [m.step_of_cached h hc]; exact hc⟩
  | none => exact ⟨(m.exec s.inner x).2, by rw [m.step_of_fresh h hc],
      by rw [m.step_of_fresh h hc]; exact Function.update_self _ _ _⟩

theorem replies_of_cached {s : State σ κ ρ} {xs : List ι} {k : κ} {r : ρ}
    (hc : s.cache k = some r) {j : ℕ} (hj : j < xs.length) (hk : m.key xs[j] = some k) :
    (m.replies s xs)[j]? = some (some r) := by
  induction xs generalizing s j with
  | nil => simp at hj
  | cons x xs ih =>
    cases j with
    | zero =>
      simp only [List.getElem_cons_zero] at hk
      simp [replies, m.step_of_cached hk hc]
    | succ j =>
      simp only [List.getElem_cons_succ] at hk
      simpa [replies] using ih (m.step_cache x hc) (by simpa using hj) hk

theorem replies_same_key (s : State σ κ ρ) {xs : List ι} {i j : ℕ} (hij : i ≤ j)
    (hj : j < xs.length) {k : κ} (hi : m.key xs[i] = some k) (hk : m.key xs[j] = some k) :
    ∃ r, (m.replies s xs)[i]? = some (some r) ∧ (m.replies s xs)[j]? = some (some r) := by
  induction xs generalizing s i j with
  | nil => simp at hj
  | cons x xs ih =>
    cases i with
    | zero =>
      simp only [List.getElem_cons_zero] at hi
      obtain ⟨r, hr, hcache⟩ := m.step_reply (s := s) hi
      refine ⟨r, by simp [replies, hr], ?_⟩
      cases j with
      | zero => simp [replies, hr]
      | succ j =>
        simp only [List.getElem_cons_succ] at hk
        simpa [replies] using m.replies_of_cached hcache (by simpa using hj) hk
    | succ i =>
      cases j with
      | zero => omega
      | succ j =>
        simp only [List.getElem_cons_succ] at hi hk
        simpa [replies] using ih (m.step s x).1 (by omega) (by simpa using hj) hi hk

theorem logged_step_inner (s : State (σ × List (ι × ρ)) κ ρ) (x : ι) :
    (m.logged.step s x).1.inner.1 = (m.step ⟨s.inner.1, s.cache⟩ x).1.inner ∧
      (m.logged.step s x).1.cache = (m.step ⟨s.inner.1, s.cache⟩ x).1.cache ∧
      (m.logged.step s x).2 = (m.step ⟨s.inner.1, s.cache⟩ x).2 := by
  cases hk : m.key x with
  | none => simp [step, hk]
  | some k =>
    cases hc : s.cache k with
    | some r => simp [step, hk, hc]
    | none => simp [step, hk, hc, logged]

theorem logged_step_mem {s : State (σ × List (ι × ρ)) κ ρ} {e : ι × ρ} (he : e ∈ s.inner.2)
    (x : ι) : e ∈ (m.logged.step s x).1.inner.2 := by
  rcases m.logged.step_cases s x with hsame | ⟨k, -, -, hstep⟩
  · rw [hsame]
    exact he
  · rw [hstep]
    exact List.mem_append_left _ he

theorem logged_step_log (s : State (σ × List (ι × ρ)) κ ρ) (x : ι) {e : ι × ρ}
    (he : e ∈ (m.logged.step s x).1.inner.2) : e ∈ s.inner.2 ∨ e.1 = x := by
  rcases m.logged.step_cases s x with hsame | ⟨k, -, -, hstep⟩
  · rw [hsame] at he
    exact .inl he
  · rw [hstep] at he
    rcases List.mem_append.mp he with he | he
    · exact .inl he
    · rw [List.mem_singleton.mp he]
      exact .inr rfl

end Machine

/-- Cache and log agree, no key was executed twice, and each reply is what some execution gave. -/
structure Recorded (m : Machine σ ι κ ρ) (s : State (σ × List (ι × ρ)) κ ρ) : Prop where
  computed : ∀ e ∈ s.inner.2, ∃ a, (m.exec a e.1).2 = e.2
  cached : ∀ k r, s.cache k = some r → ∃ x, (x, r) ∈ s.inner.2 ∧ m.key x = some k
  filed : ∀ e ∈ s.inner.2, ∃ k, m.key e.1 = some k ∧ s.cache k = some e.2
  once : s.inner.2.Pairwise fun a b => m.key a.1 ≠ m.key b.1

namespace Recorded
variable {m : Machine σ ι κ ρ} {s : State (σ × List (ι × ρ)) κ ρ}

theorem initial (a : σ) : Recorded m (⟨(a, []), fun _ => none⟩ : State (σ × List (ι × ρ)) κ ρ) where
  computed := by simp
  cached := by simp
  filed := by simp
  once := List.Pairwise.nil

theorem withInner (h : Recorded m s) (a : σ) : Recorded m ⟨(a, s.inner.2), s.cache⟩ :=
  ⟨h.computed, h.cached, h.filed, h.once⟩

variable [DecidableEq κ]

theorem step (h : Recorded m s) (x : ι) : Recorded m (m.logged.step s x).1 := by
  rcases m.logged.step_cases s x with hsame | ⟨k, hk, hc, hstep⟩
  · rwa [hsame]
  have hnew : ∀ e ∈ s.inner.2, m.key e.1 ≠ some k := by
    intro e he hek
    obtain ⟨j, hj, hcache⟩ := h.filed e he
    rw [hek] at hj
    cases hj
    rw [hc] at hcache
    cases hcache
  rw [hstep]
  refine ⟨?_, ?_, ?_, ?_⟩
  · intro e he
    rcases List.mem_append.mp he with he | he
    · exact h.computed e he
    · rw [List.mem_singleton] at he
      exact ⟨s.inner.1, by rw [he]⟩
  · intro j r hj
    by_cases hjk : j = k
    · subst hjk
      simp only [Function.update_self, Option.some.injEq] at hj
      exact ⟨x, by simp [Machine.logged, ← hj], hk⟩
    · simp only [Function.update_of_ne hjk] at hj
      obtain ⟨y, hy, hyk⟩ := h.cached j r hj
      exact ⟨y, List.mem_append_left _ hy, hyk⟩
  · intro e he
    rcases List.mem_append.mp he with he | he
    · obtain ⟨j, hj, hcache⟩ := h.filed e he
      have hne : j ≠ k := fun hjk => hnew e he (hjk ▸ hj)
      exact ⟨j, hj, (Function.update_of_ne hne _ _).trans hcache⟩
    · rw [List.mem_singleton] at he
      subst he
      exact ⟨k, hk, Function.update_self _ _ _⟩
  · refine List.pairwise_append.mpr ⟨h.once, List.pairwise_singleton _ _, ?_⟩
    intro a ha b hb
    rw [List.mem_singleton] at hb
    subst hb
    rw [← m.logged_key x, hk]
    exact hnew a ha

theorem reply (h : Recorded m s) {x : ι} {r : ρ} (hr : (m.logged.step s x).2 = some r) :
    ∃ y, (y, r) ∈ (m.logged.step s x).1.inner.2 ∧ m.key y = m.key x := by
  cases hk : m.key x with
  | none =>
    rw [m.logged.step_of_no_key (by simpa using hk)] at hr
    cases hr
  | some k =>
    obtain ⟨r', hr', hcache⟩ := m.logged.step_reply (s := s) (x := x) (k := k) (by simpa using hk)
    rw [hr] at hr'
    cases hr'
    exact (h.step x).cached k r hcache

omit [DecidableEq κ] in
theorem unique (h : Recorded m s) {a b : ι × ρ} (ha : a ∈ s.inner.2) (hb : b ∈ s.inner.2)
    (hkey : m.key a.1 = m.key b.1) : a = b := by
  have hsymm : Std.Symm fun a b : ι × ρ => m.key a.1 ≠ m.key b.1 := ⟨fun _ _ hab => hab.symm⟩
  by_contra hne
  exact h.once.forall ha hb hne hkey

omit [DecidableEq κ] in
theorem countP_le_one (h : Recorded m s) {p : ι × ρ → Bool} {k : κ}
    (hp : ∀ e ∈ s.inner.2, p e = true → m.key e.1 = some k) : s.inner.2.countP p ≤ 1 := by
  have hfilter := h.once.filter p
  rw [List.countP_eq_length_filter]
  rcases hl : s.inner.2.filter p with _ | ⟨a, _ | ⟨b, rest⟩⟩
  · exact Nat.zero_le _
  · exact le_rfl
  · have ha := List.mem_filter.mp (hl ▸ List.mem_cons_self : a ∈ s.inner.2.filter p)
    have hb := List.mem_filter.mp
      (hl ▸ List.mem_cons_of_mem _ List.mem_cons_self : b ∈ s.inner.2.filter p)
    rw [hl] at hfilter
    have hne := List.rel_of_pairwise_cons hfilter List.mem_cons_self
    exact absurd ((hp a ha.1 ha.2).trans (hp b hb.1 hb.2).symm) hne

end Recorded
end Dedup
