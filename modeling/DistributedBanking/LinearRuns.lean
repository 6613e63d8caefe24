import DistributedBanking.Linearization

/-!
# Runs of linearizable threads

When every thread is verified, each run has a history: the threads that have
taken effect so far, in the order of their effects. The specification's state is
reached by performing the history, a thread that has ended is in it with its
result, and a thread that ended before another began comes before it.
-/

namespace Threads
open Runs

section Histories
variable {ι L S σ ρ : Type} [DecidableEq ι] [DecidableEq L] {c₀ c c' : Config ι L S ρ}
  {sched sched' : List ι} {i j : ι} {r : ρ}

theorem done_stays (hrun : sched.foldlM step c = .ok c') (hdone : c.threads i = .done r) :
    c'.threads i = .done r := by
  refine run_induction (P := fun _ d => d.threads i = .done r) hdone ?_ hrun
  intro _ d j d' _ ih hstep
  have hne : i ≠ j := by
    intro hsame
    subst hsame
    simp [step, ih] at hstep
  rcases step_cases hstep with ⟨f, k, -, rfl⟩ | ⟨o, l, k, locks, -, -, rfl⟩
  · exact (Function.update_of_ne hne _ _).trans ih
  · exact (Function.update_of_ne hne _ _).trans ih

theorem untouched (hrun : sched.foldlM step c = .ok c') (hi : i ∉ sched) :
    c'.threads i = c.threads i := by
  refine run_induction (P := fun as d => i ∉ as → d.threads i = c.threads i) (fun _ => rfl) ?_ hrun
    hi
  intro as d j d' _ ih hstep hnew
  rw [List.mem_append, List.mem_singleton, not_or] at hnew
  rcases step_cases hstep with ⟨f, k, -, rfl⟩ | ⟨o, l, k, locks, -, -, rfl⟩
  · exact (Function.update_of_ne hnew.2 _ _).trans (ih hnew.1)
  · exact (Function.update_of_ne hnew.2 _ _).trans (ih hnew.1)

/-- A thread that had ended before another took its first step comes before it. -/
def RealTime (c₀ : Config ι L S ρ) (sched : List ι) (history : List (ι × ρ)) : Prop :=
  ∀ sched₁ sched₂ d i r, sched = sched₁ ++ sched₂ → sched₁.foldlM step c₀ = .ok d →
    d.threads i = .done r → i ∈ ids history → ∀ j ∈ ids history, j ∉ sched₁ →
      [i, j].Sublist (ids history)

/-- The history of a run that has led to the state `a` of the specification. -/
structure Chronicle (spec : ι → σ → σ → ρ → Prop) (c₀ : Config ι L S ρ) (sched : List ι)
    (a₀ : σ) (history : List (ι × ρ)) (a : σ) : Prop where
  serial : Serial spec a₀ history a
  once : (ids history).Nodup
  began : ∀ i ∈ ids history, i ∈ sched
  realTime : RealTime c₀ sched history

variable {spec : ι → σ → σ → ρ → Prop} {a₀ a a' : σ} {history : List (ι × ρ)}

theorem Chronicle.empty (c₀ : Config ι L S ρ) (a₀ : σ) : Chronicle spec c₀ [] a₀ [] a₀ where
  serial := .nil
  once := List.nodup_nil
  began i hi := by cases hi
  realTime _ _ _ i _ _ _ _ hi := by cases hi

omit [DecidableEq ι] in
theorem snoc_split {sched₁ sched₂ : List ι} (h : sched ++ [j] = sched₁ ++ sched₂) :
    sched₁ = sched ++ [j] ∨ ∃ sched₂', sched = sched₁ ++ sched₂' := by
  rcases List.eq_nil_or_concat sched₂ with rfl | ⟨sched₂', k, rfl⟩
  · left
    rw [h, List.append_nil]
  · right
    rw [List.concat_eq_append, ← List.append_assoc] at h
    exact ⟨sched₂', (List.append_inj' h rfl).1⟩

theorem Chronicle.stays (h : Chronicle spec c₀ sched a₀ history a) (j : ι) :
    Chronicle spec c₀ (sched ++ [j]) a₀ history a where
  serial := h.serial
  once := h.once
  began i hi := List.mem_append_left _ (h.began i hi)
  realTime := by
    intro sched₁ sched₂ d i r hsplit hd hdone hi j hj hnew
    rcases snoc_split hsplit with rfl | ⟨sched₂', hsplit'⟩
    · exact absurd (List.mem_append_left _ (h.began j hj)) hnew
    · exact h.realTime sched₁ sched₂' d i r hsplit' hd hdone hi j hj hnew

theorem Chronicle.commits (h : Chronicle spec c₀ sched a₀ history a)
    (hrun : sched.foldlM step c₀ = .ok c) (hstep : step c j = .ok c') (hj : j ∉ ids history)
    (hspec : spec j a a' r) :
    Chronicle spec c₀ (sched ++ [j]) a₀ (history ++ [(j, r)]) a' where
  serial := .snoc h.serial hspec
  once := by
    rw [ids, List.map_append]
    exact h.once.append (List.nodup_singleton j) (List.disjoint_singleton.mpr hj)
  began i hi := by
    rw [ids, List.map_append, List.mem_append] at hi
    rcases hi with hi | hi
    · exact List.mem_append_left _ (h.began i hi)
    · rw [List.mem_singleton.mp hi]
      exact List.mem_append_right _ (List.mem_singleton_self j)
  realTime := by
    intro sched₁ sched₂ d i r hsplit hd hdone hi k hk hnew
    rw [ids, List.map_append, List.mem_append] at hi hk
    rcases snoc_split hsplit with rfl | ⟨sched₂', hsplit'⟩
    · rcases hk with hk | hk
      · exact absurd (List.mem_append_left _ (h.began k hk)) hnew
      · exact absurd (List.mem_append_right _ hk) hnew
    rw [ids, List.map_append]
    rcases hi with hi | hi
    · rcases hk with hk | hk
      · exact (h.realTime sched₁ sched₂' d i _ hsplit' hd hdone hi k hk hnew).trans
          (List.sublist_append_left _ _)
      · exact (List.singleton_sublist.mpr hi).append (List.singleton_sublist.mpr hk)
    · -- Thread `j` is about to step, so it had not ended.
      rw [List.mem_singleton.mp hi] at hdone
      rw [hsplit', List.foldlM_append, hd, ok_bind] at hrun
      simp [step, done_stays hrun hdone] at hstep

end Histories

section Soundness
variable {ι L S σ ρ : Type} [DecidableEq ι] [DecidableEq L]

/-- How the threads have one lock, as its writer and its readers tell. -/
structure Shared (rw : Bool) (writer : Option ι) (readers : Finset ι) (hold : ι → Option Hold) :
    Prop where
  writes : ∀ i, writer = some i ↔ hold i = some .waiting ∨ hold i = some .sole
  reads : ∀ i, i ∈ readers ↔ hold i = some .shared
  alone : ∀ i, hold i = some .sole → readers = ∅
  mutex : rw = false → readers = ∅

namespace Shared
variable {rw : Bool} {readers : Finset ι} {hold : ι → Option Hold} {i : ι}

omit [DecidableEq ι] in
theorem not_sole (h : Shared rw none readers hold) (i : ι) : hold i ≠ some .sole := by
  intro hi
  have hw := (h.writes i).mpr (.inr hi)
  cases hw

theorem lock (h : Shared rw none readers hold) (hi : hold i = none) :
    Shared rw (some i) readers
      (Function.update hold i (some (if rw then .waiting else .sole))) where
  writes j := by
    by_cases hj : j = i
    · subst hj
      cases rw <;> simp
    · have hnone := h.writes j
      simp only [reduceCtorEq, false_iff] at hnone
      simpa [hj, Ne.symm hj] using hnone
  reads j := by
    by_cases hj : j = i
    · subst hj
      have hread := h.reads j
      cases rw <;> simp_all
    · simpa [hj] using h.reads j
  alone j hj := by
    cases hrw : rw with
    | false => exact h.mutex hrw
    | true =>
      by_cases hij : j = i
      · subst hij
        simp [hrw] at hj
      · rw [Function.update_of_ne hij] at hj
        exact absurd hj (h.not_sole j)
  mutex := h.mutex

theorem drain {writer : Option ι} (h : Shared rw writer readers hold) (hi : hold i = some .waiting)
    (hr : readers = ∅) : Shared rw writer readers (Function.update hold i (some .sole)) where
  writes j := by
    by_cases hj : j = i
    · subst hj
      simpa [hi] using h.writes j
    · simpa [hj] using h.writes j
  reads j := by
    by_cases hj : j = i
    · subst hj
      simp [hr]
    · simpa [hj] using h.reads j
  alone _ _ := hr
  mutex := h.mutex

theorem unlock (h : Shared rw (some i) readers hold) :
    Shared rw none readers (Function.update hold i none) where
  writes j := by
    by_cases hj : j = i
    · subst hj
      simp
    · simpa [hj, Ne.symm hj] using h.writes j
  reads j := by
    by_cases hj : j = i
    · subst hj
      have hw := h.writes j
      have hr := h.reads j
      simp only [true_iff] at hw
      rcases hw with hw | hw <;> simp_all
    · simpa [hj] using h.reads j
  alone j hj := by
    by_cases hij : j = i
    · subst hij
      simp at hj
    · rw [Function.update_of_ne hij] at hj
      have hw := (h.writes j).mpr (.inr hj)
      exact absurd (Option.some.inj hw).symm hij
  mutex := h.mutex

theorem rlock (h : Shared true none readers hold) (hi : hold i = none) :
    Shared true none (insert i readers) (Function.update hold i (some .shared)) where
  writes j := by
    by_cases hj : j = i
    · subst hj
      simp
    · simpa [hj] using h.writes j
  reads j := by
    by_cases hj : j = i
    · subst hj
      simp
    · simpa [hj] using h.reads j
  alone j hj := by
    by_cases hij : j = i
    · subst hij
      simp at hj
    · rw [Function.update_of_ne hij] at hj
      exact absurd hj (h.not_sole j)
  mutex hrw := by cases hrw

theorem runlock {writer : Option ι} (h : Shared rw writer readers hold)
    (hi : hold i = some .shared) :
    Shared rw writer (readers.erase i) (Function.update hold i none) where
  writes j := by
    by_cases hj : j = i
    · subst hj
      simpa [hi] using h.writes j
    · simpa [hj] using h.writes j
  reads j := by
    by_cases hj : j = i
    · subst hj
      simp
    · simpa [hj] using h.reads j
  alone j hj := by
    by_cases hij : j = i
    · subst hij
      simp at hj
    · rw [Function.update_of_ne hij] at hj
      rw [h.alone j hj, Finset.erase_empty]
  mutex hrw := by rw [h.mutex hrw, Finset.erase_empty]

end Shared

def Holding (rw : L → Bool) (locks : Locks L ι) (held : ι → Holds L) : Prop :=
  ∀ l, Shared (rw l) (locks.writer l) (locks.readers l) fun i => held i l

def setHold (held : ι → Holds L) (i : ι) (l : L) (h : Option Hold) : ι → Holds L :=
  Function.update held i (Function.update (held i) l h)

variable {rw : L → Bool} {locks locks' : Locks L ι} {held : ι → Holds L} {i j : ι} {l : L}

theorem setHold_self (h : Option Hold) :
    (fun j => setHold held i l h j l) = Function.update (fun j => held j l) i h := by
  funext j
  by_cases hj : j = i
  · subst hj
    simp [setHold]
  · simp [setHold, hj]

theorem setHold_of_ne {l' : L} (hl : l' ≠ l) (h : Option Hold) :
    setHold held i l h j l' = held j l' := by
  by_cases hj : j = i
  · subst hj
    simp [setHold, hl]
  · simp [setHold, hj]

omit [DecidableEq ι] [DecidableEq L] in
theorem Holding.free : Holding rw (.free : Locks L ι) fun _ => .none := fun l =>
  { writes := fun i => by simp [Locks.free, Holds.none]
    reads := fun i => by simp [Locks.free, Holds.none]
    alone := fun i h => by cases h
    mutex := fun _ => rfl }

omit [DecidableEq ι] [DecidableEq L] in
theorem Holding.compatible (h : Holding rw locks held) (hij : i ≠ j) :
    (held i).Compatible (held j) := by
  intro l p q hp hq
  have hwriter : ¬ ((held i l = some .waiting ∨ held i l = some .sole) ∧
      (held j l = some .waiting ∨ held j l = some .sole)) := by
    intro hboth
    have hi := ((h l).writes i).mpr hboth.1
    have hj := ((h l).writes j).mpr hboth.2
    exact hij (Option.some.inj (hi.symm.trans hj))
  have hreader : ∀ i' j', held i' l = some .sole → held j' l ≠ some .shared := by
    intro i' j' hi hj
    have hmem := ((h l).reads j').mpr hj
    simp [(h l).alone i' hi] at hmem
  have hr := hreader i j
  have hr' := hreader j i
  cases p <;> cases q <;> simp_all [Hold.Compatible]

theorem Holding.set (h : Holding rw locks held) {q : Option Hold}
    (hothers : ∀ l', l' ≠ l → locks'.writer l' = locks.writer l' ∧
      locks'.readers l' = locks.readers l')
    (hl : Shared (rw l) (locks'.writer l) (locks'.readers l)
      (Function.update (fun j => held j l) i q)) :
    Holding rw locks' (setHold held i l q) := by
  intro l'
  by_cases hne : l' = l
  · subst hne
    rw [setHold_self]
    exact hl
  · obtain ⟨hw, hr⟩ := hothers l' hne
    simp only [setHold_of_ne hne, hw, hr]
    exact h l'

namespace Object
variable {P : Object ι L S σ ρ} {com : Option ρ} {x y : Snapshot ι S σ ρ}
  {rest : Holds L → Snapshot ι S σ ρ → Prop} {o : LockOp}

/-- A lock operation changes how its thread has the lock, and the rest of the program goes on from
there. -/
theorem wpSync_sound (hholding : Holding P.rw locks held)
    (happly : o.apply locks i l = .ok locks') (hsync : P.wpSync i l rest (held i) com x o)
    (hrely : P.rely (held i) x y) (hvalid : P.Valid i (held i) com y)
    (hfree : ∀ l, (∀ j, held j l ≠ some .sole) → P.free l y) :
    ∃ h, Holding P.rw locks' (setHold held i l h) ∧ rest (Function.update (held i) l h) y ∧
      ∀ l', (∀ j, setHold held i l h j l' ≠ some .sole) → P.free l' y := by
  have hothers : ∀ h, P.free l y →
      ∀ l', (∀ j, setHold held i l h j l' ≠ some .sole) → P.free l' y := by
    intro h hl l' hl'
    by_cases hne : l' = l
    · rw [hne]
      exact hl
    · refine hfree l' fun j => ?_
      have hj := hl' j
      rwa [setHold_of_ne hne] at hj
  have hlock := hholding l
  cases o with
  | lock =>
    obtain ⟨hw, rfl⟩ := LockOp.apply_lock.mp happly
    obtain ⟨hi, hrest⟩ := hsync
    rw [hw] at hlock
    have hl := hfree l hlock.not_sole
    refine ⟨_, hholding.set (fun l' hne => ⟨Function.update_of_ne hne .., rfl⟩) ?_,
      hrest y hrely hvalid hl, hothers _ hl⟩
    simp only [Function.update_self]
    exact hlock.lock hi
  | drain =>
    obtain ⟨⟨hw, hr⟩, rfl⟩ := LockOp.apply_drain.mp happly
    obtain ⟨hi, hrest⟩ := hsync
    have hl : P.free l y := by
      refine hfree l fun j hj => ?_
      have hsame := (hlock.writes j).mpr (.inr hj)
      rw [hw] at hsame
      cases hsame
      rw [hi] at hj
      cases hj
    exact ⟨_, hholding.set (fun _ _ => ⟨rfl, rfl⟩) (hlock.drain hi hr), hrest y hrely hvalid hl,
      hothers _ hl⟩
  | unlock =>
    obtain ⟨hw, rfl⟩ := LockOp.apply_unlock.mp happly
    obtain ⟨-, hrest⟩ := hsync
    obtain ⟨hl, hrest⟩ := hrest y hrely hvalid
    rw [hw] at hlock
    refine ⟨none, hholding.set (fun l' hne => ⟨Function.update_of_ne hne .., rfl⟩) ?_, hrest,
      hothers _ hl⟩
    simp only [Function.update_self]
    exact hlock.unlock
  | rlock =>
    obtain ⟨⟨hw, -⟩, rfl⟩ := LockOp.apply_rlock.mp happly
    obtain ⟨hi, hrw, hrest⟩ := hsync
    rw [hw, hrw] at hlock
    have hl := hfree l hlock.not_sole
    refine ⟨_, hholding.set (fun l' hne => ⟨rfl, Function.update_of_ne hne ..⟩) ?_,
      hrest y hrely hvalid hl, hothers _ hl⟩
    simp only [Function.update_self, hw, hrw]
    exact hlock.rlock hi
  | runlock =>
    obtain ⟨hr, rfl⟩ := LockOp.apply_runlock.mp happly
    obtain ⟨hi, hrest⟩ := hsync
    refine ⟨none, hholding.set (fun l' hne => ⟨rfl, Function.update_of_ne hne ..⟩) ?_,
      hrest y hrely hvalid, hothers _ (hvalid.reading l hi)⟩
    simp only [Function.update_self]
    exact hlock.runlock hi

end Object

variable {P : Object ι L S σ ρ} {c₀ c c' : Config ι L S ρ} {sched : List ι} {a₀ : σ}
  {y : Snapshot ι S σ ρ} {com : ι → Option ρ}

def Finished (r : ρ) (H : Holds L) (com : Option ρ) (_ : Snapshot ι S σ ρ) : Prop :=
  H = .none ∧ com = some r

/-- A thread is in the middle of its program, or had nothing to do from the start. -/
inductive Rests (P : Object ι L S σ ρ) (i : ι) (sched : List ι) (y : Snapshot ι S σ ρ)
    (H : Holds L) (com : Option ρ) (p : Prog L S ρ) : Prop
  | running {x : Snapshot ι S σ ρ} (hrely : P.rely H x y) (hwp : P.wp i Finished p H com x)
  | idle {r : ρ} (hnew : i ∉ sched) (hheld : H = .none) (hdone : p = .done r)
      (hspec : ∀ a, P.spec i a a r)

/-- What holds of a run whenever its threads are verified. -/
structure Linear (P : Object ι L S σ ρ) (c₀ : Config ι L S ρ) (sched : List ι)
    (c : Config ι L S ρ) (a₀ : σ) (y : Snapshot ι S σ ρ) (held : ι → Holds L)
    (com : ι → Option ρ) : Prop where
  mem : y.mem = c.mem
  inv : P.inv y
  free : ∀ l, (∀ i, held i l ≠ some .sole) → P.free l y
  holding : Holding P.rw c.locks held
  noted : ∀ i, Noted i (com i) y.history
  rests : ∀ i, Rests P i sched y (held i) (com i) (c.threads i)
  chronicle : Chronicle P.spec c₀ sched a₀ y.history y.abs

theorem Linear.valid (h : Linear P c₀ sched c a₀ y held com) (i : ι) :
    P.Valid i (held i) (com i) y where
  inv := h.inv
  reading l hi := by
    refine h.free l fun j hj => ?_
    by_cases hij : i = j
    · subst hij
      rw [hi] at hj
      cases hj
    · exact h.holding.compatible hij l _ _ hi hj
  once := h.chronicle.once
  noted := h.noted i

omit [DecidableEq ι] [DecidableEq L] in
theorem Object.Effect.noted {y' : Snapshot ι S σ ρ} {q q' : Option ρ}
    (h : P.Effect j q y q' y') (hnoted : Noted j q y.history) : Noted j q' y'.history := by
  cases h with
  | stays habs hhistory =>
    rw [hhistory]
    exact hnoted
  | commits hspec hhistory =>
    rw [hhistory]
    refine ⟨(fun hq => by cases hq), fun r hr => ?_⟩
    cases hr
    exact List.mem_append_right _ (List.mem_singleton_self _)

omit [DecidableEq ι] [DecidableEq L] in
theorem Object.Effect.noted_of_ne {y' : Snapshot ι S σ ρ} {q q' r : Option ρ}
    (h : P.Effect j q y q' y') (hij : i ≠ j) (hnoted : Noted i r y.history) :
    Noted i r y'.history := by
  cases h with
  | stays habs hhistory =>
    rw [hhistory]
    exact hnoted
  | commits hspec hhistory =>
    rw [hhistory]
    refine ⟨fun hr => ?_, fun r' hr => List.mem_append_left _ (hnoted.effective r' hr)⟩
    rw [ids, List.map_append, List.mem_append, not_or]
    exact ⟨hnoted.pending hr, fun hmem => hij (List.mem_singleton.mp hmem)⟩

theorem Object.Effect.chronicle {y' : Snapshot ι S σ ρ} {q q' : Option ρ}
    (h : P.Effect j q y q' y') (hnoted : Noted j q y.history)
    (hrun : sched.foldlM step c₀ = .ok c) (hstep : step c j = .ok c')
    (hchronicle : Chronicle P.spec c₀ sched a₀ y.history y.abs) :
    Chronicle P.spec c₀ (sched ++ [j]) a₀ y'.history y'.abs := by
  cases h with
  | stays habs hhistory =>
    rw [habs, hhistory]
    exact hchronicle.stays j
  | commits hspec hhistory =>
    rw [hhistory]
    exact hchronicle.commits hrun hstep (hnoted.pending rfl) hspec

omit [DecidableEq ι] in
theorem Rests.others {H : Holds L} {com : Option ρ} {p : Prog L S ρ} {y' : Snapshot ι S σ ρ}
    (h : Rests P i sched y H com p) (hij : i ≠ j) (hrely : P.rely H y y') :
    Rests P i (sched ++ [j]) y' H com p := by
  cases h with
  | running hx hwp => exact .running (P.rely_trans _ _ _ _ hx hrely) hwp
  | idle hnew hheld hdone hspec =>
    refine .idle ?_ hheld hdone hspec
    simp [hnew, hij]

theorem Linear.sync (h : Linear P c₀ sched c a₀ y held com) {o : LockOp} {k : Prog L S ρ}
    {locks : Locks L ι} (hsync : c.threads j = .sync o l k)
    (happly : o.apply c.locks j l = .ok locks) :
    ∃ held, Linear P c₀ (sched ++ [j]) ⟨c.mem, locks, Function.update c.threads j k⟩ a₀ y held
      com := by
  have hrest := h.rests j
  rw [hsync] at hrest
  cases hrest with
  | idle _ _ hdone _ => cases hdone
  | running hrely hwp =>
    obtain ⟨q, hholding, hnext, hfree⟩ :=
      Object.wpSync_sound h.holding happly hwp hrely (h.valid j) h.free
    refine ⟨setHold held j l q, h.mem, h.inv, hfree, hholding, h.noted, fun i => ?_,
      h.chronicle.stays j⟩
    by_cases hij : i = j
    · subst hij
      simp only [setHold, Function.update_self]
      exact .running (P.rely_refl _ y) hnext
    · simp only [setHold, Function.update_of_ne hij]
      exact (h.rests i).others hij (P.rely_refl _ y)

theorem Linear.act (h : Linear P c₀ sched c a₀ y held com) (hrun : sched.foldlM step c₀ = .ok c)
    (hstep : step c j = .ok c') {f : S → S} {k : S → Prog L S ρ} (hact : c.threads j = .act f k)
    (hc' : c' = ⟨f c.mem, c.locks, Function.update c.threads j (k c.mem)⟩) :
    ∃ y com, Linear P c₀ (sched ++ [j]) c' a₀ y held com := by
  have hrest := h.rests j
  rw [hact] at hrest
  cases hrest with
  | idle _ _ hdone _ => cases hdone
  | running hrely hwp =>
    obtain ⟨com', y', hmem, heffect, hguar, hnext⟩ := hwp y hrely (h.valid j)
    have hrests : ∀ i, Rests P i (sched ++ [j]) y' (held i) (Function.update com j com' i)
        (Function.update c.threads j (k c.mem) i) := by
      intro i
      by_cases hij : i = j
      · subst hij
        rw [Function.update_self, Function.update_self, ← h.mem]
        exact .running (P.rely_refl _ y') hnext
      · rw [Function.update_of_ne hij, Function.update_of_ne hij]
        exact (h.rests i).others hij
          (hguar.rely (held i) (h.holding.compatible (Ne.symm hij)))
    have hfree : ∀ l, (∀ i, held i l ≠ some .sole) → P.free l y' := fun l hl =>
      hguar.free l (hl j) (h.free l hl)
    subst hc'
    refine ⟨y', Function.update com j com', hmem.trans (by rw [h.mem]), hguar.inv, hfree,
      h.holding, fun i => ?_, hrests, heffect.chronicle (h.noted j) hrun hstep h.chronicle⟩
    by_cases hij : i = j
    · subst hij
      rw [Function.update_self]
      exact heffect.noted (h.noted i)
    · rw [Function.update_of_ne hij]
      exact heffect.noted_of_ne hij (h.noted i)

variable {s : S} {progs : ι → Prog L S ρ}

def Verified (P : Object ι L S σ ρ) (i : ι) (p : Prog L S ρ) (x : Snapshot ι S σ ρ) : Prop :=
  P.wp i Finished p .none none x ∨ ∃ r, p = .done r ∧ ∀ a, P.spec i a a r

theorem Linear.start (hinv : P.inv ⟨s, a₀, []⟩) (hfree : ∀ l, P.free l ⟨s, a₀, []⟩)
    (hprogs : ∀ i, Verified P i (progs i) ⟨s, a₀, []⟩) :
    Linear P (start s progs) [] (start s progs) a₀ ⟨s, a₀, []⟩ (fun _ => .none)
      fun _ => none where
  mem := rfl
  inv := hinv
  free l _ := hfree l
  holding := .free
  noted i := ⟨(fun _ hi => by cases hi), fun r hr => by cases hr⟩
  rests i := by
    rcases hprogs i with hwp | ⟨r, hdone, hspec⟩
    · exact .running (P.rely_refl _ _) hwp
    · exact .idle (by simp) rfl hdone hspec
  chronicle := .empty _ _

/-- A run of verified threads takes effect as the history of a snapshot says. -/
theorem linear_run (hinv : P.inv ⟨s, a₀, []⟩) (hfree : ∀ l, P.free l ⟨s, a₀, []⟩)
    (hprogs : ∀ i, Verified P i (progs i) ⟨s, a₀, []⟩)
    (hrun : sched.foldlM step (start s progs) = .ok c) :
    ∃ y held com, Linear P (start s progs) sched c a₀ y held com := by
  refine run_induction (P := fun as d =>
    ∃ y held com, Linear P (start s progs) as d a₀ y held com) ?_ ?_ hrun
  · exact ⟨_, _, _, Linear.start hinv hfree hprogs⟩
  · intro as d j d' hd ih hstep
    obtain ⟨y, held, com, h⟩ := ih
    rcases step_cases hstep with ⟨f, k, hact, hd'⟩ | ⟨o, l, k, locks, hsync, happly, rfl⟩
    · obtain ⟨y', com', h'⟩ := h.act hd hstep hact hd'
      exact ⟨y', held, com', h'⟩
    · obtain ⟨held', h'⟩ := h.sync hsync happly
      exact ⟨y, held', com, h'⟩

theorem Linear.results (h : Linear P c₀ sched c a₀ y held com) {r : ρ}
    (hdone : c.threads i = .done r) :
    (i, r) ∈ y.history ∨ (i ∉ sched ∧ ∀ a, P.spec i a a r) := by
  have hrest := h.rests i
  rw [hdone] at hrest
  cases hrest with
  | running hrely hwp => exact .inl ((h.noted i).effective r hwp.2)
  | idle hnew hheld hdone' hspec =>
    cases hdone'
    exact .inr ⟨hnew, hspec⟩

theorem Linear.quiescent (h : Linear P c₀ sched c a₀ y held com)
    (hdone : ∀ i, ∃ r, c.threads i = .done r) (l : L) : P.free l y := by
  refine h.free l fun i hi => ?_
  have hrest := h.rests i
  obtain ⟨r, hr⟩ := hdone i
  rw [hr] at hrest
  cases hrest with
  | running hrely hwp =>
    rw [hwp.1] at hi
    cases hi
  | idle hnew hheld hdone' hspec =>
    rw [hheld] at hi
    cases hi

end Soundness
end Threads
