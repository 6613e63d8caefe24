import DistributedBanking.LinearRuns

/-!
# Objects behind one lock

Every method of the object is one critical section of the same lock, and a
relation ties the memory to the specification whenever the lock is free. Then it
is enough to verify the methods alone: whatever a method does when it has the
memory to itself, it does at one moment of a concurrent run. A method that only
reads may share the lock with others of its kind.
-/

namespace Threads

variable {ι L S σ ρ : Type}

def Prog.Local : Prog L S ρ → Prop
  | .done _ => True
  | .act _ k => ∀ s, (k s).Local
  | .sync _ _ _ => False

def Prog.ReadOnly : Prog L S ρ → Prop
  | .done _ => True
  | .act f k => (∀ s, f s = s) ∧ ∀ s, (k s).ReadOnly
  | .sync _ _ _ => False

section Programs
variable {α β : Type}

theorem Prog.Local.bind {p : Prog L S α} {next : α → Prog L S β} (hp : p.Local)
    (hnext : ∀ r, (next r).Local) : (p >>= next).Local := by
  induction p with
  | done r => exact hnext r
  | act f k ih => exact fun s => ih s (hp s)
  | sync o l k ih => exact hp.elim

theorem Prog.ReadOnly.bind {p : Prog L S α} {next : α → Prog L S β} (hp : p.ReadOnly)
    (hnext : ∀ r, (next r).ReadOnly) : (p >>= next).ReadOnly := by
  induction p with
  | done r => exact hnext r
  | act f k ih => exact ⟨hp.1, fun s => ih s (hp.2 s)⟩
  | sync o l k ih => exact hp.elim

theorem Prog.local_read (get : S → α) : (Prog.read get : Prog L S α).Local := fun _ => trivial

theorem Prog.readOnly_read (get : S → α) : (Prog.read get : Prog L S α).ReadOnly :=
  ⟨fun _ => rfl, fun _ => trivial⟩

end Programs

def guarded (spec : ι → σ → σ → ρ → Prop) (rw : Bool) (R : S → σ → Prop) :
    Object ι Unit S σ ρ where
  spec := spec
  rw _ := rw
  inv _ := True
  free _ y := R y.mem y.abs
  rely H x y := H () = some .sole ∨ H () = some .shared → y.mem = x.mem ∧ y.abs = x.abs
  rely_refl _ _ _ := ⟨rfl, rfl⟩
  rely_trans _ _ _ _ h h' hheld :=
    ⟨((h' hheld).1).trans (h hheld).1, ((h' hheld).2).trans (h hheld).2⟩
  rely_mono _ _ _ _ hle h hheld := h (hheld.imp (hle _ _) (hle _ _))

section Methods
variable {spec : ι → σ → σ → ρ → Prop} {rw : Bool} {R : S → σ → Prop} {i : ι} {H : Holds Unit}
  {x : Snapshot ι S σ ρ}

theorem guarded_guarantees (hheld : H () = some .sole) (y y' : Snapshot ι S σ ρ) :
    (guarded spec rw R).Guarantees H y y' where
  inv := trivial
  free _ hl := absurd hheld hl
  rely H' hcompatible := by
    intro hshared
    rcases hshared with h | h
    · exact (hcompatible () _ _ hheld h).elim
    · exact (hcompatible () _ _ hheld h).elim

/-- After its effect a method only has to bring the memory to where the effect says. -/
theorem wp_after {p : Prog Unit S ρ} (hp : p.Local) (hheld : H () = some .sole) {r : ρ}
    (hresult : (p.alone x.mem).1 = r) (hend : R (p.alone x.mem).2 x.abs) :
    (guarded spec rw R).wp i (Object.Ends (guarded spec rw R) i () Finished) p H (some r) x := by
  induction p generalizing x with
  | done r' =>
    refine ⟨hheld, fun y hrely _ => ?_⟩
    obtain ⟨hmem, habs⟩ := hrely (.inl hheld)
    refine ⟨?_, funext fun l => Function.update_self .., congrArg some hresult.symm⟩
    change R y.mem y.abs
    rw [hmem, habs]
    exact hend
  | act f k ih =>
    intro y hrely _
    obtain ⟨hmem, habs⟩ := hrely (.inl hheld)
    refine ⟨some r, ⟨f y.mem, y.abs, y.history⟩, rfl, .stays rfl rfl,
      guarded_guarantees hheld _ _, ih y.mem (hp y.mem) ?_ ?_⟩
    · rw [hmem]
      exact hresult
    · rw [hmem, habs]
      exact hend
  | sync o l k ih => exact hp.elim

def Meets (spec : ι → σ → σ → ρ → Prop) (R : S → σ → Prop) (i : ι) (p : Prog L S ρ) : Prop :=
  ∀ s a, R s a → ∃ a', spec i a a' (p.alone s).1 ∧ R (p.alone s).2 a'

/-- The effect is at the first step of the critical section, which has to have one. -/
theorem wp_section {p : Prog Unit S ρ} (hlocal : p.Local) (hbusy : ∃ f k, p = .act f k)
    (hmeets : Meets spec R i p) (hheld : H () = some .sole) (hstart : R x.mem x.abs) :
    (guarded spec rw R).wp i (Object.Ends (guarded spec rw R) i () Finished) p H none x := by
  obtain ⟨f, k, rfl⟩ := hbusy
  intro y hrely _
  obtain ⟨hmem, habs⟩ := hrely (.inl hheld)
  rw [← hmem, ← habs] at hstart
  obtain ⟨a', hspec, hend⟩ := hmeets y.mem y.abs hstart
  refine ⟨some _, ⟨f y.mem, a', y.history ++ [(i, ((k y.mem).alone (f y.mem)).1)]⟩, rfl,
    .commits hspec rfl, guarded_guarantees hheld _ _, wp_after (hlocal y.mem) hheld rfl hend⟩

theorem verified_locked {p : Prog Unit S ρ} (hlocal : p.Local) (hbusy : ∃ f k, p = .act f k)
    (hmeets : Meets spec R i p) : Verified (guarded spec false R) i (.locked () p) x :=
  .inl (Object.wp_locked rfl rfl fun _ _ _ hfree =>
    wp_section hlocal hbusy hmeets (Function.update_self ..) hfree)

theorem verified_writing {p : Prog Unit S ρ} (hlocal : p.Local) (hbusy : ∃ f k, p = .act f k)
    (hmeets : Meets spec R i p) : Verified (guarded spec true R) i (.writing () p) x :=
  .inl (Object.wp_writing rfl rfl fun _ _ _ hfree =>
    wp_section hlocal hbusy hmeets (Function.update_self ..) hfree)

theorem reader_guarantees (y : Snapshot ι S σ ρ) (history : List (ι × ρ)) :
    (guarded spec rw R).Guarantees H y ⟨y.mem, y.abs, history⟩ where
  inv := trivial
  free _ _ h := h
  rely _ _ _ := ⟨rfl, rfl⟩

theorem wp_reader_after {p : Prog Unit S ρ} (hp : p.ReadOnly) (hheld : H () = some .shared) {r : ρ}
    (hresult : (p.alone x.mem).1 = r) :
    (guarded spec rw R).wp i (fun r' H' com' z => H' () = some .shared ∧
      ∀ w, (guarded spec rw R).rely H' z w → (guarded spec rw R).Valid i H' com' w →
        Finished r' (Function.update H' () none) com' w) p H (some r) x := by
  induction p generalizing x with
  | done r' =>
    exact ⟨hheld, fun _ _ _ =>
      ⟨funext fun l => Function.update_self .., congrArg some hresult.symm⟩⟩
  | act f k ih =>
    intro y hrely _
    obtain ⟨hmem, -⟩ := hrely (.inr hheld)
    refine ⟨some r, y, (hp.1 y.mem).symm, .stays rfl rfl, reader_guarantees y y.history,
      ih y.mem (hp.2 y.mem) ?_⟩
    rw [hmem]
    rw [Prog.alone, hp.1] at hresult
    exact hresult
  | sync o l k ih => exact hp.elim

theorem verified_reading {p : Prog Unit S ρ} (hread : p.ReadOnly) (hbusy : ∃ f k, p = .act f k)
    (hmeets : ∀ s a, R s a → spec i a a (p.alone s).1) :
    Verified (guarded spec true R) i (.reading () p) x := by
  obtain ⟨f, k, rfl⟩ := hbusy
  refine .inl (Object.wp_reading rfl rfl fun y _ _ hfree => ?_)
  intro z hrely _
  obtain ⟨hmem, habs⟩ := hrely (.inr (Function.update_self ..))
  have hz : R z.mem z.abs := by
    rw [hmem, habs]
    exact hfree
  refine ⟨some _, ⟨z.mem, z.abs, z.history ++ [(i, ((k z.mem).alone (f z.mem)).1)]⟩,
    (hread.1 z.mem).symm, .commits (hmeets z.mem z.abs hz) rfl, reader_guarantees z _,
    wp_reader_after (hread.2 z.mem) (Function.update_self ..) ?_⟩
  change ((k z.mem).alone z.mem).1 = ((k z.mem).alone (f z.mem)).1
  rw [hread.1]

variable [DecidableEq ι] {s : S} {a₀ : σ} {progs : ι → Prog Unit S ρ} {sched : List ι}
  {c : Config ι Unit S ρ}

/-- A run of verified methods, all of which have something to do, is the performance of its
history, and the memory is related to where the history ends once all methods have. -/
theorem guarded_run (hstart : R s a₀)
    (hprogs : ∀ i, Verified (guarded spec rw R) i (progs i) ⟨s, a₀, []⟩)
    (hbusy : ∀ i r, progs i ≠ .done r) (hrun : sched.foldlM step (start s progs) = .ok c) :
    ∃ history a, Chronicle spec (start s progs) sched a₀ history a ∧
      (∀ i r, c.threads i = .done r → (i, r) ∈ history) ∧
      ((∀ i, ∃ r, c.threads i = .done r) → R c.mem a) := by
  obtain ⟨y, held, com, hlinear⟩ := linear_run (P := guarded spec rw R) trivial
    (fun _ => hstart) hprogs hrun
  refine ⟨y.history, y.abs, hlinear.chronicle, fun i r hdone => ?_, fun hdone => ?_⟩
  · rcases hlinear.results hdone with hmem | ⟨hnew, -⟩
    · exact hmem
    · rw [untouched hrun hnew] at hdone
      exact absurd hdone (hbusy i r)
  · rw [← hlinear.mem]
    exact hlinear.quiescent hdone ()

end Methods
end Threads
