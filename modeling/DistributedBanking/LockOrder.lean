import DistributedBanking.Threads
import Mathlib.Order.WellFounded

/-!
# Deadlock freedom by lock order

The locks are ranked, and a program is ordered when it only ever asks for a lock
ranked above all that it holds and gives back all it took. Whoever waits then
waits for the holder of a lock, which in turn can only wait for a lock ranked
higher, and a rank without infinite ascents ends the chain at a thread that has
a step. A writer that waits for readers holds the lock it waits for; its readers
cannot do the same, so the chain goes up there as well.
-/

namespace Threads
open Runs

inductive Access
  | write
  | read
  deriving DecidableEq

section Programs
variable {L S R α β : Type} [DecidableEq L] [LT R]

def Below (rank : L → R) (held : L → Option Access) (l : L) : Prop :=
  ∀ l', held l' ≠ none → rank l' < rank l

namespace LockOp

def Allowed (rank : L → R) (held : L → Option Access) (l : L) : LockOp → Prop
  | lock | rlock => Below rank held l
  | drain => held l = some .write ∧ ∀ l', l' ≠ l → held l' ≠ none → rank l' < rank l
  | unlock => held l = some .write
  | runlock => held l = some .read

def after (held : L → Option Access) (l : L) : LockOp → L → Option Access
  | lock => Function.update held l (some .write)
  | rlock => Function.update held l (some .read)
  | drain => held
  | unlock | runlock => Function.update held l none

end LockOp

def Ordered (rank : L → R) (Q : α → (L → Option Access) → Prop) :
    Prog L S α → (L → Option Access) → Prop
  | .done r, held => Q r held
  | .act _ k, held => ∀ s, Ordered rank Q (k s) held
  | .sync o l k, held => o.Allowed rank held l ∧ Ordered rank Q k (o.after held l)

def Balanced (rank : L → R) (held : L → Option Access) (Q : α → Prop) (p : Prog L S α) : Prop :=
  Ordered rank (fun r held' => Q r ∧ held' = held) p held

variable {rank : L → R} {held : L → Option Access}

theorem Ordered.bind {Q : α → (L → Option Access) → Prop} {Q' : β → (L → Option Access) → Prop}
    {p : Prog L S α} {next : α → Prog L S β} (hp : Ordered rank Q p held)
    (hnext : ∀ r held', Q r held' → Ordered rank Q' (next r) held') :
    Ordered rank Q' (p >>= next) held := by
  induction p generalizing held with
  | done r => exact hnext r held hp
  | act f k ih => exact fun s => ih s (hp s)
  | sync o l k ih => exact ⟨hp.1, ih hp.2⟩

theorem Ordered.mono {Q Q' : α → (L → Option Access) → Prop} {p : Prog L S α}
    (hp : Ordered rank Q p held) (h : ∀ r held', Q r held' → Q' r held') :
    Ordered rank Q' p held := by
  induction p generalizing held with
  | done r => exact h r held hp
  | act f k ih => exact fun s => ih s (hp s)
  | sync o l k ih => exact ⟨hp.1, ih hp.2⟩

theorem Ordered.op {Q : α → (L → Option Access) → Prop} {o : LockOp} {l : L}
    {next : Unit → Prog L S α} (hl : o.Allowed rank held l)
    (hnext : Ordered rank Q (next ()) (o.after held l)) :
    Ordered rank Q (Prog.op o l >>= next) held := ⟨hl, hnext⟩

theorem Ordered.read_bind {Q : β → (L → Option Access) → Prop} {get : S → α}
    {next : α → Prog L S β} (h : ∀ s, Ordered rank Q (next (get s)) held) :
    Ordered rank Q (.read get >>= next) held := fun s => h s

theorem Ordered.around {Q : α → Prop} (o o' : LockOp) {l : L} {body : Prog L S α}
    (hl : o.Allowed rank held l) (ho' : o'.Allowed rank (o.after held l) l)
    (hbody : Balanced rank (o.after held l) Q body) :
    Ordered rank (fun r held' => Q r ∧ held' = o'.after (o.after held l) l)
      (do Prog.op o l; let r ← body; Prog.op o' l; return r) held := by
  apply Ordered.op hl
  apply Ordered.bind hbody
  intro r held' hr
  rw [hr.2]
  exact Ordered.op ho' ⟨hr.1, rfl⟩

namespace Balanced
variable {Q : α → Prop} {Q' : β → Prop}

theorem done {r : α} (h : Q r) : Balanced rank held Q (.done r : Prog L S α) := ⟨h, rfl⟩

theorem bind {p : Prog L S α} {next : α → Prog L S β} (hp : Balanced rank held Q p)
    (hnext : ∀ r, Q r → Balanced rank held Q' (next r)) : Balanced rank held Q' (p >>= next) := by
  apply Ordered.bind hp
  intro r held' hr
  obtain ⟨hr, rfl⟩ := hr
  exact hnext r hr

theorem read_bind {get : S → α} {next : α → Prog L S β}
    (h : ∀ s, Balanced rank held Q' (next (get s))) : Balanced rank held Q' (.read get >>= next) :=
  Ordered.read_bind h

theorem write_bind {f : S → S} {next : Unit → Prog L S β}
    (h : Balanced rank held Q' (next ())) : Balanced rank held Q' (.write f >>= next) :=
  fun _ => h

theorem write (f : S → S) : Balanced rank held (fun _ => True) (.write f : Prog L S Unit) :=
  fun _ => done trivial

end Balanced
end Programs

section Programs
variable {L S R α β : Type} [DecidableEq L] [Preorder R] {rank : L → R}
  {held : L → Option Access} {Q : α → Prop}

omit [DecidableEq L] in
theorem Below.free {l : L} (h : Below rank held l) : held l = none := by
  by_contra hl
  exact lt_irrefl _ (h l hl)

theorem Below.restore {l : L} (h : Below rank held l) (a : Access) :
    Function.update (Function.update held l (some a)) l none = held := by
  simp [← h.free]

namespace Balanced

theorem locked {l : L} {body : Prog L S α} (hl : Below rank held l)
    (hbody : Balanced rank (Function.update held l (some .write)) Q body) :
    Balanced rank held Q (Prog.locked l body) := by
  have h := Ordered.around .lock .unlock hl (Function.update_self ..) hbody
  simp only [LockOp.after, hl.restore] at h
  exact h

theorem reading {l : L} {body : Prog L S α} (hl : Below rank held l)
    (hbody : Balanced rank (Function.update held l (some .read)) Q body) :
    Balanced rank held Q (Prog.reading l body) := by
  have h := Ordered.around .rlock .runlock hl (Function.update_self ..) hbody
  simp only [LockOp.after, hl.restore] at h
  exact h

theorem writing {l : L} {body : Prog L S α} (hl : Below rank held l)
    (hbody : Balanced rank (Function.update held l (some .write)) Q body) :
    Balanced rank held Q (Prog.writing l body) := by
  have hdrain : LockOp.drain.Allowed rank (Function.update held l (some .write)) l := by
    refine ⟨Function.update_self .., fun l' hne hheld => ?_⟩
    rw [Function.update_of_ne hne] at hheld
    exact hl l' hheld
  have h := Ordered.around .drain .unlock hdrain (Function.update_self ..) hbody
  simp only [LockOp.after, hl.restore] at h
  exact Ordered.op (o := .lock) hl h

end Balanced
end Programs

variable {ι L S ρ R : Type} [DecidableEq ι]

namespace Locks

def heldBy (locks : Locks L ι) (i : ι) (l : L) : Option Access :=
  if locks.writer l = some i then some .write
  else if i ∈ locks.readers l then some .read
  else none

def Exclusive (locks : Locks L ι) : Prop :=
  ∀ i l, i ∈ locks.readers l → locks.writer l ≠ some i

variable {locks : Locks L ι} {i : ι} {l : L}

theorem heldBy_write : locks.heldBy i l = some .write ↔ locks.writer l = some i := by
  rw [heldBy]
  split_ifs <;> simp_all

theorem heldBy_read (h : locks.Exclusive) :
    locks.heldBy i l = some .read ↔ i ∈ locks.readers l := by
  have := h i l
  rw [heldBy]
  split_ifs <;> simp_all

theorem heldBy_none :
    locks.heldBy i l = none ↔ locks.writer l ≠ some i ∧ i ∉ locks.readers l := by
  rw [heldBy]
  split_ifs <;> simp_all

end Locks

variable [DecidableEq L]

namespace LockOp
variable {locks locks' : Locks L ι} {i j : ι} {l : L} {o : LockOp}

theorem apply_heldBy_of_ne (h : o.apply locks i l = .ok locks') (hj : j ≠ i) :
    locks'.heldBy j = locks.heldBy j := by
  funext l'
  cases o with
  | lock =>
    obtain ⟨hw, rfl⟩ := apply_lock.mp h
    by_cases hl : l' = l <;> simp_all [Locks.heldBy, Ne.symm hj]
  | drain =>
    obtain ⟨-, rfl⟩ := apply_drain.mp h
    rfl
  | unlock =>
    obtain ⟨hw, rfl⟩ := apply_unlock.mp h
    by_cases hl : l' = l <;> simp_all [Locks.heldBy, Ne.symm hj]
  | rlock =>
    obtain ⟨-, rfl⟩ := apply_rlock.mp h
    by_cases hl : l' = l <;> simp_all [Locks.heldBy]
  | runlock =>
    obtain ⟨-, rfl⟩ := apply_runlock.mp h
    by_cases hl : l' = l <;> simp_all [Locks.heldBy]

theorem apply_heldBy (hex : locks.Exclusive) (h : o.apply locks i l = .ok locks') :
    locks'.heldBy i = o.after (locks.heldBy i) l := by
  funext l'
  have hreads := hex i l
  cases o with
  | lock =>
    obtain ⟨hw, rfl⟩ := apply_lock.mp h
    by_cases hl : l' = l <;> simp [Locks.heldBy, after, hl]
  | drain =>
    obtain ⟨-, rfl⟩ := apply_drain.mp h
    rfl
  | unlock =>
    obtain ⟨hw, rfl⟩ := apply_unlock.mp h
    have hreader : i ∉ locks.readers l := fun hi => hreads hi hw
    by_cases hl : l' = l <;> simp [Locks.heldBy, after, hl, hreader]
  | rlock =>
    obtain ⟨⟨hw, -⟩, rfl⟩ := apply_rlock.mp h
    by_cases hl : l' = l <;> simp [Locks.heldBy, after, hl, hw]
  | runlock =>
    obtain ⟨hi, rfl⟩ := apply_runlock.mp h
    by_cases hl : l' = l <;> simp [Locks.heldBy, after, hl, hreads hi]

variable [Preorder R] {rank : L → R}

theorem apply_exclusive (hex : locks.Exclusive) (hallowed : o.Allowed rank (locks.heldBy i) l)
    (h : o.apply locks i l = .ok locks') : locks'.Exclusive := by
  intro j l' hj
  have hold := hex j l'
  cases o with
  | lock =>
    have hreader : i ∉ locks.readers l := (Locks.heldBy_none.mp (Below.free hallowed)).2
    obtain ⟨-, rfl⟩ := apply_lock.mp h
    by_cases hl : l' = l
    · subst hl
      simp only [Function.update_self, ne_eq, Option.some.injEq]
      intro hsame
      subst hsame
      exact hreader hj
    · simpa [hl] using hold hj
  | drain =>
    obtain ⟨-, rfl⟩ := apply_drain.mp h
    exact hold hj
  | unlock =>
    obtain ⟨-, rfl⟩ := apply_unlock.mp h
    by_cases hl : l' = l <;> simp_all
  | rlock =>
    obtain ⟨⟨hw, -⟩, rfl⟩ := apply_rlock.mp h
    by_cases hl : l' = l <;> simp_all
  | runlock =>
    obtain ⟨-, rfl⟩ := apply_runlock.mp h
    by_cases hl : l' = l <;> simp_all

end LockOp

section Order
variable [Preorder R] {rank : L → R}

/-- What a run of ordered threads keeps: the rest of each is ordered for the locks it has. -/
structure Disciplined (rank : L → R) (c : Config ι L S ρ) : Prop where
  exclusive : c.locks.Exclusive
  ordered : ∀ i, Ordered rank (fun _ held => ∀ l, held l = none) (c.threads i) (c.locks.heldBy i)

theorem Disciplined.start (s : S) {threads : ι → Prog L S ρ} {Q : ρ → Prop}
    (h : ∀ i, Balanced rank (fun _ => none) Q (threads i)) :
    Disciplined rank (start s threads) where
  exclusive i l hi := by simp [Threads.start, Locks.free] at hi
  ordered i := (h i).mono fun _ _ hr l => congrFun hr.2 l

theorem Disciplined.step {c c' : Config ι L S ρ} {i : ι} (h : Disciplined rank c)
    (hstep : step c i = .ok c') : Disciplined rank c' := by
  have hi := h.ordered i
  rcases step_cases hstep with ⟨f, k, hact, rfl⟩ | ⟨o, l, k, locks, hsync, happly, rfl⟩
  · rw [hact] at hi
    refine ⟨h.exclusive, fun j => ?_⟩
    by_cases hj : j = i
    · subst hj
      simpa using hi c.mem
    · simpa [hj] using h.ordered j
  · rw [hsync] at hi
    refine ⟨LockOp.apply_exclusive h.exclusive hi.1 happly, fun j => ?_⟩
    by_cases hj : j = i
    · subst hj
      simpa [LockOp.apply_heldBy h.exclusive happly] using hi.2
    · simpa [hj, LockOp.apply_heldBy_of_ne happly hj] using h.ordered j

theorem Disciplined.run {c c' : Config ι L S ρ} {sched : List ι} (h : Disciplined rank c)
    (hrun : sched.foldlM Threads.step c = .ok c') : Disciplined rank c' :=
  run_induction (P := fun _ => Disciplined rank) h (fun _ _ _ _ _ hd hs => hd.step hs) hrun

/-- An unfinished thread has a step or waits for a lock that somebody holds: one above all it
holds itself, or one that it writes and others read. -/
theorem Disciplined.step_or_wait {c : Config ι L S ρ} (h : Disciplined rank c) {i : ι}
    (hi : ∀ r, c.threads i ≠ .done r) :
    (∃ c', Threads.step c i = .ok c') ∨
      (∃ l, Below rank (c.locks.heldBy i) l ∧ ∃ j, c.locks.heldBy j l ≠ none) ∨
      ∃ l, LockOp.drain.Allowed rank (c.locks.heldBy i) l ∧
        ∃ j, c.locks.heldBy j l = some .read := by
  have hord := h.ordered i
  cases hp : c.threads i with
  | done r => exact absurd hp (hi r)
  | act f k => exact .inl ⟨_, by rw [Threads.step, hp]⟩
  | sync o l k =>
    rw [hp] at hord
    have hallowed := hord.1
    have hgo : ∀ locks, o.apply c.locks i l = .ok locks → ∃ c', Threads.step c i = .ok c' :=
      fun locks ho => ⟨⟨c.mem, locks, Function.update c.threads i k⟩, by
        simp only [Threads.step, hp, ho]⟩
    cases o with
    | lock =>
      cases hw : c.locks.writer l with
      | none => exact .inl (hgo _ (LockOp.apply_lock.mpr ⟨hw, rfl⟩))
      | some j => exact .inr (.inl ⟨l, hallowed, j, by simp [Locks.heldBy, hw]⟩)
    | drain =>
      have hw := Locks.heldBy_write.mp hallowed.1
      rcases (c.locks.readers l).eq_empty_or_nonempty with hempty | ⟨j, hj⟩
      · exact .inl (hgo _ (LockOp.apply_drain.mpr ⟨⟨hw, hempty⟩, rfl⟩))
      · exact .inr (.inr ⟨l, hallowed, j, (Locks.heldBy_read h.exclusive).mpr hj⟩)
    | unlock =>
      exact .inl (hgo _ (LockOp.apply_unlock.mpr ⟨Locks.heldBy_write.mp hallowed, rfl⟩))
    | rlock =>
      have hreader := (Locks.heldBy_none.mp (Below.free hallowed)).2
      cases hw : c.locks.writer l with
      | none => exact .inl (hgo _ (LockOp.apply_rlock.mpr ⟨⟨hw, hreader⟩, rfl⟩))
      | some j => exact .inr (.inl ⟨l, hallowed, j, by simp [Locks.heldBy, hw]⟩)
    | runlock =>
      have hreader := (Locks.heldBy_read h.exclusive).mp hallowed
      exact .inl (hgo _ (LockOp.apply_runlock.mpr ⟨hreader, rfl⟩))

theorem Disciplined.unfinished_of_holds {c : Config ι L S ρ} (h : Disciplined rank c) {i : ι}
    {l : L} (hl : c.locks.heldBy i l ≠ none) (r : ρ) : c.threads i ≠ .done r := by
  intro hdone
  have hord := h.ordered i
  rw [hdone] at hord
  exact hl (hord l)

theorem Disciplined.holder_cases {c : Config ι L S ρ} (h : Disciplined rank c) {i : ι} {l : L}
    (hl : c.locks.heldBy i l ≠ none) :
    (∃ c', Threads.step c i = .ok c') ∨
      (∃ l' j, rank l < rank l' ∧ c.locks.heldBy j l' ≠ none) ∨
      c.locks.heldBy i l = some .write ∧ ∃ j, c.locks.heldBy j l = some .read := by
  rcases h.step_or_wait (h.unfinished_of_holds hl) with hstep | ⟨l', hbelow, j, hj⟩ |
    ⟨l', hdrain, j, hj⟩
  · exact .inl hstep
  · exact .inr (.inl ⟨l', j, hbelow l hl, hj⟩)
  · by_cases hne : l = l'
    · subst hne
      exact .inr (.inr ⟨hdrain.1, j, hj⟩)
    · exact .inr (.inl ⟨l', j, hdrain.2 l hne hl, Option.ne_none_iff_exists'.mpr ⟨_, hj⟩⟩)

theorem Disciplined.progress_of_holds [WellFoundedGT R] {c : Config ι L S ρ}
    (h : Disciplined rank c) {i : ι} {l : L} (hl : c.locks.heldBy i l ≠ none) :
    ∃ j c', Threads.step c j = .ok c' := by
  -- Up the ranks; a reader that blocks the writer of its lock cannot be waiting for readers there.
  induction hr : rank l using WellFoundedGT.induction generalizing i l with
  | ind x ih =>
    subst hr
    rcases h.holder_cases hl with hstep | ⟨l', j, hlt, hj⟩ | ⟨-, j, hj⟩
    · exact ⟨i, hstep⟩
    · exact ih (rank l') hlt hj rfl
    · have hread : c.locks.heldBy j l ≠ none := Option.ne_none_iff_exists'.mpr ⟨_, hj⟩
      rcases h.holder_cases hread with hstep | ⟨l', k, hlt, hk⟩ | ⟨hwrite, -⟩
      · exact ⟨j, hstep⟩
      · exact ih (rank l') hlt hk rfl
      · simp [hj] at hwrite

/-- No reachable configuration of ordered threads is stuck. -/
theorem Disciplined.deadlock_free [WellFoundedGT R] {c : Config ι L S ρ}
    (h : Disciplined rank c) {i : ι} (hi : ∀ r, c.threads i ≠ .done r) :
    ∃ j c', Threads.step c j = .ok c' := by
  rcases h.step_or_wait hi with hstep | ⟨l, -, j, hj⟩ | ⟨l, -, j, hj⟩
  · exact ⟨i, hstep⟩
  · exact h.progress_of_holds hj
  · exact h.progress_of_holds (Option.ne_none_iff_exists'.mpr ⟨_, hj⟩)

/-- With the others out of every lock, a thread runs to its end and computes what it does alone. -/
theorem Disciplined.solo_run {c : Config ι L S ρ} (h : Disciplined rank c) {i : ι}
    (hothers : ∀ j, j ≠ i → ∀ l, c.locks.heldBy j l = none) :
    ∃ n c', (List.replicate n i).foldlM Threads.step c = .ok c' ∧
      c'.threads i = .done ((c.threads i).alone c.mem).1 ∧
      c'.mem = ((c.threads i).alone c.mem).2 := by
  induction hp : c.threads i generalizing c with
  | done r => exact ⟨0, c, rfl, hp, rfl⟩
  | act f k ih =>
    have hstep : Threads.step c i =
        .ok ⟨f c.mem, c.locks, Function.update c.threads i (k c.mem)⟩ := by
      rw [Threads.step, hp]
    obtain ⟨n, c', hrun, hdone, hmem⟩ :=
      ih c.mem (h.step hstep) hothers (Function.update_self ..)
    exact ⟨n + 1, c', by rw [List.replicate_succ, List.foldlM_cons, hstep, ok_bind, hrun],
      hdone, hmem⟩
  | sync o l k ih =>
    have hheld : ∀ j l, c.locks.heldBy j l ≠ none → j = i := by
      intro j l hj
      by_contra hne
      exact hj (hothers j hne l)
    obtain ⟨d, hstep⟩ : ∃ d, Threads.step c i = .ok d := by
      have hunfinished : ∀ r, c.threads i ≠ .done r := by simp [hp]
      rcases h.step_or_wait hunfinished with hstep | ⟨l', hbelow, j, hj⟩ | ⟨l', hdrain, j, hj⟩
      · exact hstep
      · have hji := hheld j l' hj
        rw [hji] at hj
        exact absurd hbelow.free hj
      · have hji := hheld j l' (Option.ne_none_iff_exists'.mpr ⟨_, hj⟩)
        rw [hji, hdrain.1] at hj
        simp at hj
    rcases step_cases hstep with ⟨f, k', hact, -⟩ | ⟨o', l', k', locks, hsync, happly, hd⟩
    · simp [hp] at hact
    · rw [hp] at hsync
      cases hsync
      have hd' := h.step hstep
      subst hd
      obtain ⟨n, c', hrun, hdone, hmem⟩ := ih hd'
        (fun j hj l' => by rw [LockOp.apply_heldBy_of_ne happly hj, hothers j hj l'])
        (Function.update_self ..)
      exact ⟨n + 1, c', by rw [List.replicate_succ, List.foldlM_cons, hstep, ok_bind, hrun],
        hdone, hmem⟩

end Order

end Threads
