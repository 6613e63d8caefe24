import DistributedBanking.Threads
import Mathlib.Algebra.BigOperators.Group.Finset.Piecewise

/-!
# Locks that own their part of the memory

Some locks own a cell of the memory, and a thread changes a cell only while it
holds the cell's mutex. A program is then verified with no regard to the others:
what it owns stays as it left it, and what it takes over is what a free lock
offers. `wp` is that calculus, and `Respected` says what its triples mean for a
run of all threads together.

The account kept of a thread is read off the run: the changes that its own steps
made to each cell, and the content of the cell at each of its unlocks.
-/

namespace Threads
open Runs

section Accounts
variable {ι L A S ρ V D : Type} [DecidableEq ι] [DecidableEq L] [DecidableEq V]

def change (v w : V) : List (V × V) := if w = v then [] else [(v, w)]

@[simp] theorem change_self (v : V) : change v v = [] := if_pos rfl

/-- The changes that the steps of thread `i` made to the cell, each with what it was and became. -/
def changes (cell : S → A → V) (i : ι) (c₀ : Config ι L S ρ) (sched : List ι) (a : A) :
    List (V × V) :=
  (stepsOf i c₀ sched).flatMap fun t => change (cell t.1.mem a) (cell t.2.mem a)

def leaves (mutex : A → L) (cell : S → A → V) (i : ι) (c : Config ι L S ρ) (a : A) : List V :=
  match c.threads i with
  | .sync .unlock l _ => if l = mutex a then [cell c.mem a] else []
  | _ => []

def atRelease (mutex : A → L) (cell : S → A → V) (i : ι) (c₀ : Config ι L S ρ) (sched : List ι)
    (a : A) : List V :=
  (stepsOf i c₀ sched).flatMap fun t => leaves mutex cell i t.1 a

variable {c₀ c c' : Config ι L S ρ} {sched : List ι} {j : ι}

theorem changes_snoc (cell : S → A → V) (hrun : sched.foldlM step c₀ = .ok c)
    (hstep : step c j = .ok c') (i : ι) (a : A) :
    changes cell i c₀ (sched ++ [j]) a =
      changes cell i c₀ sched a ++
        if j = i then change (cell c.mem a) (cell c'.mem a) else [] := by
  rw [changes, stepsOf_snoc hrun hstep]
  split_ifs <;> simp [changes]

omit [DecidableEq V] in
theorem atRelease_snoc (mutex : A → L) (cell : S → A → V)
    (hrun : sched.foldlM step c₀ = .ok c) (hstep : step c j = .ok c') (i : ι) (a : A) :
    atRelease mutex cell i c₀ (sched ++ [j]) a =
      atRelease mutex cell i c₀ sched a ++ if j = i then leaves mutex cell i c a else [] := by
  rw [atRelease, stepsOf_snoc hrun hstep]
  split_ifs <;> simp [atRelease]

omit [DecidableEq V] in
theorem atRelease_map {W : Type} (f : V → W) (mutex : A → L) (cell : S → A → V) (i : ι)
    (a : A) : atRelease mutex (fun s b => f (cell s b)) i c₀ sched a =
      (atRelease mutex cell i c₀ sched a).map f := by
  rw [atRelease, atRelease, List.map_flatMap]
  refine congrArg (List.flatMap · _) (funext fun t => ?_)
  rw [leaves, leaves]
  split
  · split_ifs <;> rfl
  · rfl

def gain [AddCommGroup D] (worth : V → D) (log : List (V × V)) : D :=
  (log.map fun t => worth t.2 - worth t.1).sum

omit [DecidableEq V] in
@[simp] theorem gain_nil [AddCommGroup D] (worth : V → D) : gain worth [] = 0 := rfl

@[simp] theorem gain_change [AddCommGroup D] (worth : V → D) (v w : V) :
    gain worth (change v w) = worth w - worth v := by
  rw [change]
  split_ifs with h
  · simp [gain, h]
  · simp [gain]

theorem worth_eq [Fintype ι] [AddCommGroup D] (worth : V → D) (cell : S → A → V)
    (hrun : sched.foldlM step c₀ = .ok c) (a : A) :
    worth (cell c.mem a) =
      worth (cell c₀.mem a) + ∑ i, gain worth (changes cell i c₀ sched a) := by
  refine run_induction (P := fun as d => worth (cell d.mem a) =
    worth (cell c₀.mem a) + ∑ i, gain worth (changes cell i c₀ as a)) ?_ ?_ hrun
  · simp [changes, stepsOf, gain]
  · intro as d j d' hd ih hstep
    have hadd : ∀ i, gain worth (changes cell i c₀ (as ++ [j]) a) =
        gain worth (changes cell i c₀ as a) +
          if j = i then worth (cell d'.mem a) - worth (cell d.mem a) else 0 := by
      intro i
      rw [changes_snoc cell hd hstep, gain, List.map_append, List.sum_append, ← gain]
      split_ifs
      · rw [← gain, gain_change]
      · simp
    simp only [hadd, Finset.sum_add_distrib, Finset.sum_ite_eq, Finset.mem_univ, if_true]
    rw [← add_assoc, ← ih, add_sub_cancel]

end Accounts

/-- What a thread knows for sure: the cells it owns, and its own account. -/
@[ext] structure Share (A V : Type) where
  own : A → Option V
  changes : A → List (V × V)
  released : A → List V

namespace Share
variable {A V : Type} [DecidableEq A]

def empty : Share A V := ⟨fun _ => none, fun _ => [], fun _ => []⟩

def acquire (g : Share A V) (a : A) (v : V) : Share A V :=
  { g with own := Function.update g.own a (some v) }

def put [DecidableEq V] (g : Share A V) (a : A) (v w : V) : Share A V :=
  { g with own := Function.update g.own a (some w),
           changes := Function.update g.changes a (g.changes a ++ change v w) }

def release (g : Share A V) (a : A) (v : V) : Share A V :=
  { g with own := Function.update g.own a none,
           released := Function.update g.released a (g.released a ++ [v]) }

end Share

/-- The rules of a shared memory: `guards` tells the cell that a lock owns, `free` is what a free
lock offers, `guar i` what the actions of thread `i` may do, and `grant i` an assumption on the
moments at which it gets a cell, with the cells it has then. -/
structure Rules (ι L A S V : Type) where
  mutex : A → L
  guards : L → Option A
  guards_iff : ∀ l a, guards l = some a ↔ l = mutex a
  cell : S → A → V
  inv : S → Prop
  free : A → V → Prop
  guar : ι → S → S → Prop
  grant : ι → (A → Prop) → A → S → Prop
  guar_self : ∀ i s, inv s → guar i s s
  inv_guar : ∀ i s s', inv s → guar i s s' → inv s'

namespace Rules
variable {ι L A S V α β ρ : Type}

theorem guards_mutex (R : Rules ι L A S V) (a : A) : R.guards (R.mutex a) = some a :=
  (R.guards_iff _ a).mpr rfl

theorem mutex_inj (R : Rules ι L A S V) {a b : A} : R.mutex a = R.mutex b ↔ a = b := by
  rw [← R.guards_iff, R.guards_mutex, Option.some.injEq]

variable [DecidableEq A] [DecidableEq V]

def Agrees (R : Rules ι L A S V) (g : Share A V) (s : S) : Prop :=
  ∀ a v, g.own a = some v → R.cell s a = v

def wrote (R : Rules ι L A S V) (g : Share A V) (s s' : S) : Share A V where
  own a := (g.own a).map fun _ => R.cell s' a
  changes a := g.changes a ++ change (R.cell s a) (R.cell s' a)
  released := g.released

def synced (R : Rules ι L A S V) (g : Share A V) (s : S) (l : L) (o : LockOp) :
    Share A V :=
  match R.guards l, o with
  | some a, .lock => g.acquire a (R.cell s a)
  | some a, .unlock => g.release a (R.cell s a)
  | _, _ => g

def wpSync (R : Rules ι L A S V) (i : ι) (l : L) (rest : Share A V → Prop)
    (g : Share A V) (o : LockOp) : Prop :=
  match R.guards l, o with
  | some a, .lock => ∀ s, R.inv s → R.Agrees g s → R.free a (R.cell s a) →
      R.grant i (fun b => g.own b ≠ none) a s → rest (g.acquire a (R.cell s a))
  | some a, .unlock => ∃ v, g.own a = some v ∧ R.free a v ∧ rest (g.release a v)
  | _, _ => rest g

def wp (R : Rules ι L A S V) (i : ι) (Q : ρ → Share A V → Prop) :
    Prog L S ρ → Share A V → Prop
  | .done r, g => Q r g
  | .act f k, g => ∀ s, R.inv s → R.Agrees g s → R.guar i s (f s) ∧
      (∀ a, g.own a = none → R.cell (f s) a = R.cell s a) ∧ wp R i Q (k s) (R.wrote g s (f s))
  | .sync o l k, g => R.wpSync i l (wp R i Q k) g o

variable {R : Rules ι L A S V} {i : ι} {g : Share A V}

omit [DecidableEq A] in
theorem Agrees.wrote_self {s : S} (h : R.Agrees g s) : R.wrote g s s = g := by
  apply Share.ext
  · funext a
    cases ha : g.own a with
    | none => simp [wrote, ha]
    | some v => simp [wrote, ha, h a v ha]
  · simp [wrote]
  · rfl

omit [DecidableEq V] in
theorem wpSync_mono {l : L} {P P' : Share A V → Prop} {o : LockOp} (h : R.wpSync i l P g o)
    (himp : ∀ g', P g' → P' g') : R.wpSync i l P' g o := by
  simp only [wpSync] at h ⊢
  cases hl : R.guards l with
  | none =>
    simp only [hl] at h ⊢
    exact himp g h
  | some a =>
    simp only [hl] at h ⊢
    cases o with
    | lock => exact fun s hs hg hfree hgrant => himp _ (h s hs hg hfree hgrant)
    | unlock =>
      obtain ⟨v, hv, hfree, hrest⟩ := h
      exact ⟨v, hv, hfree, himp _ hrest⟩
    | drain => exact himp g h
    | rlock => exact himp g h
    | runlock => exact himp g h

theorem wp_bind {Q : β → Share A V → Prop} {p : Prog L S α} {next : α → Prog L S β}
    (h : R.wp i (fun r => R.wp i Q (next r)) p g) : R.wp i Q (p >>= next) g := by
  induction p generalizing g with
  | done r => exact h
  | act f k ih =>
    intro s hs hg
    obtain ⟨hguar, hframe, hrest⟩ := h s hs hg
    exact ⟨hguar, hframe, ih s hrest⟩
  | sync o l k ih => exact wpSync_mono h fun _ => ih

theorem wp_mono {Q Q' : ρ → Share A V → Prop} {p : Prog L S ρ} (h : R.wp i Q p g)
    (himp : ∀ r g', Q r g' → Q' r g') : R.wp i Q' p g := by
  induction p generalizing g with
  | done r => exact himp r g h
  | act f k ih =>
    intro s hs hg
    obtain ⟨hguar, hframe, hrest⟩ := h s hs hg
    exact ⟨hguar, hframe, ih s hrest⟩
  | sync o l k ih => exact wpSync_mono h fun _ => ih

theorem wp_read {Q : β → Share A V → Prop} {get : S → α} {next : α → Prog L S β}
    (h : ∀ s, R.inv s → R.Agrees g s → R.wp i Q (next (get s)) g) :
    R.wp i Q (.read get >>= next) g := by
  intro s hs hg
  refine ⟨R.guar_self i s hs, fun _ _ => rfl, ?_⟩
  rw [id_eq, hg.wrote_self]
  exact h s hs hg

theorem wp_write {Q : β → Share A V → Prop} {f : S → S} {next : Unit → Prog L S β} {a : A}
    {v v' : V} (hown : g.own a = some v)
    (hf : ∀ s, R.inv s → R.Agrees g s →
      R.guar i s (f s) ∧ R.cell (f s) = Function.update (R.cell s) a v')
    (hQ : R.wp i Q (next ()) (g.put a v v')) :
    R.wp i Q (.write f >>= next) g := by
  intro s hs hg
  obtain ⟨hguar, hcell⟩ := hf s hs hg
  refine ⟨hguar, fun b hb => ?_, ?_⟩
  · rw [hcell, Function.update_of_ne]
    intro hsame
    subst hsame
    simp [hown] at hb
  · have hwrote : R.wrote g s (f s) = g.put a v v' := by
      apply Share.ext
      · funext b
        by_cases hb : b = a
        · subst hb
          simp [wrote, Share.put, hown, hcell]
        · cases hb' : g.own b with
          | none => simp [wrote, Share.put, hb, hb']
          | some w => simp [wrote, Share.put, hb, hb', hcell, hg b w hb']
      · funext b
        by_cases hb : b = a
        · subst hb
          simp [wrote, Share.put, hcell, hg b v hown]
        · simp [wrote, Share.put, hb, hcell]
      · rfl
    rw [hwrote]
    exact hQ

theorem wp_write_self {Q : β → Share A V → Prop} {f : S → S} {next : Unit → Prog L S β}
    (hf : ∀ s, R.inv s → R.Agrees g s → f s = s) (hQ : R.wp i Q (next ()) g) :
    R.wp i Q (.write f >>= next) g := by
  intro s hs hg
  rw [hf s hs hg]
  refine ⟨R.guar_self i s hs, fun _ _ => rfl, ?_⟩
  rw [hg.wrote_self]
  exact hQ

theorem wp_lock {Q : β → Share A V → Prop} {a : A} {next : Unit → Prog L S β}
    (h : ∀ s, R.inv s → R.Agrees g s → R.free a (R.cell s a) →
      R.grant i (fun b => g.own b ≠ none) a s → R.wp i Q (next ()) (g.acquire a (R.cell s a))) :
    R.wp i Q (Prog.op .lock (R.mutex a) >>= next) g := by
  change R.wpSync i (R.mutex a) _ g .lock
  simp only [wpSync, guards_mutex]
  exact h

theorem wp_unlock {Q : β → Share A V → Prop} {a : A} {v : V} {next : Unit → Prog L S β}
    (hown : g.own a = some v) (hfree : R.free a v) (h : R.wp i Q (next ()) (g.release a v)) :
    R.wp i Q (Prog.op .unlock (R.mutex a) >>= next) g := by
  change R.wpSync i (R.mutex a) _ g .unlock
  simp only [wpSync, guards_mutex]
  exact ⟨v, hown, hfree, h⟩

theorem wp_locked {Q : α → Share A V → Prop} {a : A} {body : Prog L S α}
    (h : ∀ s, R.inv s → R.Agrees g s → R.free a (R.cell s a) →
      R.grant i (fun b => g.own b ≠ none) a s →
      R.wp i (fun r g' => ∃ v, g'.own a = some v ∧ R.free a v ∧ Q r (g'.release a v)) body
        (g.acquire a (R.cell s a))) : R.wp i Q (.locked (R.mutex a) body) g := by
  refine wp_lock fun s hs hg hfree hgrant => wp_bind ?_
  refine wp_mono (h s hs hg hfree hgrant) fun r g' hg' => ?_
  obtain ⟨v, hown, hfree', hQ⟩ := hg'
  exact wp_unlock hown hfree' hQ

omit [DecidableEq V] in
theorem wpSync_of_unguarded {l : L} (hl : R.guards l = none) {P : Share A V → Prop} {o : LockOp}
    (h : P g) : R.wpSync i l P g o := by
  simp only [wpSync, hl]
  exact h

theorem wp_op {Q : β → Share A V → Prop} {o : LockOp} {l : L} (hl : R.guards l = none)
    {next : Unit → Prog L S β} (h : R.wp i Q (next ()) g) : R.wp i Q (Prog.op o l >>= next) g :=
  wpSync_of_unguarded hl h

theorem wp_writing {Q : α → Share A V → Prop} {l : L} (hl : R.guards l = none)
    {body : Prog L S α} (h : R.wp i Q body g) : R.wp i Q (.writing l body) g :=
  wp_op hl (wp_op hl (wp_bind (wp_mono h fun _ _ hQ => wp_op hl hQ)))

theorem wp_reading {Q : α → Share A V → Prop} {l : L} (hl : R.guards l = none)
    {body : Prog L S α} (h : R.wp i Q body g) : R.wp i Q (.reading l body) g :=
  wp_op hl (wp_bind (wp_mono h fun _ _ hQ => wp_op hl hQ))

end Rules

section Soundness
variable {ι L A S ρ V : Type} [DecidableEq ι] [DecidableEq L] [DecidableEq A] [DecidableEq V]

def Rules.share (R : Rules ι L A S V) (i : ι) (c₀ : Config ι L S ρ) (sched : List ι)
    (c : Config ι L S ρ) : Share A V where
  own a := if c.locks.writer (R.mutex a) = some i then some (R.cell c.mem a) else none
  changes := changes R.cell i c₀ sched
  released := atRelease R.mutex R.cell i c₀ sched

/-- The assumption on a step that gets a cell. -/
def Rules.Granted (R : Rules ι L A S V) (i : ι) (c : Config ι L S ρ) : Prop :=
  ∀ a k, c.threads i = .sync .lock (R.mutex a) k →
    R.grant i (fun b => c.locks.writer (R.mutex b) = some i) a c.mem

structure Respected (R : Rules ι L A S V) (Q : ι → ρ → Share A V → Prop)
    (c₀ : Config ι L S ρ) (sched : List ι) (c : Config ι L S ρ) : Prop where
  inv : R.inv c.mem
  free : ∀ a, c.locks.writer (R.mutex a) = none → R.free a (R.cell c.mem a)
  rest : ∀ i, R.wp i (Q i) (c.threads i) (R.share i c₀ sched c)
  guar : ∀ i, ∀ t ∈ stepsOf i c₀ sched, R.guar i t.1.mem t.2.mem

variable {R : Rules ι L A S V} {Q : ι → ρ → Share A V → Prop} {c₀ c c' : Config ι L S ρ}
  {sched : List ι} {i j : ι}

theorem Respected.start {s : S} {threads : ι → Prog L S ρ} (hinv : R.inv s)
    (hfree : ∀ a, R.free a (R.cell s a)) (hwp : ∀ i, R.wp i (Q i) (threads i) .empty) :
    Respected R Q (start s threads) [] (start s threads) where
  inv := hinv
  free a _ := hfree a
  rest i := hwp i
  guar i t ht := by simp [stepsOf] at ht

omit [DecidableEq A] in
theorem Rules.share_agrees (R : Rules ι L A S V) (i : ι) (c₀ : Config ι L S ρ) (sched : List ι)
    (c : Config ι L S ρ) : R.Agrees (R.share i c₀ sched c) c.mem := by
  intro a v ha
  simp only [share] at ha
  split_ifs at ha
  exact Option.some.inj ha

theorem LockOp.apply_writer_cases {o : LockOp} {locks locks' : Locks L ι} {l : L}
    (h : o.apply locks j l = .ok locks') :
    locks'.writer = locks.writer ∨
      (locks.writer l = none ∧ locks'.writer = Function.update locks.writer l (some j)) ∨
      (locks.writer l = some j ∧ locks'.writer = Function.update locks.writer l none) := by
  cases o with
  | lock =>
    obtain ⟨hw, rfl⟩ := apply_lock.mp h
    exact .inr (.inl ⟨hw, rfl⟩)
  | drain =>
    obtain ⟨-, rfl⟩ := apply_drain.mp h
    exact .inl rfl
  | unlock =>
    obtain ⟨hw, rfl⟩ := apply_unlock.mp h
    exact .inr (.inr ⟨hw, rfl⟩)
  | rlock =>
    obtain ⟨-, rfl⟩ := apply_rlock.mp h
    exact .inl rfl
  | runlock =>
    obtain ⟨-, rfl⟩ := apply_runlock.mp h
    exact .inl rfl

theorem LockOp.apply_writer_of_ne {o : LockOp} {locks locks' : Locks L ι} {l : L}
    (h : o.apply locks j l = .ok locks') (hij : i ≠ j) (l' : L) :
    locks'.writer l' = some i ↔ locks.writer l' = some i := by
  rcases apply_writer_cases h with hw | ⟨hfree, hw⟩ | ⟨hheld, hw⟩
  · rw [hw]
  · by_cases hl : l' = l <;> simp [hw, hl, hfree, hij.symm]
  · by_cases hl : l' = l <;> simp [hw, hl, hheld, hij.symm]

theorem LockOp.apply_writer_frame {o : LockOp} {locks locks' : Locks L ι} {l l' : L}
    (h : o.apply locks j l = .ok locks') (hl : l' ≠ l) : locks'.writer l' = locks.writer l' := by
  rcases apply_writer_cases h with hw | ⟨-, hw⟩ | ⟨-, hw⟩
  · rw [hw]
  · rw [hw, Function.update_of_ne hl]
  · rw [hw, Function.update_of_ne hl]

omit [DecidableEq A] in
theorem Rules.share_of_ne (hrun : sched.foldlM step c₀ = .ok c) (hstep : step c j = .ok c')
    (hij : i ≠ j) (hwriter : ∀ l, c'.locks.writer l = some i ↔ c.locks.writer l = some i)
    (hcell : ∀ a, c.locks.writer (R.mutex a) = some i → R.cell c'.mem a = R.cell c.mem a) :
    R.share i c₀ (sched ++ [j]) c' = R.share i c₀ sched c := by
  apply Share.ext
  · funext a
    by_cases ha : c.locks.writer (R.mutex a) = some i <;> simp [share, hwriter, ha, hcell]
  · funext a
    simp [share, changes_snoc _ hrun hstep, Ne.symm hij]
  · funext a
    simp [share, atRelease_snoc _ _ hrun hstep, Ne.symm hij]

theorem Respected.guar_snoc (h : Respected R Q c₀ sched c) (hrun : sched.foldlM step c₀ = .ok c)
    (hstep : step c j = .ok c') (hguar : R.guar j c.mem c'.mem) (i : ι) :
    ∀ t ∈ stepsOf i c₀ (sched ++ [j]), R.guar i t.1.mem t.2.mem := by
  intro t ht
  rw [stepsOf_snoc hrun hstep, List.mem_append] at ht
  rcases ht with ht | ht
  · exact h.guar i t ht
  · split_ifs at ht with hij
    · simp only [List.mem_singleton] at ht
      subst ht hij
      exact hguar
    · simp at ht

theorem Respected.act (h : Respected R Q c₀ sched c) (hrun : sched.foldlM step c₀ = .ok c)
    {f : S → S} {k : S → Prog L S ρ} (hact : c.threads j = .act f k) (hstep : step c j = .ok c')
    (hc' : c' = ⟨f c.mem, c.locks, Function.update c.threads j (k c.mem)⟩) :
    Respected R Q c₀ (sched ++ [j]) c' := by
  have hwp := h.rest j
  rw [hact] at hwp
  obtain ⟨hguar, hframe, hrest⟩ := hwp c.mem h.inv (R.share_agrees j c₀ sched c)
  have hcell : ∀ a, c.locks.writer (R.mutex a) ≠ some j →
      R.cell (f c.mem) a = R.cell c.mem a := fun a ha => hframe a (if_neg ha)
  subst hc'
  refine ⟨R.inv_guar j c.mem (f c.mem) h.inv hguar, fun a ha => ?_, fun i => ?_, ?_⟩
  · dsimp only at ha ⊢
    rw [hcell a (by simp [ha])]
    exact h.free a ha
  · by_cases hij : i = j
    · subst hij
      have hshare : R.share i c₀ (sched ++ [i])
          ⟨f c.mem, c.locks, Function.update c.threads i (k c.mem)⟩ =
            R.wrote (R.share i c₀ sched c) c.mem (f c.mem) := by
        apply Share.ext
        · funext a
          by_cases ha : c.locks.writer (R.mutex a) = some i <;> simp [Rules.share, Rules.wrote, ha]
        · funext a
          simp [Rules.share, Rules.wrote, changes_snoc _ hrun hstep]
        · funext a
          simp [Rules.share, Rules.wrote, atRelease_snoc _ _ hrun hstep, leaves, hact]
      rw [hshare]
      simpa using hrest
    · rw [Rules.share_of_ne hrun hstep hij (fun _ => Iff.rfl) fun a ha => hcell a (by
        simpa [ha] using hij)]
      simpa [hij] using h.rest i
  · exact h.guar_snoc hrun hstep hguar

theorem Rules.share_sync (hrun : sched.foldlM step c₀ = .ok c) (hstep : step c j = .ok c')
    {o : LockOp} {l : L} {k : Prog L S ρ} {locks : Locks L ι} (hsync : c.threads j = .sync o l k)
    (happly : o.apply c.locks j l = .ok locks)
    (hc' : c' = ⟨c.mem, locks, Function.update c.threads j k⟩) :
    R.share j c₀ (sched ++ [j]) c' = R.synced (R.share j c₀ sched c) c.mem l o := by
  have hchanges : (R.share j c₀ (sched ++ [j]) c').changes = (R.share j c₀ sched c).changes := by
    funext a
    simp [share, changes_snoc _ hrun hstep, hc']
  have hreleased : (R.share j c₀ (sched ++ [j]) c').released = fun a =>
      (R.share j c₀ sched c).released a ++ leaves R.mutex R.cell j c a := by
    funext a
    simp [share, atRelease_snoc _ _ hrun hstep]
  have hframe : ∀ a, R.mutex a ≠ l →
      (R.share j c₀ (sched ++ [j]) c').own a = (R.share j c₀ sched c).own a := by
    intro a ha
    simp [share, hc', LockOp.apply_writer_frame happly ha]
  have hleaves : ∀ a, R.mutex a ≠ l → leaves R.mutex R.cell j c a = [] := by
    intro a ha
    rw [leaves, hsync]
    cases o <;> simp [Ne.symm ha]
  simp only [synced]
  cases hl : R.guards l with
  | none =>
    have hne : ∀ a, R.mutex a ≠ l := by
      intro a ha
      simp [← ha, R.guards_mutex] at hl
    refine Share.ext (funext fun a => hframe a (hne a)) hchanges (hreleased.trans ?_)
    funext a
    rw [hleaves a (hne a), List.append_nil]
  | some b =>
    have hb : l = R.mutex b := (R.guards_iff l b).mp hl
    subst hb
    have hne : ∀ a, a ≠ b → R.mutex a ≠ R.mutex b := fun a hab => mt R.mutex_inj.mp hab
    cases o with
    | lock =>
      obtain ⟨-, rfl⟩ := LockOp.apply_lock.mp happly
      refine Share.ext (funext fun a => ?_) hchanges (hreleased.trans (funext fun a => ?_))
      · by_cases hab : a = b
        · simp [share, Share.acquire, hc', hab]
        · simp [Share.acquire, hab, hframe a (hne a hab)]
      · simp [leaves, hsync, Share.acquire]
    | unlock =>
      obtain ⟨-, rfl⟩ := LockOp.apply_unlock.mp happly
      refine Share.ext (funext fun a => ?_) hchanges (hreleased.trans (funext fun a => ?_))
      · by_cases hab : a = b
        · simp [share, Share.release, hc', hab]
        · simp [Share.release, hab, hframe a (hne a hab)]
      · by_cases hab : a = b
        · simp [leaves, hsync, Share.release, hab]
        · simp [Share.release, hab, hleaves a (hne a hab)]
    | drain =>
      obtain ⟨-, rfl⟩ := LockOp.apply_drain.mp happly
      subst hc'
      exact Share.ext rfl hchanges (hreleased.trans (by simp [leaves, hsync]))
    | rlock =>
      obtain ⟨-, rfl⟩ := LockOp.apply_rlock.mp happly
      subst hc'
      exact Share.ext rfl hchanges (hreleased.trans (by simp [leaves, hsync]))
    | runlock =>
      obtain ⟨-, rfl⟩ := LockOp.apply_runlock.mp happly
      subst hc'
      exact Share.ext rfl hchanges (hreleased.trans (by simp [leaves, hsync]))

theorem Respected.synced (h : Respected R Q c₀ sched c) (hgrant : R.Granted j c) {o : LockOp}
    {l : L} {k : Prog L S ρ} {locks : Locks L ι} (hsync : c.threads j = .sync o l k)
    (happly : o.apply c.locks j l = .ok locks) :
    R.wp j (Q j) k (R.synced (R.share j c₀ sched c) c.mem l o) ∧
      ∀ a, locks.writer (R.mutex a) = none → R.free a (R.cell c.mem a) := by
  have hwp := h.rest j
  rw [hsync] at hwp
  have hagrees := R.share_agrees j c₀ sched c
  have hfree : ∀ a, R.mutex a ≠ l → locks.writer (R.mutex a) = none → R.free a (R.cell c.mem a) :=
    fun a ha hw => h.free a (LockOp.apply_writer_frame happly ha ▸ hw)
  simp only [Rules.wp, Rules.wpSync, Rules.synced] at hwp ⊢
  cases hl : R.guards l with
  | none =>
    simp only [hl] at hwp ⊢
    refine ⟨hwp, fun a => hfree a fun ha => ?_⟩
    simp [← ha, R.guards_mutex] at hl
  | some b =>
    have hb : l = R.mutex b := (R.guards_iff l b).mp hl
    subst hb
    simp only [R.guards_mutex] at hwp ⊢
    have hrest : ∀ a, a ≠ b → locks.writer (R.mutex a) = none → R.free a (R.cell c.mem a) :=
      fun a hab => hfree a (mt R.mutex_inj.mp hab)
    cases o with
    | lock =>
      obtain ⟨hw, rfl⟩ := LockOp.apply_lock.mp happly
      have hheld : (fun a => (R.share j c₀ sched c).own a ≠ none) =
          fun a => c.locks.writer (R.mutex a) = some j := by
        funext a
        simp [Rules.share]
      have hgranted := hgrant b k hsync
      rw [← hheld] at hgranted
      refine ⟨hwp c.mem h.inv hagrees (h.free b hw) hgranted, fun a ha => ?_⟩
      by_cases hab : a = b
      · exact hab ▸ h.free b hw
      · exact hrest a hab ha
    | unlock =>
      obtain ⟨v, hv, hvfree, hrest'⟩ := hwp
      have hcell := hagrees b v hv
      rw [← hcell] at hrest'
      refine ⟨hrest', fun a ha => ?_⟩
      by_cases hab : a = b
      · rw [hab, hcell]
        exact hvfree
      · exact hrest a hab ha
    | drain =>
      obtain ⟨-, rfl⟩ := LockOp.apply_drain.mp happly
      exact ⟨hwp, h.free⟩
    | rlock =>
      obtain ⟨-, rfl⟩ := LockOp.apply_rlock.mp happly
      exact ⟨hwp, h.free⟩
    | runlock =>
      obtain ⟨-, rfl⟩ := LockOp.apply_runlock.mp happly
      exact ⟨hwp, h.free⟩

theorem Respected.sync (h : Respected R Q c₀ sched c) (hrun : sched.foldlM step c₀ = .ok c)
    (hgrant : R.Granted j c) {o : LockOp} {l : L} {k : Prog L S ρ} {locks : Locks L ι}
    (hsync : c.threads j = .sync o l k) (happly : o.apply c.locks j l = .ok locks)
    (hstep : step c j = .ok c') (hc' : c' = ⟨c.mem, locks, Function.update c.threads j k⟩) :
    Respected R Q c₀ (sched ++ [j]) c' := by
  obtain ⟨hself, hfree⟩ := h.synced hgrant hsync happly
  have hguar : R.guar j c.mem c'.mem := by
    rw [hc']
    exact R.guar_self j c.mem h.inv
  refine ⟨?_, ?_, fun i => ?_, h.guar_snoc hrun hstep hguar⟩
  · rw [hc']
    exact h.inv
  · rw [hc']
    exact hfree
  · by_cases hij : i = j
    · subst hij
      have hk : c'.threads i = k := by simp [hc']
      rw [hk, Rules.share_sync (R := R) hrun hstep hsync happly hc']
      exact hself
    · rw [Rules.share_of_ne hrun hstep hij _ (fun _ _ => by rw [hc'])]
      · simpa [hc', hij] using h.rest i
      · subst hc'
        exact LockOp.apply_writer_of_ne happly hij

theorem Respected.step (h : Respected R Q c₀ sched c) (hrun : sched.foldlM step c₀ = .ok c)
    (hgrant : R.Granted j c) (hstep : Threads.step c j = .ok c') :
    Respected R Q c₀ (sched ++ [j]) c' := by
  rcases step_cases hstep with ⟨f, k, hact, hc'⟩ | ⟨o, l, k, locks, hsync, happly, hc'⟩
  · exact h.act hrun hact hstep hc'
  · exact h.sync hrun hgrant hsync happly hstep hc'

/-- What the triples of the threads mean for a run of all of them that meets the assumption. -/
theorem respected_run {s : S} {threads : ι → Prog L S ρ} (hinv : R.inv s)
    (hfree : ∀ a, R.free a (R.cell s a)) (hwp : ∀ i, R.wp i (Q i) (threads i) .empty)
    (hrun : sched.foldlM Threads.step (Threads.start s threads) = .ok c)
    (hgrant : ∀ i, ∀ t ∈ stepsOf i (Threads.start s threads) sched, R.Granted i t.1) :
    Respected R Q (Threads.start s threads) sched c := by
  refine run_induction (P := fun as d =>
    (∀ i, ∀ t ∈ stepsOf i (Threads.start s threads) as, R.Granted i t.1) →
      Respected R Q (Threads.start s threads) as d) ?_ ?_ hrun hgrant
  · exact fun _ => Respected.start hinv hfree hwp
  · intro as d j d' hd ih hstep hgranted
    have hsteps : ∀ i, stepsOf i (Threads.start s threads) (as ++ [j]) =
        stepsOf i (Threads.start s threads) as ++ if j = i then [(d, d')] else [] :=
      stepsOf_snoc hd hstep
    have hprefix := ih fun i t ht => hgranted i t (by simp [hsteps, ht])
    exact hprefix.step hd (hgranted j (d, d') (by simp [hsteps])) hstep

theorem Respected.finished (h : Respected R Q c₀ sched c) {r : ρ} (hdone : c.threads i = .done r) :
    Q i r (R.share i c₀ sched c) := by
  have hrest := h.rest i
  rwa [hdone] at hrest

end Soundness
end Threads
