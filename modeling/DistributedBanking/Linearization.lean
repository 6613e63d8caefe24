import DistributedBanking.Threads
import Mathlib.Data.List.Nodup

/-!
# Linearization points

Each thread runs one operation of a shared object, and a specification says what
the operation does when it happens at once. `wp` is a program logic that finds
the moment at which it does: locks protect parts of the memory and of the
specification's state, a thread relies on what the others leave alone, and at
one of its own steps the specification moves. The operations then take effect
one after the other, and in the order in which they ran if they did not overlap.
-/

namespace Threads
open Runs

/-- How a thread has a lock: it has the writer's place and waits for the readers to leave, it has
the lock to itself, or it reads. -/
inductive Hold
  | waiting
  | sole
  | shared
  deriving DecidableEq

/-- Two threads may have a lock together when one of them reads and the other does not write yet. -/
def Hold.Compatible : Hold → Hold → Prop
  | shared, shared => True
  | shared, waiting => True
  | waiting, shared => True
  | _, _ => False

abbrev Holds (L : Type) : Type := L → Option Hold

def Holds.none {L : Type} : Holds L := fun _ => Option.none

def Holds.Compatible {L : Type} (H H' : Holds L) : Prop :=
  ∀ l h h', H l = some h → H' l = some h' → h.Compatible h'

/-- The memory, the state of the specification, and who has taken effect with which result. -/
structure Snapshot (ι S σ ρ : Type) where
  mem : S
  abs : σ
  history : List (ι × ρ)

/-- A shared object. `free` is what a lock guarantees while no thread has it to itself, and `rely`
what may happen around a thread with the given locks. -/
structure Object (ι L S σ ρ : Type) where
  spec : ι → σ → σ → ρ → Prop
  -- A readers-writer lock, to be drained before it is held alone.
  rw : L → Bool
  inv : Snapshot ι S σ ρ → Prop
  free : L → Snapshot ι S σ ρ → Prop
  rely : Holds L → Snapshot ι S σ ρ → Snapshot ι S σ ρ → Prop
  rely_refl : ∀ H y, rely H y y
  rely_trans : ∀ H x y z, rely H x y → rely H y z → rely H x z
  rely_mono : ∀ H H' x y, (∀ l h, H l = some h → H' l = some h) → rely H' x y → rely H x y

/-- Operations one after the other, as the specification has them. -/
inductive Serial {ι σ ρ : Type} (spec : ι → σ → σ → ρ → Prop) (a : σ) : List (ι × ρ) → σ → Prop
  | nil : Serial spec a [] a
  | snoc {history : List (ι × ρ)} {b b' : σ} {i : ι} {r : ρ} (h : Serial spec a history b)
      (hspec : spec i b b' r) : Serial spec a (history ++ [(i, r)]) b'

section Logic
variable {ι L S σ ρ α β : Type}

abbrev ids (history : List (ι × ρ)) : List ι := history.map Prod.fst

structure Noted (i : ι) (com : Option ρ) (history : List (ι × ρ)) : Prop where
  pending : com = none → i ∉ ids history
  effective : ∀ r, com = some r → (i, r) ∈ history

namespace Object
variable (P : Object ι L S σ ρ)

inductive Effect (i : ι) : Option ρ → Snapshot ι S σ ρ → Option ρ → Snapshot ι S σ ρ → Prop
  | stays {com : Option ρ} {y y' : Snapshot ι S σ ρ} (habs : y'.abs = y.abs)
      (hhistory : y'.history = y.history) : Effect i com y com y'
  | commits {y y' : Snapshot ι S σ ρ} {r : ρ} (hspec : P.spec i y.abs y'.abs r)
      (hhistory : y'.history = y.history ++ [(i, r)]) : Effect i none y (some r) y'

structure Guarantees (H : Holds L) (y y' : Snapshot ι S σ ρ) : Prop where
  inv : P.inv y'
  free : ∀ l, H l ≠ some .sole → P.free l y → P.free l y'
  rely : ∀ H', H.Compatible H' → P.rely H' y y'

/-- What a thread may assume when it takes a step. -/
structure Valid (i : ι) (H : Holds L) (com : Option ρ) (y : Snapshot ι S σ ρ) : Prop where
  inv : P.inv y
  reading : ∀ l, H l = some .shared → P.free l y
  once : (ids y.history).Nodup
  noted : Noted i com y.history

theorem Guarantees.refl {P : Object ι L S σ ρ} {H : Holds L} {y : Snapshot ι S σ ρ}
    (h : P.inv y) : P.Guarantees H y y where
  inv := h
  free _ _ h := h
  rely H' _ := P.rely_refl H' y

variable [DecidableEq L]

def wpSync (i : ι) (l : L) (rest : Holds L → Snapshot ι S σ ρ → Prop) (H : Holds L)
    (com : Option ρ) (x : Snapshot ι S σ ρ) : LockOp → Prop
  | .lock => H l = none ∧ ∀ y, P.rely H x y → P.Valid i H com y → P.free l y →
      rest (Function.update H l (some (if P.rw l then .waiting else .sole))) y
  | .drain => H l = some .waiting ∧ ∀ y, P.rely H x y → P.Valid i H com y → P.free l y →
      rest (Function.update H l (some .sole)) y
  | .unlock => H l = some .sole ∧ ∀ y, P.rely H x y → P.Valid i H com y →
      P.free l y ∧ rest (Function.update H l none) y
  | .rlock => H l = none ∧ P.rw l ∧ ∀ y, P.rely H x y → P.Valid i H com y → P.free l y →
      rest (Function.update H l (some .shared)) y
  | .runlock => H l = some .shared ∧ ∀ y, P.rely H x y → P.Valid i H com y →
      rest (Function.update H l none) y

/-- The thread has the locks `H` and last saw the snapshot `x`. -/
def wp (i : ι) (Q : α → Holds L → Option ρ → Snapshot ι S σ ρ → Prop) :
    Prog L S α → Holds L → Option ρ → Snapshot ι S σ ρ → Prop
  | .done r, H, com, x => Q r H com x
  | .act f k, H, com, x => ∀ y, P.rely H x y → P.Valid i H com y → ∃ com' y',
      y'.mem = f y.mem ∧ P.Effect i com y com' y' ∧ P.Guarantees H y y' ∧
        wp i Q (k y.mem) H com' y'
  | .sync o l k, H, com, x => P.wpSync i l (fun H' y => wp i Q k H' com y) H com x o

variable {P} {i : ι} {H : Holds L} {com : Option ρ} {x : Snapshot ι S σ ρ}

theorem wpSync_mono {l : L} {rest rest' : Holds L → Snapshot ι S σ ρ → Prop} {o : LockOp}
    (h : P.wpSync i l rest H com x o) (himp : ∀ H' y, rest H' y → rest' H' y) :
    P.wpSync i l rest' H com x o := by
  cases o with
  | lock => exact ⟨h.1, fun y hrely hvalid hfree => himp _ y (h.2 y hrely hvalid hfree)⟩
  | drain => exact ⟨h.1, fun y hrely hvalid hfree => himp _ y (h.2 y hrely hvalid hfree)⟩
  | unlock =>
    refine ⟨h.1, fun y hrely hvalid => ?_⟩
    obtain ⟨hfree, hrest⟩ := h.2 y hrely hvalid
    exact ⟨hfree, himp _ y hrest⟩
  | rlock =>
    exact ⟨h.1, h.2.1, fun y hrely hvalid hfree => himp _ y (h.2.2 y hrely hvalid hfree)⟩
  | runlock => exact ⟨h.1, fun y hrely hvalid => himp _ y (h.2 y hrely hvalid)⟩

theorem wp_bind {Q : β → Holds L → Option ρ → Snapshot ι S σ ρ → Prop} {p : Prog L S α}
    {next : α → Prog L S β} (h : P.wp i (fun r => P.wp i Q (next r)) p H com x) :
    P.wp i Q (p >>= next) H com x := by
  induction p generalizing H com x with
  | done r => exact h
  | act f k ih =>
    intro y hrely hvalid
    obtain ⟨com', y', hmem, heffect, hguar, hrest⟩ := h y hrely hvalid
    exact ⟨com', y', hmem, heffect, hguar, ih y.mem hrest⟩
  | sync o l k ih => exact wpSync_mono h fun _ _ => ih

theorem wp_mono {Q Q' : α → Holds L → Option ρ → Snapshot ι S σ ρ → Prop} {p : Prog L S α}
    (h : P.wp i Q p H com x) (himp : ∀ r H' com' y, Q r H' com' y → Q' r H' com' y) :
    P.wp i Q' p H com x := by
  induction p generalizing H com x with
  | done r => exact himp r H com x h
  | act f k ih =>
    intro y hrely hvalid
    obtain ⟨com', y', hmem, heffect, hguar, hrest⟩ := h y hrely hvalid
    exact ⟨com', y', hmem, heffect, hguar, ih y.mem hrest⟩
  | sync o l k ih => exact wpSync_mono h fun _ _ => ih

theorem wp_read {Q : β → Holds L → Option ρ → Snapshot ι S σ ρ → Prop} {get : S → α}
    {next : α → Prog L S β}
    (h : ∀ y, P.rely H x y → P.Valid i H com y → P.wp i Q (next (get y.mem)) H com y) :
    P.wp i Q (.read get >>= next) H com x := fun y hrely hvalid =>
  ⟨com, y, rfl, .stays rfl rfl, .refl hvalid.inv, h y hrely hvalid⟩

theorem wp_op {Q : β → Holds L → Option ρ → Snapshot ι S σ ρ → Prop} {o : LockOp} {l : L}
    {next : Unit → Prog L S β}
    (h : P.wpSync i l (fun H' y => P.wp i Q (next ()) H' com y) H com x o) :
    P.wp i Q (.op o l >>= next) H com x := h

theorem hold_update {l : L} (hl : H l = none) (h : Hold) :
    ∀ l' h', H l' = some h' → Function.update H l (some h) l' = some h' := by
  intro l' h' hl'
  have hne : l' ≠ l := by
    intro hsame
    subst hsame
    rw [hl] at hl'
    cases hl'
  rw [Function.update_of_ne hne, hl']

theorem wp_unlock {Q : β → Holds L → Option ρ → Snapshot ι S σ ρ → Prop} {l : L}
    {next : Unit → Prog L S β} (hl : H l = some .sole)
    (h : ∀ y, P.rely H x y → P.Valid i H com y →
      P.free l y ∧ P.wp i Q (next ()) (Function.update H l none) com y) :
    P.wp i Q (.op .unlock l >>= next) H com x := ⟨hl, h⟩

theorem wp_lock {Q : β → Holds L → Option ρ → Snapshot ι S σ ρ → Prop} {l : L}
    {next : Unit → Prog L S β} (hl : H l = none) (hrw : P.rw l = false)
    (h : ∀ y, P.rely H x y → P.Valid i H com y → P.free l y →
      P.wp i Q (next ()) (Function.update H l (some .sole)) com y) :
    P.wp i Q (.op .lock l >>= next) H com x := by
  refine ⟨hl, fun y hrely hvalid hfree => ?_⟩
  rw [if_neg (by simp [hrw])]
  exact h y hrely hvalid hfree

/-- What a critical section has to end with, before its lock is given back. -/
def Ends (P : Object ι L S σ ρ) (i : ι) (l : L)
    (Q : α → Holds L → Option ρ → Snapshot ι S σ ρ → Prop) (r : α) (H : Holds L)
    (com : Option ρ) (x : Snapshot ι S σ ρ) : Prop :=
  H l = some .sole ∧ ∀ y, P.rely H x y → P.Valid i H com y →
    P.free l y ∧ Q r (Function.update H l none) com y

theorem wp_locked {Q : α → Holds L → Option ρ → Snapshot ι S σ ρ → Prop} {l : L}
    {body : Prog L S α} (hl : H l = none) (hrw : P.rw l = false)
    (h : ∀ y, P.rely H x y → P.Valid i H com y → P.free l y →
      P.wp i (Ends P i l Q) body (Function.update H l (some .sole)) com y) :
    P.wp i Q (.locked l body) H com x :=
  wp_lock hl hrw fun y hrely hvalid hfree =>
    wp_bind (wp_mono (h y hrely hvalid hfree) fun _ _ _ _ hends => wp_unlock hends.1 hends.2)

theorem wp_writing {Q : α → Holds L → Option ρ → Snapshot ι S σ ρ → Prop} {l : L}
    {body : Prog L S α} (hl : H l = none) (hrw : P.rw l = true)
    (h : ∀ y, P.rely H x y → P.Valid i H com y → P.free l y →
      P.wp i (Ends P i l Q) body (Function.update H l (some .sole)) com y) :
    P.wp i Q (.writing l body) H com x := by
  refine wp_op ⟨hl, fun y hrely hvalid hfree => ?_⟩
  rw [if_pos hrw]
  refine wp_op ⟨Function.update_self .., fun z hrely' hvalid' hfree' => ?_⟩
  have hsame : Function.update (Function.update H l (some .waiting)) l (some .sole) =
      Function.update H l (some Hold.sole) := Function.update_idem ..
  rw [hsame]
  have hz := P.rely_trans H x y z hrely
    (P.rely_mono H _ y z (hold_update hl .waiting) hrely')
  have hread : ∀ l', H l' = some .shared → P.free l' z := fun l' hl' =>
    hvalid'.reading l' (hold_update hl .waiting l' _ hl')
  exact wp_bind (wp_mono (h z hz ⟨hvalid'.inv, hread, hvalid'.once, hvalid'.noted⟩ hfree')
    fun _ _ _ _ hends => wp_unlock hends.1 hends.2)

theorem wp_reading {Q : α → Holds L → Option ρ → Snapshot ι S σ ρ → Prop} {l : L}
    {body : Prog L S α} (hl : H l = none) (hrw : P.rw l = true)
    (h : ∀ y, P.rely H x y → P.Valid i H com y → P.free l y →
      P.wp i (fun r H' com' z => H' l = some .shared ∧ ∀ w, P.rely H' z w →
        P.Valid i H' com' w → Q r (Function.update H' l none) com' w) body
        (Function.update H l (some .shared)) com y) :
    P.wp i Q (.reading l body) H com x :=
  wp_op ⟨hl, hrw, fun y hrely hvalid hfree =>
    wp_bind (wp_mono (h y hrely hvalid hfree) fun _ _ _ _ hends => wp_op hends)⟩

end Object
end Logic

end Threads
