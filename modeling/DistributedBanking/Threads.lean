import DistributedBanking.Runs
import Mathlib.Data.Finset.Basic
import Mathlib.Logic.Function.Basic

/-!
# Threads over a shared memory

A program is a tree of atomic actions on the memory and of operations on locks.
A configuration holds the memory, who has which lock and what is left of each
thread; one step runs the head of one thread, and an interleaving is a run of
steps in the order of a schedule.

`lock` and `unlock` make a mutex. A readers-writer lock has them too: there
`lock` only takes the writer's place and keeps new readers out, and `drain`
waits until the readers have left.
-/

namespace Threads
open Runs

inductive LockOp
  | lock
  | drain
  | unlock
  | rlock
  | runlock
  deriving DecidableEq, Repr

/-- An action changes the memory by `f` and goes on with what it found there. -/
inductive Prog (L S ρ : Type)
  | done (r : ρ)
  | act (f : S → S) (k : S → Prog L S ρ)
  | sync (o : LockOp) (l : L) (k : Prog L S ρ)

namespace Prog
variable {L S ρ α β : Type}

def bind : Prog L S α → (α → Prog L S β) → Prog L S β
  | done r, next => next r
  | act f k, next => act f fun s => (k s).bind next
  | sync o l k, next => sync o l (k.bind next)

instance : Monad (Prog L S) where
  pure := done
  bind := bind

@[simp] theorem pure_def (r : ρ) : (pure r : Prog L S ρ) = done r := rfl

@[simp] theorem done_bind (r : α) (next : α → Prog L S β) : (done r >>= next) = next r := rfl

@[simp] theorem act_bind (f : S → S) (k : S → Prog L S α) (next : α → Prog L S β) :
    (act f k >>= next) = act f fun s => k s >>= next := rfl

@[simp] theorem sync_bind (o : LockOp) (l : L) (k : Prog L S α) (next : α → Prog L S β) :
    (sync o l k >>= next) = sync o l (k >>= next) := rfl

def read (get : S → α) : Prog L S α := act id fun s => done (get s)

def write (f : S → S) : Prog L S Unit := act f fun _ => done ()

def op (o : LockOp) (l : L) : Prog L S Unit := sync o l (done ())

def locked (l : L) (body : Prog L S ρ) : Prog L S ρ := do
  op .lock l
  let r ← body
  op .unlock l
  return r

def writing (l : L) (body : Prog L S ρ) : Prog L S ρ := do
  op .lock l
  op .drain l
  let r ← body
  op .unlock l
  return r

def reading (l : L) (body : Prog L S ρ) : Prog L S ρ := do
  op .rlock l
  let r ← body
  op .runlock l
  return r

def result : Prog L S ρ → Option ρ
  | done r => some r
  | _ => none

theorem result_eq_some {p : Prog L S ρ} {r : ρ} : p.result = some r ↔ p = done r := by
  cases p <;> simp [result]

theorem result_eq_none {p : Prog L S ρ} : p.result = none ↔ ∀ r, p ≠ done r := by
  cases p <;> simp [result]

def alone : Prog L S ρ → S → ρ × S
  | done r, s => (r, s)
  | act f k, s => (k s).alone (f s)
  | sync _ _ k, s => k.alone s

theorem alone_bind (p : Prog L S α) (next : α → Prog L S β) (s : S) :
    (p >>= next).alone s = (next (p.alone s).1).alone (p.alone s).2 := by
  induction p generalizing s with
  | done r => rfl
  | act f k ih => exact ih s (f s)
  | sync o l k ih => exact ih s

@[simp] theorem alone_read (get : S → α) (s : S) :
    (read get : Prog L S α).alone s = (get s, s) := rfl

-- In one step, so that a test on what was read keeps its decision procedure.
@[simp] theorem alone_read_bind (get : S → α) (next : α → Prog L S β) (s : S) :
    (read get >>= next).alone s = (next (get s)).alone s := rfl

@[simp] theorem alone_write (f : S → S) (s : S) :
    (write f : Prog L S Unit).alone s = ((), f s) := rfl

@[simp] theorem alone_op (o : LockOp) (l : L) (s : S) :
    (op o l : Prog L S Unit).alone s = ((), s) := rfl

@[simp] theorem alone_locked (l : L) (body : Prog L S ρ) (s : S) :
    (locked l body).alone s = body.alone s := by
  simp [locked, alone_bind, alone]

@[simp] theorem alone_writing (l : L) (body : Prog L S ρ) (s : S) :
    (writing l body).alone s = body.alone s := by
  simp [writing, alone_bind, alone]

@[simp] theorem alone_reading (l : L) (body : Prog L S ρ) (s : S) :
    (reading l body).alone s = body.alone s := by
  simp [reading, alone_bind, alone]

end Prog

structure Locks (L ι : Type) where
  writer : L → Option ι
  readers : L → Finset ι

def Locks.free {L ι : Type} : Locks L ι := ⟨fun _ => none, fun _ => ∅⟩

structure Config (ι L S ρ : Type) where
  mem : S
  locks : Locks L ι
  threads : ι → Prog L S ρ

/-- Why a thread has no step: it has ended, or it waits for another thread. -/
inductive Blocked
  | finished
  | waiting
  deriving DecidableEq, Repr

variable {ι L S ρ : Type} [DecidableEq ι] [DecidableEq L]

/-- A thread that locks what it has locked itself waits for ever. -/
def LockOp.apply (locks : Locks L ι) (i : ι) (l : L) : LockOp → Except Blocked (Locks L ι)
  | .lock =>
    if locks.writer l = none then
      .ok { locks with writer := Function.update locks.writer l (some i) }
    else .error .waiting
  | .drain =>
    if locks.writer l = some i ∧ locks.readers l = ∅ then .ok locks else .error .waiting
  | .unlock =>
    if locks.writer l = some i then
      .ok { locks with writer := Function.update locks.writer l none }
    else .error .waiting
  | .rlock =>
    if locks.writer l = none ∧ i ∉ locks.readers l then
      .ok { locks with readers := Function.update locks.readers l (insert i (locks.readers l)) }
    else .error .waiting
  | .runlock =>
    if i ∈ locks.readers l then
      .ok { locks with readers := Function.update locks.readers l ((locks.readers l).erase i) }
    else .error .waiting

theorem guarded_ok {ε α : Type} {p : Prop} [Decidable p] {a b : α} {e : ε} :
    (if p then Except.ok a else .error e) = .ok b ↔ p ∧ b = a := by
  split_ifs with h
  · simp [h, eq_comm]
  · simp [h]

namespace LockOp
variable {locks locks' : Locks L ι} {i : ι} {l : L}

theorem apply_lock : lock.apply locks i l = .ok locks' ↔ locks.writer l = none ∧
    locks' = { locks with writer := Function.update locks.writer l (some i) } := guarded_ok

theorem apply_drain : drain.apply locks i l = .ok locks' ↔
    (locks.writer l = some i ∧ locks.readers l = ∅) ∧ locks' = locks := guarded_ok

theorem apply_unlock : unlock.apply locks i l = .ok locks' ↔ locks.writer l = some i ∧
    locks' = { locks with writer := Function.update locks.writer l none } := guarded_ok

theorem apply_rlock : rlock.apply locks i l = .ok locks' ↔
    (locks.writer l = none ∧ i ∉ locks.readers l) ∧
    locks' = { locks with
      readers := Function.update locks.readers l (insert i (locks.readers l)) } :=
  guarded_ok

theorem apply_runlock : runlock.apply locks i l = .ok locks' ↔ i ∈ locks.readers l ∧
    locks' = { locks with
      readers := Function.update locks.readers l ((locks.readers l).erase i) } :=
  guarded_ok

end LockOp

def step (c : Config ι L S ρ) (i : ι) : Except Blocked (Config ι L S ρ) :=
  match c.threads i with
  | .done _ => .error .finished
  | .act f k => .ok ⟨f c.mem, c.locks, Function.update c.threads i (k c.mem)⟩
  | .sync o l k =>
    match o.apply c.locks i l with
    | .error e => .error e
    | .ok locks => .ok ⟨c.mem, locks, Function.update c.threads i k⟩

def start (s : S) (threads : ι → Prog L S ρ) : Config ι L S ρ := ⟨s, .free, threads⟩

theorem step_cases {c c' : Config ι L S ρ} {i : ι} (h : step c i = .ok c') :
    (∃ f k, c.threads i = .act f k ∧
        c' = ⟨f c.mem, c.locks, Function.update c.threads i (k c.mem)⟩) ∨
      ∃ o l k locks, c.threads i = .sync o l k ∧ o.apply c.locks i l = .ok locks ∧
        c' = ⟨c.mem, locks, Function.update c.threads i k⟩ := by
  rw [step] at h
  cases hp : c.threads i with
  | done r => simp [hp] at h
  | act f k =>
    simp only [hp, Except.ok.injEq] at h
    exact .inl ⟨f, k, rfl, h.symm⟩
  | sync o l k =>
    simp only [hp] at h
    cases ho : o.apply c.locks i l with
    | error e => simp [ho] at h
    | ok locks =>
      simp only [ho, Except.ok.injEq] at h
      exact .inr ⟨o, l, k, locks, rfl, ho, h.symm⟩

def stepsOf (i : ι) : Config ι L S ρ → List ι → List (Config ι L S ρ × Config ι L S ρ)
  | _, [] => []
  | c, j :: sched =>
    match step c j with
    | .error _ => []
    | .ok c' => if j = i then (c, c') :: stepsOf i c' sched else stepsOf i c' sched

theorem stepsOf_snoc {c₀ c c' : Config ι L S ρ} {sched : List ι} {j : ι}
    (hrun : sched.foldlM step c₀ = .ok c) (hstep : step c j = .ok c') (i : ι) :
    stepsOf i c₀ (sched ++ [j]) =
      stepsOf i c₀ sched ++ if j = i then [(c, c')] else [] := by
  induction sched generalizing c₀ with
  | nil =>
    cases hrun
    simp only [List.nil_append, stepsOf, hstep]
  | cons a sched ih =>
    rw [List.foldlM_cons] at hrun
    cases ha : step c₀ a with
    | error e => simp [ha, error_bind] at hrun
    | ok d =>
      rw [ha, ok_bind] at hrun
      simp only [List.cons_append, stepsOf, ha, ih hrun]
      split_ifs <;> rfl

end Threads
