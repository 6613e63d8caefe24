import DistributedBanking.Guarded
import DistributedBanking.MapRange
import DistributedBanking.Monitor

/-!
# The monitor under concurrent calls

The handler registers and notifies while the sweeper evicts. Reading the clock,
each round of a loop over the subscribers, each deletion and each write to the
socket is a step of its own; the order of the loops is left to the runtime, and
what the clock says to the machine.
-/

namespace DistributedBanking.Monitor.Concurrent
open Threads Prog Marshalling

/-- `clock n` is what the `n`-th call of `time.Now` returns, and `sent` what has been written to the
socket. -/
structure Memory where
  subscribers : FiniteMap Bytes Subscriber
  sent : List (UDPAddr × Bytes)
  clock : ℕ → ℕ
  ticks : ℕ

namespace Memory

def tick (s : Memory) : Memory := { s with ticks := s.ticks + 1 }

def setSubscriber (s : Memory) (key : Bytes) (sub : Subscriber) : Memory :=
  { s with subscribers := s.subscribers.set key sub }

def deleteSubscriber (s : Memory) (key : Bytes) : Memory :=
  { s with subscribers := s.subscribers.delete key }

def send (s : Memory) (addr : UDPAddr) (payload : Bytes) : Memory :=
  { s with sent := s.sent ++ [(addr, payload)] }

end Memory

inductive Call (M : Type)
  | register (clientAddr : UDPAddr) (interval : ℕ)
  | notifyAll (update : AccountUpdate M)
  | evictExpired
  | activeCount

/-- `done` has the time that the call read from the clock, if it did; only `ActiveCount` returns
anything to its caller. -/
inductive Answer
  | done (read : Option ℕ)
  | count (n : ℕ)
  deriving DecidableEq

def timeNow : Prog Unit Memory ℕ := .act Memory.tick fun s => .done (s.clock s.ticks)

def register (clientAddr : UDPAddr) (interval : ℕ) : Prog Unit Memory Answer := .locked () do
  let now ← timeNow
  .write fun s => s.setSubscriber clientAddr.string ⟨clientAddr, now + interval⟩
  return .done (some now)

def notifyLoop (now : ℕ) (payload : Bytes) : List (Bytes × Subscriber) → Prog Unit Memory Answer
  | [] => return .done (some now)
  | (key, sub) :: rest =>
    if expired now sub then do
      .write fun s => s.deleteSubscriber key
      notifyLoop now payload rest
    else do
      .write fun s => s.send sub.addr payload
      notifyLoop now payload rest

def notifyAll {M : Type} [Float64 M] (range : MapRange Bytes Subscriber)
    (update : AccountUpdate M) : Prog Unit Memory Answer := .locked () do
  let active ← .read fun s => s.subscribers.size
  if active = 0 then return .done none
  else do
    let now ← timeNow
    let subscribers ← .read fun s => s.subscribers
    notifyLoop now (marshalCallbackUpdate update) (range.order subscribers)

def evictLoop (now : ℕ) : List (Bytes × Subscriber) → Prog Unit Memory Answer
  | [] => return .done (some now)
  | (key, sub) :: rest =>
    if expired now sub then do
      .write fun s => s.deleteSubscriber key
      evictLoop now rest
    else evictLoop now rest

def evictExpired (range : MapRange Bytes Subscriber) : Prog Unit Memory Answer := .locked () do
  let now ← timeNow
  let subscribers ← .read fun s => s.subscribers
  evictLoop now (range.order subscribers)

def activeCount : Prog Unit Memory Answer := .locked () do
  let active ← .read fun s => s.subscribers.size
  return .count active

def method {M : Type} [Float64 M] (range : MapRange Bytes Subscriber) :
    Call M → Prog Unit Memory Answer
  | .register clientAddr interval => register clientAddr interval
  | .notifyAll update => notifyAll range update
  | .evictExpired => evictExpired range
  | .activeCount => activeCount

/-- What a call does when it happens at once, after so many readings of the clock. -/
def perform {M : Type} [Float64 M] (clock : ℕ → ℕ) (a : Manager × ℕ) :
    Call M → (Manager × ℕ) × Answer
  | .register clientAddr interval =>
    ((a.1.register (clock a.2) clientAddr interval, a.2 + 1), .done (some (clock a.2)))
  | .notifyAll update =>
    if a.1.subscribers.size = 0 then (a, .done none)
    else ((a.1.notifyAll (clock a.2) update, a.2 + 1), .done (some (clock a.2)))
  | .evictExpired => ((a.1.evictExpired (clock a.2), a.2 + 1), .done (some (clock a.2)))
  | .activeCount => (a, .count a.1.subscribers.size)

/-- The memory holds the manager: the packets sent are those of its notifications, one notification
after the other, and the clock has been read so often. -/
structure Represents (clock : ℕ → ℕ) (s : Memory) (a : Manager × ℕ) : Prop where
  subscribers : s.subscribers = a.1.subscribers
  sent : ∃ blocks : List (List (UDPAddr × Bytes)), s.sent = blocks.flatten ∧
    a.1.conn = blocks.map Multiset.ofList
  clock : s.clock = clock
  ticks : s.ticks = a.2

section Loops
variable {s : Memory} {now : ℕ} {payload : Bytes}

def leftover (now : ℕ) (visited : List (Bytes × Subscriber))
    (subscribers : FiniteMap Bytes Subscriber) : FiniteMap Bytes Subscriber :=
  (visited.filter fun e => expired now e.2).foldl (fun m e => m.delete e.1) subscribers

theorem get_foldl_delete (visited : List (Bytes × Subscriber))
    (subscribers : FiniteMap Bytes Subscriber) (key : Bytes) :
    (visited.foldl (fun m e => m.delete e.1) subscribers).get key =
      if key ∈ visited.map Prod.fst then none else subscribers.get key := by
  induction visited generalizing subscribers with
  | nil => rfl
  | cons e rest ih =>
    rw [List.foldl_cons, ih, FiniteMap.get_delete, List.map_cons]
    by_cases hkey : key = e.1
    · simp [hkey]
    · simp only [List.mem_cons, hkey, false_or, if_false]

theorem leftover_all (range : MapRange Bytes Subscriber)
    (subscribers : FiniteMap Bytes Subscriber) :
    leftover now (range.order subscribers) subscribers =
      subscribers.filter fun _ sub => !expired now sub := by
  refine FiniteMap.ext fun key => ?_
  rw [leftover, get_foldl_delete, FiniteMap.get_filter]
  have hmem : key ∈ ((range.order subscribers).filter fun e => expired now e.2).map Prod.fst ↔
      ∃ sub, subscribers.get key = some sub ∧ expired now sub = true := by
    simp only [List.mem_map, List.mem_filter, Prod.exists, range.mem_order]
    constructor
    · intro h
      obtain ⟨key', sub, ⟨hget, hexpired⟩, hkey⟩ := h
      subst hkey
      exact ⟨sub, hget, hexpired⟩
    · intro h
      obtain ⟨sub, hget, hexpired⟩ := h
      exact ⟨key, sub, ⟨hget, hexpired⟩, rfl⟩
  cases hget : subscribers.get key with
  | none => simp
  | some sub =>
    by_cases hexpired : expired now sub = true
    · rw [if_pos (hmem.mpr ⟨sub, hget, hexpired⟩)]
      simp [Option.filter, hexpired]
    · have hkept : ¬ ∃ sub', subscribers.get key = some sub' ∧ expired now sub' = true := by
        rw [hget]
        intro h
        obtain ⟨sub', hsame, hexpired'⟩ := h
        cases hsame
        exact hexpired hexpired'
      rw [if_neg fun h => hkept (hmem.mp h)]
      simp [Option.filter, hexpired]

theorem alone_notifyLoop (visited : List (Bytes × Subscriber)) (s : Memory) :
    (notifyLoop now payload visited).alone s = (.done (some now), { s with
      subscribers := leftover now visited s.subscribers
      sent := s.sent ++ (visited.filter fun e => !expired now e.2).map
        fun e => (e.2.addr, payload) }) := by
  induction visited generalizing s with
  | nil => simp [notifyLoop, leftover, alone]
  | cons e rest ih =>
    obtain ⟨key, sub⟩ := e
    rw [notifyLoop]
    split_ifs with hexpired
    · change (notifyLoop now payload rest).alone (s.deleteSubscriber key) = _
      rw [ih]
      simp [leftover, hexpired, Memory.deleteSubscriber]
    · change (notifyLoop now payload rest).alone (s.send sub.addr payload) = _
      rw [ih]
      simp [leftover, hexpired, Memory.send]

theorem alone_evictLoop (visited : List (Bytes × Subscriber)) (s : Memory) :
    (evictLoop now visited).alone s = (.done (some now), { s with
      subscribers := leftover now visited s.subscribers }) := by
  induction visited generalizing s with
  | nil => rfl
  | cons e rest ih =>
    obtain ⟨key, sub⟩ := e
    rw [evictLoop]
    split_ifs with hexpired
    · change (evictLoop now rest).alone (s.deleteSubscriber key) = _
      rw [ih]
      simp [leftover, hexpired, Memory.deleteSubscriber]
    · rw [ih]
      simp [leftover, hexpired]

theorem local_notifyLoop (visited : List (Bytes × Subscriber)) :
    (notifyLoop now payload visited).Local := by
  induction visited with
  | nil => trivial
  | cons e rest ih =>
    rw [notifyLoop]
    split_ifs
    · exact fun _ => ih
    · exact fun _ => ih

theorem local_evictLoop (visited : List (Bytes × Subscriber)) :
    (evictLoop now visited).Local := by
  induction visited with
  | nil => trivial
  | cons e rest ih =>
    rw [evictLoop]
    split_ifs
    · exact fun _ => ih
    · exact ih

end Loops

section Methods
variable {ι M : Type} [Float64 M] {calls : ι → Call M} {i : ι} {clock : ℕ → ℕ}
  {x : Snapshot ι Memory (Manager × ℕ) Answer} {s : Memory} {m : Manager} {n : ℕ}

def performed (clock : ℕ → ℕ) (calls : ι → Call M) (i : ι) (a a' : Manager × ℕ) (r : Answer) :
    Prop :=
  perform clock a (calls i) = (a', r)

theorem Represents.now (hs : Represents clock s (m, n)) : s.clock s.ticks = clock n := by
  rw [hs.clock, hs.ticks]

theorem Represents.tick (hs : Represents clock s (m, n))
    (subscribers : FiniteMap Bytes Subscriber) :
    Represents clock ⟨subscribers, s.sent, s.clock, s.ticks + 1⟩
      (⟨subscribers, m.conn⟩, n + 1) where
  subscribers := rfl
  sent := hs.sent
  clock := hs.clock
  ticks := congrArg (· + 1) hs.ticks

theorem Represents.send (hs : Represents clock s (m, n)) (packets : List (UDPAddr × Bytes)) :
    Represents clock { s with sent := s.sent ++ packets }
      (⟨m.subscribers, m.conn ++ [Multiset.ofList packets]⟩, n) where
  subscribers := hs.subscribers
  sent := by
    obtain ⟨blocks, hsent, hconn⟩ := hs.sent
    refine ⟨blocks ++ [packets], ?_, ?_⟩
    · simp [hsent]
    · simpa using hconn
  clock := hs.clock
  ticks := hs.ticks

theorem verified_register {clientAddr : UDPAddr} {interval : ℕ}
    (hi : calls i = .register clientAddr interval) :
    Verified (guarded (performed clock calls) false (Represents clock)) i
      (register clientAddr interval) x := by
  refine verified_locked (fun _ _ => trivial) ⟨_, _, rfl⟩ fun s a hs => ?_
  obtain ⟨m, n⟩ := a
  have hnow : s.clock s.ticks = clock n := hs.now
  refine ⟨(m.register (clock n) clientAddr interval, n + 1), ?_, ?_⟩
  · change perform clock (m, n) (calls i) = (_, .done (some (s.clock s.ticks)))
    rw [hi, perform, hnow]
  · have htick := hs.tick
      (s.subscribers.set clientAddr.string ⟨clientAddr, s.clock s.ticks + interval⟩)
    rw [Manager.register, ← hs.subscribers, ← hnow]
    exact htick

theorem notifyAll_busy (update : AccountUpdate M) (now : ℕ) (h : m.subscribers.size ≠ 0) :
    m.notifyAll now update =
      ⟨m.subscribers.filter fun _ sub => !expired now sub,
        m.conn ++ [(m.subscribers.filter fun _ sub => !expired now sub).entries.map
          fun e => (e.2.addr, marshalCallbackUpdate update)]⟩ := by
  have hcard : m.subscribers.entries.card ≠ 0 := by
    rw [FiniteMap.size, FiniteMap.total] at h
    simpa using h
  rw [Manager.notifyAll, if_neg hcard]

theorem packets_all (range : MapRange Bytes Subscriber)
    (subscribers : FiniteMap Bytes Subscriber) (now : ℕ) (payload : Bytes) :
    Multiset.ofList (((range.order subscribers).filter fun e => !expired now e.2).map
        fun e => (e.2.addr, payload)) =
      ((subscribers.filter fun _ sub => !expired now sub).entries.map
        fun e => (e.2.addr, payload)) := by
  have hfilter : (subscribers.filter fun _ sub => !expired now sub).entries =
      subscribers.entries.filter fun e => (!expired now e.2) = true := by
    rw [FiniteMap.entries, FiniteMap.entries, Multiset.filter_map]
    rfl
  rw [hfilter, ← range.complete, Multiset.filter_coe, Multiset.map_coe]
  simp only [Bool.decide_eq_true]

theorem verified_notifyAll {update : AccountUpdate M} (range : MapRange Bytes Subscriber)
    (hi : calls i = .notifyAll update) :
    Verified (guarded (performed clock calls) false (Represents clock)) i
      (notifyAll range update) x := by
  refine verified_locked ((local_read _).bind fun active => ?_) ⟨_, _, rfl⟩ fun s a hs => ?_
  · split_ifs
    · trivial
    · exact fun _ _ => local_notifyLoop _
  · obtain ⟨m, n⟩ := a
    have hsubscribers : s.subscribers = m.subscribers := hs.subscribers
    simp only [alone_read_bind, performed, hi, perform, ← hsubscribers]
    by_cases hactive : s.subscribers.size = 0
    · rw [if_pos hactive, if_pos hactive]
      exact ⟨(m, n), rfl, hs⟩
    · rw [if_neg hactive, if_neg hactive]
      change ∃ a', _ = (a', ((notifyLoop (s.clock s.ticks) (marshalCallbackUpdate update)
          (range.order s.subscribers)).alone s.tick).1) ∧
        Represents clock ((notifyLoop (s.clock s.ticks) (marshalCallbackUpdate update)
          (range.order s.subscribers)).alone s.tick).2 a'
      rw [alone_notifyLoop, hs.now]
      refine ⟨(m.notifyAll (clock n) update, n + 1), rfl, ?_⟩
      have hsend := (hs.tick (leftover (clock n) (range.order s.subscribers) s.subscribers)).send
        (((range.order s.subscribers).filter fun e => !expired (clock n) e.2).map
          fun e => (e.2.addr, marshalCallbackUpdate update))
      rw [packets_all, leftover_all, hsubscribers] at hsend
      rw [hsubscribers] at hactive
      rw [notifyAll_busy update _ hactive]
      change Represents clock { s.tick with
        subscribers := leftover (clock n) (range.order s.subscribers) s.subscribers
        sent := _ } _
      rw [leftover_all, hsubscribers]
      exact hsend

theorem verified_evictExpired (range : MapRange Bytes Subscriber)
    (hi : calls i = .evictExpired) :
    Verified (guarded (performed clock calls) false (Represents clock)) i
      (evictExpired range) x := by
  refine verified_locked (fun _ _ => local_evictLoop _) ⟨_, _, rfl⟩ fun s a hs => ?_
  obtain ⟨m, n⟩ := a
  change ∃ a', performed clock calls i (m, n) a'
      ((evictLoop (s.clock s.ticks) (range.order s.subscribers)).alone s.tick).1 ∧
    Represents clock ((evictLoop (s.clock s.ticks) (range.order s.subscribers)).alone s.tick).2 a'
  rw [alone_evictLoop, hs.now]
  refine ⟨(m.evictExpired (clock n), n + 1), ?_, ?_⟩
  · rw [performed, hi, perform]
  · have htick := hs.tick (leftover (clock n) (range.order s.subscribers) s.subscribers)
    have hsubscribers : s.subscribers = m.subscribers := hs.subscribers
    rw [leftover_all, hsubscribers] at htick
    change Represents clock { s.tick with
      subscribers := leftover (clock n) (range.order s.subscribers) s.subscribers } _
    rw [leftover_all, hsubscribers]
    exact htick

theorem verified_activeCount (hi : calls i = .activeCount) :
    Verified (guarded (performed clock calls) false (Represents clock)) i activeCount x := by
  refine verified_locked (fun _ => trivial) ⟨_, _, rfl⟩ fun s a hs => ?_
  refine ⟨a, ?_, hs⟩
  rw [performed, hi, perform, ← hs.subscribers]
  rfl

theorem verified_method (range : MapRange Bytes Subscriber) :
    Verified (guarded (performed clock calls) false (Represents clock)) i
      (method range (calls i)) x := by
  cases hi : calls i with
  | register clientAddr interval => exact verified_register hi
  | notifyAll update => exact verified_notifyAll range hi
  | evictExpired => exact verified_evictExpired range hi
  | activeCount => exact verified_activeCount hi

end Methods

section Runs
variable {ι M : Type} [DecidableEq ι] [Float64 M] {calls : ι → Call M}
  {ranges : ι → MapRange Bytes Subscriber} {sched : List ι} {clock : ℕ → ℕ} {s : Memory}
  {m : Manager} {n : ℕ} {c : Config ι Unit Memory Answer}

def start (s : Memory) (ranges : ι → MapRange Bytes Subscriber) (calls : ι → Call M) :
    Config ι Unit Memory Answer :=
  Threads.start s fun i => method (ranges i) (calls i)

/-- Registrations, notifications and sweeps that run at once have the outcome of some sequence of
them, each at the time that it read from the clock: the packets on the socket are those of whole
notifications, one after the other, each to the subscribers that had not expired. -/
theorem monitor_linearizable (hs : Represents clock s (m, n))
    (hrun : sched.foldlM step (start s ranges calls) = .ok c) :
    ∃ history a, Chronicle (fun i a a' r => perform clock a (calls i) = (a', r))
        (start s ranges calls) sched (m, n) history a ∧
      (∀ i r, c.threads i = .done r → (i, r) ∈ history) ∧
      ((∀ i, ∃ r, c.threads i = .done r) → Represents clock c.mem a) := by
  refine guarded_run hs (fun i => verified_method (ranges i)) (fun i r => ?_) hrun
  cases calls i <;> exact fun hdone => by cases hdone

end Runs

def newMemory (clock : ℕ → ℕ) : Memory := ⟨∅, [], clock, 0⟩

theorem newMemory_represents (clock : ℕ → ℕ) :
    Represents clock (newMemory clock) (newManager, 0) where
  subscribers := rfl
  sent := ⟨[], rfl, rfl⟩
  clock := rfl
  ticks := rfl

inductive Visitor
  | leaves
  | stays
  | notifies
  | sweeps
  | counts
  deriving DecidableEq

def visits : Visitor → Call UInt64
  | .leaves => .register (UDPAddr.loopback 1) 1
  | .stays => .register (UDPAddr.loopback 2) 100
  | .notifies => .notifyAll ⟨1, 10000, [65], 1, 0⟩
  | .sweeps => .evictExpired
  | .counts => .activeCount

def byAddress (_ : Visitor) : MapRange Bytes Subscriber := .sorted MapRange.bytes_injective

/-- The notification waits for the second registration, and finds one subscriber to remove and one
to write to. -/
def visitSchedule : List Visitor :=
  .replicate 4 .leaves ++ .replicate 2 .stays ++ .replicate 2 .stays ++ .replicate 7 .notifies ++
    .replicate 4 .sweeps ++ .replicate 3 .counts

theorem visits_linearize :
    ∃ c, visitSchedule.foldlM step (start (newMemory id) byAddress visits) = .ok c ∧
      c.mem.sent.map Prod.fst = [UDPAddr.loopback 2] ∧
      ∃ history a, Chronicle (fun i a a' r => perform id a (visits i) = (a', r))
          (start (newMemory id) byAddress visits) visitSchedule (newManager, 0) history a ∧
        (.notifies, .done (some 2)) ∈ history ∧ (.counts, .count 1) ∈ history ∧
        Represents id c.mem a := by
  obtain ⟨c, hrun, hdone⟩ := Runs.exists_of_check
    (x := visitSchedule.foldlM step (start (newMemory id) byAddress visits))
    (p := fun c => decide (c.mem.sent.map Prod.fst = [UDPAddr.loopback 2] ∧
      (c.threads .leaves).result = some (.done (some 0)) ∧
      (c.threads .stays).result = some (.done (some 1)) ∧
      (c.threads .notifies).result = some (.done (some 2)) ∧
      (c.threads .sweeps).result = some (.done (some 3)) ∧
      (c.threads .counts).result = some (.count 1)))
    (by decide +kernel)
  obtain ⟨hsent, hleaves, hstays, hnotifies, hsweeps, hcounts⟩ := of_decide_eq_true hdone
  obtain ⟨history, a, hchronicle, hresults, hend⟩ :=
    monitor_linearizable (newMemory_represents id) hrun
  refine ⟨c, hrun, hsent, history, a, hchronicle, hresults _ _ (result_eq_some.mp hnotifies),
    hresults _ _ (result_eq_some.mp hcounts), hend fun i => ?_⟩
  cases i with
  | leaves => exact ⟨_, result_eq_some.mp hleaves⟩
  | stays => exact ⟨_, result_eq_some.mp hstays⟩
  | notifies => exact ⟨_, result_eq_some.mp hnotifies⟩
  | sweeps => exact ⟨_, result_eq_some.mp hsweeps⟩
  | counts => exact ⟨_, result_eq_some.mp hcounts⟩

end DistributedBanking.Monitor.Concurrent
