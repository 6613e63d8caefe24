import DistributedBanking.Guarded
import DistributedBanking.MapRange
import DistributedBanking.ReplyHistory

/-!
# The reply history under concurrent calls

The history as it lies in memory: a map from clients to pointers to the maps of
their replies, and a readers-writer lock. Every access to a map is a step of its
own, and so is every round of the loops of `EvictBefore` and `Size`, whose order
is left to the runtime.
-/

namespace DistributedBanking.Semantics.ConcurrentHistory
open Threads Prog

structure Memory where
  entries : FiniteMap Bytes ℕ
  inner : ℕ → FiniteMap UInt32 Bytes
  allocated : ℕ

def newMemory : Memory := ⟨∅, fun _ => ∅, 0⟩

namespace Memory

/-- `make(map[uint32][]byte)`. -/
def makeMap (s : Memory) : Memory where
  entries := s.entries
  inner := Function.update s.inner s.allocated ∅
  allocated := s.allocated + 1

def setEntry (s : Memory) (clientAddr : Bytes) (m : ℕ) : Memory :=
  { s with entries := s.entries.set clientAddr m }

def deleteEntry (s : Memory) (clientAddr : Bytes) : Memory :=
  { s with entries := s.entries.delete clientAddr }

def setReply (s : Memory) (m : ℕ) (requestID : UInt32) (reply : Bytes) : Memory :=
  { s with inner := Function.update s.inner m ((s.inner m).set requestID reply) }

def deleteReply (s : Memory) (m : ℕ) (requestID : UInt32) : Memory :=
  { s with inner := Function.update s.inner m ((s.inner m).delete requestID) }

end Memory

inductive Call
  | lookup (clientAddr : Bytes) (requestID : UInt32)
  | change (op : ReplyHistory.Op)
  | size

inductive Answer
  | reply (found : Option Bytes)
  | done
  | count (total : ℕ)
  deriving DecidableEq

/-- The orders in which the loops of a call visit the maps. -/
structure Ranges where
  inner : MapRange UInt32 Bytes
  entries : MapRange Bytes ℕ

def lookup (clientAddr : Bytes) (requestID : UInt32) : Prog Unit Memory Answer := .reading () do
  match ← .read fun s => s.entries.get clientAddr with
  | none => return .reply none
  | some clientEntries =>
    let reply ← .read fun s => (s.inner clientEntries).get requestID
    return .reply reply

/-- The reply is copied first, which no other thread sees. -/
def store (clientAddr : Bytes) (requestID : UInt32) (reply : Bytes) : Prog Unit Memory Answer :=
  .writing () do
    match ← .read fun s => s.entries.get clientAddr with
    | none => do
      let m ← .act Memory.makeMap fun s => .done s.allocated
      .write fun s => s.setEntry clientAddr m
      .write fun s => s.setReply m requestID reply
      return .done
    | some m => do
      .write fun s => s.setReply m requestID reply
      return .done

def evictClient (clientAddr : Bytes) : Prog Unit Memory Answer := .writing () do
  .write fun s => s.deleteEntry clientAddr
  return .done

def evictLoop (m : ℕ) (threshold : UInt32) : List UInt32 → Prog Unit Memory Answer
  | [] => return .done
  | id :: rest =>
    if id < threshold then do
      .write fun s => s.deleteReply m id
      evictLoop m threshold rest
    else evictLoop m threshold rest

def evictBefore (range : MapRange UInt32 Bytes) (clientAddr : Bytes) (threshold : UInt32) :
    Prog Unit Memory Answer := .writing () do
  match ← .read fun s => s.entries.get clientAddr with
  | none => return .done
  | some m =>
    let clientEntries ← .read fun s => s.inner m
    evictLoop m threshold ((range.order clientEntries).map Prod.fst)

def sizeLoop : List ℕ → ℕ → Prog Unit Memory Answer
  | [], total => return .count total
  | m :: rest, total => do
    let len ← .read fun s => (s.inner m).size
    sizeLoop rest (total + len)

def size (range : MapRange Bytes ℕ) : Prog Unit Memory Answer := .reading () do
  let entries ← .read fun s => s.entries
  sizeLoop ((range.order entries).map Prod.snd) 0

def method (ranges : Ranges) : Call → Prog Unit Memory Answer
  | .lookup clientAddr requestID => lookup clientAddr requestID
  | .change (.store clientAddr requestID reply) => store clientAddr requestID reply
  | .change (.evictClient clientAddr) => evictClient clientAddr
  | .change (.evictBefore clientAddr threshold) =>
    evictBefore ranges.inner clientAddr threshold
  | .size => size ranges.entries

def answer (h : ReplyHistory) : Call → ReplyHistory × Answer
  | .lookup clientAddr requestID => (h, .reply (h.lookup clientAddr requestID))
  | .change op => (h.apply op, .done)
  | .size => (h, .count h.size)

/-- The maps in memory hold the history, with a map of its own for each client. -/
structure Represents (s : Memory) (h : ReplyHistory) : Prop where
  view : h.entries = s.entries.map s.inner
  separate : ∀ c c' m, s.entries.get c = some m → s.entries.get c' = some m → c = c'
  allocated : ∀ c m, s.entries.get c = some m → m < s.allocated

theorem newMemory_represents : Represents newMemory ReplyHistory.newReplyHistory where
  view := FiniteMap.ext fun k => by
    simp [newMemory, ReplyHistory.newReplyHistory, FiniteMap.get_map]
  separate c c' m h := by simp [newMemory] at h
  allocated c m h := by simp [newMemory] at h

section Alone
variable {s : Memory} {h : ReplyHistory} {c : Bytes} {m : ℕ}

theorem Represents.get (hs : Represents s h) (c : Bytes) :
    h.entries.get c = (s.entries.get c).map s.inner := by
  rw [hs.view, FiniteMap.get_map]

theorem Represents.lookup (hs : Represents s h) (id : UInt32) :
    h.lookup c id = (s.entries.get c).bind fun m => (s.inner m).get id := by
  rw [ReplyHistory.lookup_eq_bind, hs.get]
  cases s.entries.get c with
  | none => rfl
  | some m => rfl

theorem Represents.setInner (hs : Represents s h) (hm : s.entries.get c = some m)
    (entries : FiniteMap UInt32 Bytes) :
    Represents { s with inner := Function.update s.inner m entries }
      ⟨h.entries.set c entries⟩ where
  view := by
    refine FiniteMap.ext fun c' => ?_
    rw [FiniteMap.get_map, FiniteMap.get_set]
    split_ifs with hc
    · rw [hc, hm]
      simp
    · rw [hs.get]
      cases hget : s.entries.get c' with
      | none => rfl
      | some m' =>
        have hne : m' ≠ m := fun hsame => hc (hs.separate c' c m (by rw [hget, hsame]) hm)
        exact congrArg some (Function.update_of_ne hne ..).symm
  separate := hs.separate
  allocated := hs.allocated

theorem Represents.makeMap (hs : Represents s h) (c : Bytes) :
    Represents (s.makeMap.setEntry c s.allocated) ⟨h.entries.set c ∅⟩ where
  view := by
    refine FiniteMap.ext fun c' => ?_
    rw [Memory.setEntry, Memory.makeMap, FiniteMap.get_map, FiniteMap.get_set, FiniteMap.get_set]
    split_ifs with hc
    · simp
    · rw [hs.get]
      cases hget : s.entries.get c' with
      | none => rfl
      | some m' => exact congrArg some (Function.update_of_ne (hs.allocated c' m' hget).ne ..).symm
  separate := by
    intro c₁ c₂ m' h₁ h₂
    rw [Memory.setEntry, Memory.makeMap, FiniteMap.get_set] at h₁ h₂
    split_ifs at h₁ h₂ with hc₁ hc₂ hc₂
    · rw [hc₁, hc₂]
    · cases h₁
      exact absurd (hs.allocated c₂ _ h₂) (lt_irrefl _)
    · cases h₂
      exact absurd (hs.allocated c₁ _ h₁) (lt_irrefl _)
    · exact hs.separate c₁ c₂ m' h₁ h₂
  allocated := by
    intro c' m' hget
    rw [Memory.setEntry, FiniteMap.get_set] at hget
    change m' < s.allocated + 1
    split_ifs at hget with hc
    · cases hget
      exact Nat.lt_succ_self _
    · exact (hs.allocated c' m' hget).trans (Nat.lt_succ_self _)

theorem Represents.deleteEntry (hs : Represents s h) (c : Bytes) :
    Represents (s.deleteEntry c) (h.evictClient c) where
  view := by
    refine FiniteMap.ext fun c' => ?_
    rw [ReplyHistory.evictClient, Memory.deleteEntry, FiniteMap.get_map, FiniteMap.get_delete,
      FiniteMap.get_delete, hs.get]
    split_ifs
    · rfl
    · rfl
  separate c₁ c₂ m' h₁ h₂ := by
    rw [Memory.deleteEntry, FiniteMap.get_delete] at h₁ h₂
    split_ifs at h₁ h₂
    exact hs.separate c₁ c₂ m' h₁ h₂
  allocated c' m' hget := by
    rw [Memory.deleteEntry, FiniteMap.get_delete] at hget
    split_ifs at hget
    exact hs.allocated c' m' hget

def kept (threshold : UInt32) (visited : List UInt32) (entries : FiniteMap UInt32 Bytes) :
    FiniteMap UInt32 Bytes :=
  entries.filter fun id _ => !decide (id ∈ visited ∧ id < threshold)

theorem kept_nil (threshold : UInt32) (entries : FiniteMap UInt32 Bytes) :
    kept threshold [] entries = entries := by
  refine FiniteMap.ext fun id => ?_
  rw [kept, FiniteMap.get_filter]
  cases entries.get id <;> simp

theorem kept_cons_of_lt {threshold id : UInt32} (hid : id < threshold) (visited : List UInt32)
    (entries : FiniteMap UInt32 Bytes) :
    kept threshold (id :: visited) entries = kept threshold visited (entries.delete id) := by
  refine FiniteMap.ext fun id' => ?_
  rw [kept, kept, FiniteMap.get_filter, FiniteMap.get_filter, FiniteMap.get_delete]
  by_cases hsame : id' = id
  · cases hget : entries.get id <;> simp [hsame, hid, hget]
  · simp [hsame]

theorem kept_cons_of_not_lt {threshold id : UInt32} (hid : ¬ id < threshold)
    (visited : List UInt32) (entries : FiniteMap UInt32 Bytes) :
    kept threshold (id :: visited) entries = kept threshold visited entries := by
  refine FiniteMap.ext fun id' => ?_
  rw [kept, kept, FiniteMap.get_filter, FiniteMap.get_filter]
  by_cases hsame : id' = id
  · simp [hsame, hid]
  · simp [hsame]

theorem kept_all (range : MapRange UInt32 Bytes) {threshold : UInt32}
    {entries : FiniteMap UInt32 Bytes} :
    kept threshold ((range.order entries).map Prod.fst) entries =
      entries.filter fun id _ => !decide (id < threshold) := by
  refine FiniteMap.ext fun id => ?_
  rw [kept, FiniteMap.get_filter, FiniteMap.get_filter]
  cases hget : entries.get id with
  | none => rfl
  | some reply =>
    have hmem : id ∈ (range.order entries).map Prod.fst :=
      List.mem_map_of_mem (f := Prod.fst) (range.mem_order.mpr hget)
    simp only [hmem, true_and]

theorem alone_evictLoop (threshold : UInt32) (visited : List UInt32) (s : Memory) :
    (evictLoop m threshold visited).alone s = (.done, { s with
      inner := Function.update s.inner m (kept threshold visited (s.inner m)) }) := by
  induction visited generalizing s with
  | nil =>
    rw [kept_nil, Function.update_eq_self]
    rfl
  | cons id rest ih =>
    rw [evictLoop]
    split_ifs with hid
    · change (evictLoop m threshold rest).alone (s.deleteReply m id) = _
      rw [ih, kept_cons_of_lt hid]
      simp [Memory.deleteReply]
    · rw [ih, kept_cons_of_not_lt hid]

theorem alone_sizeLoop (maps : List ℕ) (total : ℕ) (s : Memory) :
    (sizeLoop maps total).alone s =
      (.count (total + (maps.map fun m => (s.inner m).size).sum), s) := by
  induction maps generalizing total with
  | nil => rfl
  | cons m rest ih =>
    change (sizeLoop rest (total + (s.inner m).size)).alone s = _
    rw [ih, List.map_cons, List.sum_cons, Nat.add_assoc]

end Alone

section Shapes

theorem local_evictLoop (m : ℕ) (threshold : UInt32) (visited : List UInt32) :
    (evictLoop m threshold visited).Local := by
  induction visited with
  | nil => trivial
  | cons id rest ih =>
    rw [evictLoop]
    split_ifs
    · exact fun _ => ih
    · exact ih

theorem readOnly_sizeLoop (maps : List ℕ) (total : ℕ) : (sizeLoop maps total).ReadOnly := by
  induction maps generalizing total with
  | nil => trivial
  | cons m rest ih => exact ⟨fun _ => rfl, fun s => ih _⟩

end Shapes

section Methods
variable {ι : Type} {calls : ι → Call} {i : ι} {x : Snapshot ι Memory ReplyHistory Answer}

def performed (calls : ι → Call) (i : ι) (h h' : ReplyHistory) (r : Answer) : Prop :=
  answer h (calls i) = (h', r)

theorem verified_lookup {c : Bytes} {id : UInt32} (hi : calls i = .lookup c id) :
    Verified (guarded (performed calls) true Represents) i (lookup c id) x := by
  refine verified_reading ((readOnly_read _).bind fun found => ?_) ⟨_, _, rfl⟩ fun s h hs => ?_
  · cases found with
    | none => trivial
    | some m => exact ReadOnly.bind (readOnly_read _) fun _ => trivial
  · rw [performed, hi, answer, hs.lookup, alone_read_bind]
    cases s.entries.get c with
    | none => rfl
    | some m => rfl

theorem verified_store {c : Bytes} {id : UInt32} {reply : Bytes}
    (hi : calls i = .change (.store c id reply)) :
    Verified (guarded (performed calls) true Represents) i (store c id reply) x := by
  refine verified_writing ((local_read _).bind fun found => ?_) ⟨_, _, rfl⟩ fun s h hs => ?_
  · cases found with
    | none => exact fun _ _ _ => trivial
    | some m => exact fun _ => trivial
  · refine ⟨h.store c id reply, ?_, ?_⟩
    · rw [performed, hi, answer, ReplyHistory.apply, alone_read_bind]
      cases s.entries.get c with
      | none => rfl
      | some m => rfl
    · rw [alone_read_bind]
      cases hget : s.entries.get c with
      | none =>
        have hempty : (s.makeMap.setEntry c s.allocated).inner s.allocated = ∅ :=
          Function.update_self ..
        have hset := (hs.makeMap c).setInner (c := c) (m := s.allocated)
          (FiniteMap.get_set_self ..) ((∅ : FiniteMap UInt32 Bytes).set id reply)
        have hstore : h.store c id reply = ⟨(h.entries.set c ∅).set c
            ((∅ : FiniteMap UInt32 Bytes).set id reply)⟩ := by
          rw [ReplyHistory.store, hs.get, hget]
          simp
        rw [hstore]
        change Represents ((s.makeMap.setEntry c s.allocated).setReply s.allocated id reply) _
        rw [Memory.setReply, hempty]
        exact hset
      | some m =>
        have hset := hs.setInner hget ((s.inner m).set id reply)
        have hstore : h.store c id reply = ⟨h.entries.set c ((s.inner m).set id reply)⟩ := by
          rw [ReplyHistory.store, hs.get, hget]
          rfl
        rw [hstore]
        exact hset

theorem verified_evictClient {c : Bytes} (hi : calls i = .change (.evictClient c)) :
    Verified (guarded (performed calls) true Represents) i (evictClient c) x := by
  refine verified_writing (fun _ => trivial) ⟨_, _, rfl⟩ fun s h hs => ?_
  refine ⟨h.evictClient c, ?_, ?_⟩
  · rw [performed, hi]
    rfl
  · exact hs.deleteEntry c

theorem verified_evictBefore {c : Bytes} {threshold : UInt32} (range : MapRange UInt32 Bytes)
    (hi : calls i = .change (.evictBefore c threshold)) :
    Verified (guarded (performed calls) true Represents) i (evictBefore range c threshold) x := by
  refine verified_writing ((local_read _).bind fun found => ?_) ⟨_, _, rfl⟩ fun s h hs => ?_
  · cases found with
    | none => trivial
    | some m => exact (local_read _).bind fun _ => local_evictLoop ..
  · refine ⟨h.evictBefore c threshold, ?_, ?_⟩
    · rw [performed, hi, answer, ReplyHistory.apply, alone_read_bind]
      cases s.entries.get c with
      | none => rfl
      | some m => simp only [alone_read_bind, alone_evictLoop]
    · rw [alone_read_bind, ReplyHistory.evictBefore, hs.get]
      cases hget : s.entries.get c with
      | none => exact hs
      | some m =>
        simp only [alone_read_bind, alone_evictLoop, Option.map_some]
        have hset := hs.setInner hget
          (kept threshold ((range.order (s.inner m)).map Prod.fst) (s.inner m))
        rw [kept_all range] at hset ⊢
        exact hset

theorem verified_size (range : MapRange Bytes ℕ) (hi : calls i = .size) :
    Verified (guarded (performed calls) true Represents) i (size range) x := by
  refine verified_reading ((readOnly_read _).bind fun _ => readOnly_sizeLoop ..) ⟨_, _, rfl⟩
    fun s h hs => ?_
  rw [performed, hi, answer, alone_read_bind, alone_sizeLoop, ReplyHistory.size, hs.view,
    FiniteMap.total_map, ← range.sum_order, List.map_map, Nat.zero_add]
  rfl

theorem verified_method (ranges : Ranges) :
    Verified (guarded (performed calls) true Represents) i (method ranges (calls i)) x := by
  cases hi : calls i with
  | lookup c id => exact verified_lookup hi
  | change op =>
    cases op with
    | store c id reply => exact verified_store hi
    | evictClient c => exact verified_evictClient hi
    | evictBefore c threshold => exact verified_evictBefore ranges.inner hi
  | size => exact verified_size ranges.entries hi

end Methods

section Runs
variable {ι : Type} [DecidableEq ι] {calls : ι → Call} {ranges : ι → Ranges} {sched : List ι}
  {s : Memory} {h : ReplyHistory} {c : Config ι Unit Memory Answer}

def start (s : Memory) (ranges : ι → Ranges) (calls : ι → Call) : Config ι Unit Memory Answer :=
  Threads.start s fun i => method (ranges i) (calls i)

/-- However the steps of concurrent calls are interleaved and whatever order their loops take, they
answer what a sequential history answers to them in some order, which keeps the order of calls
that did not overlap, and leave its replies. -/
theorem history_linearizable (hs : Represents s h)
    (hrun : sched.foldlM step (start s ranges calls) = .ok c) :
    ∃ history h', Chronicle (fun i h h' r => answer h (calls i) = (h', r)) (start s ranges calls)
        sched h history h' ∧
      (∀ i r, c.threads i = .done r → (i, r) ∈ history) ∧
      ((∀ i, ∃ r, c.threads i = .done r) → Represents c.mem h') := by
  refine guarded_run hs (fun i => verified_method (ranges i)) (fun i r => ?_) hrun
  cases calls i with
  | lookup c id => exact fun hdone => by cases hdone
  | change op => cases op <;> exact fun hdone => by cases hdone
  | size => exact fun hdone => by cases hdone

end Runs

/-- A retransmission is looked up while the reply to the request is being stored. -/
def storeAndLookup : Bool → Call
  | false => .change (.store [1] 5 [9])
  | true => .lookup [1] 5

/-- The reader comes first; the writer has its place already, and waits. -/
def readerFirst : List Bool := [true, false, true, true] ++ .replicate 6 false

def sortedRanges (_ : Bool) : Ranges where
  inner := .sorted fun _ _ => UInt32.toNat_inj.mp
  entries := .sorted MapRange.bytes_injective

theorem storeAndLookup_linearize :
    ∃ c, readerFirst.foldlM step (start newMemory sortedRanges storeAndLookup) = .ok c ∧
      ∃ history h, Chronicle (fun i h h' r => answer h (storeAndLookup i) = (h', r))
          (start newMemory sortedRanges storeAndLookup) readerFirst ReplyHistory.newReplyHistory
          history h ∧
        (true, .reply none) ∈ history ∧ (false, .done) ∈ history ∧ Represents c.mem h := by
  obtain ⟨c, hrun, hdone⟩ := Runs.exists_of_check
    (x := readerFirst.foldlM step (start newMemory sortedRanges storeAndLookup))
    (p := fun c => decide ((c.threads false).result = some .done ∧
      (c.threads true).result = some (.reply none)))
    (by decide +kernel)
  obtain ⟨hstore, hlookup⟩ := of_decide_eq_true hdone
  obtain ⟨history, h, hchronicle, hresults, hend⟩ :=
    history_linearizable newMemory_represents hrun
  refine ⟨c, hrun, history, h, hchronicle, hresults true _ (result_eq_some.mp hlookup),
    hresults false _ (result_eq_some.mp hstore), hend fun i => ?_⟩
  cases i with
  | false => exact ⟨_, result_eq_some.mp hstore⟩
  | true => exact ⟨_, result_eq_some.mp hlookup⟩

end DistributedBanking.Semantics.ConcurrentHistory
