import DistributedBanking.Registers
import DistributedBanking.Semantics

/-!
# The reply history as a map from clients and request ids

The entries are a map of maps whose inner maps are made on demand and may be
left empty by an eviction. Seen through `lookup` an operation overwrites the
cells of one client and no others, so a cell holds the last reply stored in it.
-/

namespace DistributedBanking.Semantics.ReplyHistory
open Registers

def evictClient (h : ReplyHistory) (clientAddr : Bytes) : ReplyHistory :=
  ⟨h.entries.delete clientAddr⟩

def evictBefore (h : ReplyHistory) (clientAddr : Bytes) (threshold : UInt32) : ReplyHistory :=
  match h.entries.get clientAddr with
  | none => h
  | some clientEntries =>
    ⟨h.entries.set clientAddr (clientEntries.filter fun id _ => !decide (id < threshold))⟩

def size (h : ReplyHistory) : ℕ := h.entries.total fun _ clientEntries => clientEntries.size

inductive Op
  | store (clientAddr : Bytes) (requestID : UInt32) (reply : Bytes)
  | evictClient (clientAddr : Bytes)
  | evictBefore (clientAddr : Bytes) (threshold : UInt32)
  deriving DecidableEq, Repr

def Op.client : Op → Bytes
  | store clientAddr _ _ => clientAddr
  | evictClient clientAddr => clientAddr
  | evictBefore clientAddr _ => clientAddr

def apply (h : ReplyHistory) : Op → ReplyHistory
  | .store clientAddr requestID reply => h.store clientAddr requestID reply
  | .evictClient clientAddr => h.evictClient clientAddr
  | .evictBefore clientAddr threshold => h.evictBefore clientAddr threshold

def run (ops : List Op) : ReplyHistory := ops.foldl apply newReplyHistory

def Op.effect (c : Bytes) (id : UInt32) : Op → Option (Option Bytes)
  | store c' id' reply => if c' = c ∧ id' = id then some (some reply) else none
  | evictClient c' => if c' = c then some none else none
  | evictBefore c' threshold => if c' = c ∧ id < threshold then some none else none

def Op.Stores (c : Bytes) (id : UInt32) (op : Op) : Prop := ∃ reply, op = store c id reply

def Op.Evicts (c : Bytes) (id : UInt32) (op : Op) : Prop :=
  op = evictClient c ∨ ∃ threshold, op = evictBefore c threshold ∧ id < threshold

section Effects
variable {c : Bytes} {id : UInt32} {op : Op}

theorem Op.effect_full_iff {reply : Bytes} :
    op.effect c id = some (some reply) ↔ op = store c id reply := by
  cases op with
  | store c' id' reply' => simp [effect, and_assoc]
  | evictClient c' => simp [effect]
  | evictBefore c' threshold => simp [effect]

theorem Op.effect_empty_iff : op.effect c id = some none ↔ op.Evicts c id := by
  cases op with
  | store c' id' reply' => simp [effect, Evicts]
  | evictClient c' => simp [effect, Evicts]
  | evictBefore c' threshold => simp [effect, Evicts]

theorem Op.effect_none_iff : op.effect c id = none ↔ ¬ op.Evicts c id ∧ ¬ op.Stores c id := by
  rw [← effect_empty_iff, Stores]
  simp only [← effect_full_iff]
  cases op.effect c id with
  | none => simp
  | some cell =>
    cases cell with
    | none => simp
    | some reply => simp

theorem Op.effect_of_ne (h : op.client ≠ c) : op.effect c id = none := by
  cases op with
  | store c' id' reply => exact if_neg fun heq => h heq.1
  | evictClient c' => exact if_neg h
  | evictBefore c' threshold => exact if_neg fun heq => h heq.1

end Effects

section Lookups
variable (h : ReplyHistory) (c c' : Bytes) (id : UInt32)

theorem lookup_eq_bind : h.lookup c id = (h.entries.get c).bind fun inner => inner.get id := by
  rw [lookup]
  cases h.entries.get c with
  | none => rfl
  | some clientEntries => rfl

theorem lookup_evictClient :
    (h.evictClient c').lookup c id = if c' = c then none else h.lookup c id := by
  rw [lookup_eq_bind, lookup_eq_bind, evictClient, FiniteMap.get_delete]
  by_cases hc : c' = c
  · simp [hc]
  · simp [hc, Ne.symm hc]

theorem lookup_evictBefore (threshold : UInt32) :
    (h.evictBefore c' threshold).lookup c id =
      if c' = c ∧ id < threshold then none else h.lookup c id := by
  rw [lookup_eq_bind, lookup_eq_bind, evictBefore]
  cases hget : h.entries.get c' with
  | none =>
    by_cases hc : c' = c
    · subst hc
      simp [hget]
    · simp [hc]
  | some clientEntries =>
    dsimp only
    rw [FiniteMap.get_set]
    by_cases hc : c' = c
    · subst hc
      by_cases hid : id < threshold
      · simp [FiniteMap.get_filter, hid]
      · cases hid' : clientEntries.get id with
        | none => simp [FiniteMap.get_filter, hid', hid, hget]
        | some reply => simp [FiniteMap.get_filter, hid', hid, hget]
    · simp [hc, Ne.symm hc]

theorem lookup_apply (op : Op) :
    (h.apply op).lookup c id = write (Op.effect c id) (h.lookup c id) op := by
  rw [write]
  cases op with
  | store c' id' reply =>
    rw [apply, lookup_store, Op.effect]
    by_cases heq : c = c' ∧ id = id'
    · rw [if_pos heq, if_pos ⟨heq.1.symm, heq.2.symm⟩]
      rfl
    · rw [if_neg heq, if_neg fun heq' => heq ⟨heq'.1.symm, heq'.2.symm⟩]
      rfl
  | evictClient c' =>
    rw [apply, lookup_evictClient, Op.effect]
    split_ifs <;> rfl
  | evictBefore c' threshold =>
    rw [apply, lookup_evictBefore, Op.effect]
    split_ifs <;> rfl

theorem lookup_run (ops : List Op) :
    (run ops).lookup c id = ops.foldl (write (Op.effect c id)) none := by
  rw [run, view_foldl (fun h : ReplyHistory => h.lookup c id) (Op.effect c id)
    (fun h op => lookup_apply h c id op), lookup_newReplyHistory]

def keys (h : ReplyHistory) : Finset (Bytes × UInt32) := h.entries.pairs

variable {h c id}

theorem mem_keys : (c, id) ∈ h.keys ↔ (h.lookup c id).isSome := by
  rw [keys, FiniteMap.mem_pairs, lookup_eq_bind]

end Lookups

/-- A history that a sequence of operations leaves, read as one flat map. -/
structure IsFlatMap (ops : List Op) (h : ReplyHistory) : Prop where
  found : ∀ c id, (h.lookup c id).isSome ↔
    ∃ pre reply post, ops = pre ++ .store c id reply :: post ∧ ∀ op ∈ post, ¬ op.Evicts c id
  bytes : ∀ c id reply, h.lookup c id = some reply ↔
    ∃ pre post, ops = pre ++ .store c id reply :: post ∧
      ∀ op ∈ post, ¬ op.Evicts c id ∧ ¬ op.Stores c id
  others : ∀ (op : Op) c, op.client ≠ c → ∀ id, (h.apply op).lookup c id = h.lookup c id
  counted : ∃ S : Finset (Bytes × UInt32),
    (∀ c id, (c, id) ∈ S ↔ (h.lookup c id).isSome) ∧ h.size = S.card

/-- The reply history is a map from clients and request ids to the last reply stored. -/
theorem isFlatMap_run (ops : List Op) : IsFlatMap ops (run ops) := by
  refine ⟨?_, ?_, ?_, ?_⟩
  · intro c id
    rw [lookup_run, foldl_isSome_iff]
    simp only [Op.effect_full_iff, ne_eq, Op.effect_empty_iff]
    constructor
    · intro hfilled
      obtain ⟨pre, op, post, hops, ⟨reply, hop⟩, hpost⟩ := hfilled
      exact ⟨pre, reply, post, hop ▸ hops, hpost⟩
    · intro hstored
      obtain ⟨pre, reply, post, hops, hpost⟩ := hstored
      exact ⟨pre, _, post, hops, ⟨reply, rfl⟩, hpost⟩
  · intro c id reply
    rw [lookup_run, foldl_eq_some_iff]
    simp only [Op.effect_full_iff, Op.effect_none_iff]
    constructor
    · intro hlast
      obtain ⟨pre, op, post, hops, hop, hpost⟩ := hlast
      exact ⟨pre, post, hop ▸ hops, hpost⟩
    · intro hstored
      obtain ⟨pre, post, hops, hpost⟩ := hstored
      exact ⟨pre, _, post, hops, rfl, hpost⟩
  · intro op c hclient id
    rw [lookup_apply, write, Op.effect_of_ne hclient]
    rfl
  · exact ⟨(run ops).keys, fun c id => mem_keys, (FiniteMap.card_pairs _).symm⟩

end DistributedBanking.Semantics.ReplyHistory
