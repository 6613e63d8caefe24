import DistributedBanking.CallbackBounds
import DistributedBanking.ClientGrammar

/-!
# Doubles in network order

Integers go through `htonl`, which knows the host. Doubles are reversed by hand
and then copied as the host stores them, so that a big-endian host writes and
reads them back to front. That shows unless the pattern is its own reverse.
-/

namespace DistributedBanking.ClientProtocol
open ByteOrder

/-- What the bytes that a host writes for `v` mean in network order, and what it takes the bytes of
`v` in network order for. -/
def inTransit (e : Endian) (v : UInt64) : UInt64 :=
  match e with
  | .little => v
  | .big => swapUint64 v

theorem objectBytes_swapUint64_inTransit (e : Endian) (v : UInt64) :
    objectBytes e 8 (swapUint64 v).toNat = bigEndianPutUint64 (inTransit e v) := by
  cases e with
  | little => exact objectBytes_swapUint64 v
  | big => rfl

theorem doubleOf_put (e : Endian) (v : UInt64) :
    doubleOf e (bigEndianPutUint64 v) = inTransit e v := by
  cases e with
  | little => exact swapUint64_objectValue v
  | big =>
    change swapUint64 (UInt64.ofNat (ofBE (bigEndianPutUint64 v))) = swapUint64 v
    rw [uint64_ofBE_put]

theorem bigEndianPutUint64_injective : Function.Injective bigEndianPutUint64 := by
  intro v w h
  rw [← uint64_ofBE_put v, h, uint64_ofBE_put]

theorem reverse_put (v : UInt64) :
    (bigEndianPutUint64 v).reverse = bigEndianPutUint64 (swapUint64 v) := by
  have h : (bigEndianPutUint64 (swapUint64 v)).reverse = bigEndianPutUint64 v :=
    objectBytes_swapUint64 v
  rw [← h, List.reverse_reverse]

theorem inTransit_eq_iff {e : Endian} {v : UInt64} :
    inTransit e v = v ↔
      e = .little ∨ (bigEndianPutUint64 v).reverse = bigEndianPutUint64 v := by
  rw [reverse_put, bigEndianPutUint64_injective.eq_iff]
  cases e with
  | little => simp [inTransit]
  | big => simp [inTransit]

section Codec
variable (e : Endian) (v : UInt64)

theorem appendDouble_eq (buffer : Bytes) :
    appendDouble e buffer v = buffer ++ bigEndianPutUint64 (inTransit e v) := by
  rw [appendDouble, objectBytes_swapUint64_inTransit]

theorem encodeCallback_balance (m : CallbackMessage) :
    ∃ front, front.length = 11 + m.accountOwnerName.length ∧
      CallbackEncoder.encodeMessage e m =
        .ok (front ++ bigEndianPutUint64 (inTransit e m.monetaryValue)) := by
  refine ⟨[m.type, m.service] ++ bigEndianPutUint32 m.accountNumber ++
    bigEndianPutUint32 m.accountOwnerNameLen ++ m.accountOwnerName ++ [m.currency], ?_, ?_⟩
  · simp only [List.length_append, List.length_cons, List.length_nil, length_bigEndianPutUint32]
    omega
  · simp [CallbackEncoder.encodeMessage, objectBytes_htonl, objectBytes_swapUint64_inTransit]

variable {v} {data rest : Bytes} {offset : ℕ}

theorem decodeMonetaryValue_put (cmd : Command)
    (h : data.drop offset = bigEndianPutUint64 v ++ rest) :
    decodeMonetaryValue e cmd offset 8 data =
      .ok (.ok { cmd with monetaryValue := some (inTransit e v) }) := by
  have hin := length_of_drop h (by rw [← List.length_pos_iff_ne_nil]; simp)
  have hdecode :
      decodeMonetaryValue e cmd offset (UInt32.ofNat (bigEndianPutUint64 v).length) data =
      .ok (.ok { cmd with monetaryValue := some (doubleOf e (bigEndianPutUint64 v)) }) :=
    decodeMonetaryValue_ok e cmd (length_bigEndianPutUint64 v) hin (by rw [h, List.take_left])
  rw [length_bigEndianPutUint64, doubleOf_put] at hdecode
  exact hdecode

theorem decodeCallback_put
    (h : data.drop (11 + CallbackEncoder.nameLength data) = bigEndianPutUint64 v ++ rest) :
    ∃ m, CallbackEncoder.decodeMessage e data = .ok (.ok m) ∧ m.monetaryValue = inTransit e v := by
  have hin := length_of_drop h (by rw [← List.length_pos_iff_ne_nil]; simp)
  rw [length_bigEndianPutUint64] at hin
  obtain ⟨accountNumber, nameLen, -, hdecode⟩ := CallbackEncoder.decodeMessage_name e
    (show CallbackEncoder.minCallbackSize ≤ data.length by
      rw [CallbackEncoder.minCallbackSize]
      omega)
  have hoffset : 10 + CallbackEncoder.nameLength data + 1 =
      11 + CallbackEncoder.nameLength data := by
    omega
  have hload : loadUint64 e data (11 + CallbackEncoder.nameLength data) =
      .ok (UInt64.ofNat (objectValue e (bigEndianPutUint64 v))) := by
    have htake : (bigEndianPutUint64 v ++ rest).take 8 = bigEndianPutUint64 v :=
      List.take_left' (length_bigEndianPutUint64 v)
    rw [loadUint64, memcpy_ok hin, h, htake]
    rfl
  rw [hoffset, hload, memcpy_ok (by omega), ok_bind, loadUint8_ok (by omega), ok_bind,
    ok_bind] at hdecode
  exact ⟨_, hdecode, doubleOf_put e v⟩

end Codec

structure NetworkOrder (e : Endian) (v : UInt64) : Prop where
  appended : ∀ buffer, appendDouble e buffer v = buffer ++ bigEndianPutUint64 v
  goReads : bigEndianUint64 (appendDouble e [] v) = .ok v
  encoded : ∀ m : CallbackMessage, m.monetaryValue = v → ∃ data,
    CallbackEncoder.encodeMessage e m = .ok data ∧
    data.drop (11 + m.accountOwnerName.length) = bigEndianPutUint64 v
  decoded : ∀ cmd data offset rest, data.drop offset = bigEndianPutUint64 v ++ rest →
    decodeMonetaryValue e cmd offset 8 data = .ok (.ok { cmd with monetaryValue := some v })
  received : ∀ data rest,
    data.drop (11 + CallbackEncoder.nameLength data) = bigEndianPutUint64 v ++ rest →
    ∃ m, CallbackEncoder.decodeMessage e data = .ok (.ok m) ∧ m.monetaryValue = v

/-- The manual swap is right on a little-endian host, and for the patterns that it leaves alone. -/
theorem networkOrder_iff (e : Endian) (v : UInt64) :
    NetworkOrder e v ↔
      e = .little ∨ (bigEndianPutUint64 v).reverse = bigEndianPutUint64 v := by
  rw [← inTransit_eq_iff]
  constructor
  · intro h
    have happend := h.appended []
    rw [appendDouble_eq] at happend
    exact bigEndianPutUint64_injective happend
  · intro hsame
    refine ⟨?_, ?_, ?_, ?_, ?_⟩
    · intro buffer
      rw [appendDouble_eq, hsame]
    · rw [appendDouble_eq, hsame]
      exact bigEndianUint64_put v
    · intro m hm
      obtain ⟨front, hfront, hencode⟩ := encodeCallback_balance e m
      refine ⟨_, hencode, ?_⟩
      rw [← hfront, List.drop_left, hm, hsame]
    · intro cmd data offset rest h
      rw [decodeMonetaryValue_put e cmd h, hsame]
    · intro data rest h
      obtain ⟨m, hdecode, hvalue⟩ := decodeCallback_put e h
      exact ⟨m, hdecode, hvalue.trans hsame⟩

theorem one_reversed_on_big :
    appendDouble .big [] 0x3FF0000000000000 = [0, 0, 0, 0, 0, 0, 0xF0, 0x3F] ∧
      ¬ NetworkOrder .big 0x3FF0000000000000 := by
  refine ⟨by decide +kernel, ?_⟩
  intro h
  exact absurd (h.appended []) (by decide +kernel)

end DistributedBanking.ClientProtocol
