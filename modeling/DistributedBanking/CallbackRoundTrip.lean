import DistributedBanking.ClientDecoding
import DistributedBanking.MessageFraming
import DistributedBanking.WireRoundTrip

/-!
# Callbacks as the client reads them

The positional layout is read front to back: each copy is justified by what
stands at its offset. The length field in front of the holder name gives the
offset of everything after it.
-/

namespace DistributedBanking.ClientProtocol
open ByteOrder Marshalling Semantics

theorem swapUint64_swapUint64 (v : UInt64) : swapUint64 (swapUint64 v) = v := by
  have h := objectBytes_swapUint64 (swapUint64 v)
  have hv : (bigEndianPutUint64 (swapUint64 v)).reverse = bigEndianPutUint64 v :=
    objectBytes_swapUint64 v
  have hback : (bigEndianPutUint64 (swapUint64 (swapUint64 v))).reverse =
      (bigEndianPutUint64 v).reverse := by
    rw [← hv, List.reverse_reverse]
    exact h
  have hput : bigEndianPutUint64 (swapUint64 (swapUint64 v)) = bigEndianPutUint64 v :=
    List.reverse_injective hback
  have hread := congrArg ofBE hput
  have hlt : ∀ w : UInt64, w.toNat < 256 ^ 8 := fun w => w.toNat_lt
  rw [bigEndianPutUint64, bigEndianPutUint64, ofBE_toBE_of_lt (hlt _),
    ofBE_toBE_of_lt (hlt _)] at hread
  exact UInt64.toNat_inj.mp hread

theorem swapUint64_objectValue (v : UInt64) :
    swapUint64 (UInt64.ofNat (objectValue .little (bigEndianPutUint64 v))) = v := by
  have hswap : objectValue .little (bigEndianPutUint64 v) = (swapUint64 v).toNat := by
    have hlt : (swapUint64 v).toNat < 256 ^ 8 := (swapUint64 v).toNat_lt
    rw [← objectBytes_swapUint64, objectBytes, objectValue, toLE, ofLE, List.reverse_reverse,
      ofBE_toBE_of_lt hlt]
  rw [hswap, UInt64.ofNat_toNat, swapUint64_swapUint64]

section Reading
variable {data rest : Bytes} {offset : ℕ}

theorem length_of_drop {field : Bytes} (h : data.drop offset = field ++ rest)
    (hfield : field ≠ []) : offset + field.length ≤ data.length := by
  have hlen := congrArg List.length h
  have hpos := List.length_pos_of_ne_nil hfield
  rw [List.length_drop, List.length_append] at hlen
  omega

theorem drop_of_drop {field : Bytes} (h : data.drop offset = field ++ rest) :
    data.drop (offset + field.length) = rest := by
  rw [← List.drop_drop, h, List.drop_left]

theorem drop_succ_of_drop {v : UInt8} (h : data.drop offset = v :: rest) :
    data.drop (offset + 1) = rest :=
  drop_of_drop (show data.drop offset = [v] ++ rest from h)

theorem loadUint8_of_drop {v : UInt8} (h : data.drop offset = v :: rest) :
    loadUint8 data offset = .ok v := by
  have hlen := length_of_drop (show data.drop offset = [v] ++ rest from h) (by simp)
  rw [List.length_singleton] at hlen
  have hget : data[offset]? = some v := by
    rw [← List.head?_drop, h, List.head?_cons]
  rw [loadUint8, hget]

theorem memcpy_of_drop {field : Bytes} (h : data.drop offset = field ++ rest)
    (hlen : offset + field.length ≤ data.length) : memcpy data offset field.length = .ok field := by
  rw [memcpy_ok hlen, h, List.take_left]

theorem loadUint32_of_drop (e : Endian) {v : UInt32}
    (h : data.drop offset = bigEndianPutUint32 v ++ rest) :
    ∃ w, loadUint32 e data offset = .ok w ∧ ntohl e w = v := by
  have hlen := length_of_drop h (by rw [← List.length_pos_iff_ne_nil]; simp)
  rw [length_bigEndianPutUint32] at hlen
  obtain ⟨w, hw, hv⟩ := loadUint32_ok e hlen
  refine ⟨w, hw, ?_⟩
  rw [hv, h, List.take_left' (length_bigEndianPutUint32 v), uint32_ofBE_put]

theorem loadUint64_of_drop {v : UInt64} (h : data.drop offset = bigEndianPutUint64 v ++ rest) :
    ∃ w, loadUint64 .little data offset = .ok w ∧ swapUint64 w = v := by
  have hlen := length_of_drop h (by rw [← List.length_pos_iff_ne_nil]; simp)
  have hcopy := memcpy_of_drop h hlen
  rw [length_bigEndianPutUint64] at hcopy
  refine ⟨UInt64.ofNat (objectValue .little (bigEndianPutUint64 v)), ?_, swapUint64_objectValue v⟩
  rw [loadUint64, hcopy]
  rfl

end Reading

section Callback
variable {M : Type} [Float64 M]

theorem marshalCallbackUpdate_eq (u : AccountUpdate M) :
    marshalCallbackUpdate u = msgTypeCallback :: u.serviceID ::
      (bigEndianPutUint32 u.accountNumber ++
        (bigEndianPutUint32 (UInt32.ofNat u.holderName.length) ++ (u.holderName ++
          u.currencyType :: (bigEndianPutUint64 (Float64.bits u.newBalance) ++ [])))) := by
  simp [marshalCallbackUpdate, newEncoder, Encoder.putUint8, Encoder.putUint32,
    Encoder.putLengthPrefixedString, Encoder.putString, Encoder.putFloat64, Encoder.bytes]

def callbackOf (u : AccountUpdate M) : CallbackMessage where
  type := messageTypeCallback
  service := u.serviceID
  accountNumber := u.accountNumber
  accountOwnerNameLen := UInt32.ofNat u.holderName.length
  accountOwnerName := u.holderName
  currency := u.currencyType
  monetaryValue := Float64.bits u.newBalance

theorem decode_marshalCallbackUpdate {u : AccountUpdate M} (hname : u.holderName.length < 2 ^ 32) :
    CallbackEncoder.decodeMessage .little (marshalCallbackUpdate u) = .ok (.ok (callbackOf u)) := by
  have hlen : (UInt32.ofNat u.holderName.length).toNat = u.holderName.length :=
    UInt32.toNat_ofNat_of_lt' hname
  have h0 : (marshalCallbackUpdate u).drop 0 = _ := marshalCallbackUpdate_eq u
  generalize marshalCallbackUpdate u = data at h0 ⊢
  have h1 := drop_succ_of_drop h0
  have h2 := drop_succ_of_drop h1
  have h6 := drop_of_drop h2
  have h10 := drop_of_drop h6
  have hcurr := drop_of_drop h10
  have hbal := drop_succ_of_drop hcurr
  simp only [length_bigEndianPutUint32, Nat.zero_add, Nat.reduceAdd] at h1 h2 h6 h10 hcurr hbal
  have hname' : 10 + u.holderName.length ≤ data.length := by
    have hfits := length_of_drop (show data.drop _ = [u.currencyType] ++ _ from hcurr) (by simp)
    omega
  have hsize : CallbackEncoder.validatePayload data.length = true := by
    have hfits := length_of_drop hbal (by rw [← List.length_pos_iff_ne_nil]; simp)
    rw [length_bigEndianPutUint64] at hfits
    have henough : ¬ data.length < CallbackEncoder.minCallbackSize := by
      rw [CallbackEncoder.minCallbackSize]
      omega
    simp [CallbackEncoder.validatePayload, henough]
  obtain ⟨accNo, haccNo, haccNoV⟩ := loadUint32_of_drop .little h2
  obtain ⟨nameLen, hnameLen, hnameLenV⟩ := loadUint32_of_drop .little h6
  obtain ⟨bal, hbalance, hbalanceV⟩ := loadUint64_of_drop hbal
  rw [CallbackEncoder.decodeMessage, hsize]
  simp only [loadUint8_of_drop h0, loadUint8_of_drop h1, haccNo, haccNoV, hnameLen, hnameLenV,
    hlen, memcpy_of_drop h10 hname', loadUint8_of_drop hcurr, hbalance, hbalanceV, ok_bind,
    Bool.not_true, Bool.false_eq_true, if_false]
  rfl

theorem encode_callbackOf (u : AccountUpdate M) :
    CallbackEncoder.encodeMessage .little (callbackOf u) = .ok (marshalCallbackUpdate u) := by
  rw [marshalCallbackUpdate_eq]
  simp [CallbackEncoder.encodeMessage, callbackOf, objectBytes_htonl, objectBytes_swapUint64,
    msgTypeCallback, messageTypeCallback]

/-- The client reads from a callback packet what the server put there, and would write it back as
the same bytes. -/
theorem callback_roundtrip {u : AccountUpdate M} (hname : u.holderName.length < 2 ^ 32) :
    ∃ m, CallbackEncoder.decodeMessage .little (marshalCallbackUpdate u) = .ok (.ok m) ∧
      m.type = messageTypeCallback ∧ m.service = u.serviceID ∧
      m.accountNumber = u.accountNumber ∧
      m.accountOwnerNameLen.toNat = u.holderName.length ∧ m.accountOwnerName = u.holderName ∧
      m.currency = u.currencyType ∧ m.monetaryValue = Float64.bits u.newBalance ∧
      CallbackEncoder.encodeMessage .little m = .ok (marshalCallbackUpdate u) := by
  refine ⟨callbackOf u, decode_marshalCallbackUpdate hname, rfl, rfl, rfl, ?_, rfl, rfl, rfl,
    encode_callbackOf u⟩
  exact UInt32.toNat_ofNat_of_lt' hname

theorem deposit_callback_roundtrip :
    ∃ m, CallbackEncoder.decodeMessage .little (marshalCallbackUpdate
        (⟨3, 10000, [65, 108], 1, 0x4049000000000000⟩ : AccountUpdate UInt64)) = .ok (.ok m) ∧
      m.type = messageTypeCallback ∧ m.service = 3 ∧ m.accountNumber = 10000 ∧
      m.accountOwnerNameLen.toNat = 2 ∧ m.accountOwnerName = [65, 108] ∧ m.currency = 1 ∧
      m.monetaryValue = 0x4049000000000000 ∧
      CallbackEncoder.encodeMessage .little m = .ok (marshalCallbackUpdate
        (⟨3, 10000, [65, 108], 1, 0x4049000000000000⟩ : AccountUpdate UInt64)) :=
  callback_roundtrip (u := (⟨3, 10000, [65, 108], 1, 0x4049000000000000⟩ : AccountUpdate UInt64))
    (by decide)

end Callback
end DistributedBanking.ClientProtocol
