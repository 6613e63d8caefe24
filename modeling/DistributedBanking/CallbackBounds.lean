import DistributedBanking.ClientDecoding
import DistributedBanking.MessageFraming

/-!
# How far the callback decoder reads

The decoder checks that a callback has the least size of one, and then trusts
the length in front of the holder name. It stays inside the data exactly when
the data has room for a name of that length.
-/

namespace DistributedBanking.ClientProtocol
open ByteOrder

section Loads
variable {e : Endian} {data : Bytes} {offset : ℕ}

theorem memcpy_outOfBounds {n : ℕ} (h : data.length < offset + n) :
    memcpy data offset n = .error .outOfBounds := if_neg (by omega)

theorem loadUint8_outOfBounds (h : data.length ≤ offset) :
    loadUint8 data offset = .error .outOfBounds := by
  rw [loadUint8, List.getElem?_eq_none h]

theorem loadUint64_ok (h : offset + 8 ≤ data.length) :
    ∃ v, loadUint64 e data offset = .ok v := by
  refine ⟨UInt64.ofNat (objectValue e ((data.drop offset).take 8)), ?_⟩
  rw [loadUint64, memcpy_ok h]
  rfl

theorem loadUint64_outOfBounds (h : data.length < offset + 8) :
    loadUint64 e data offset = .error .outOfBounds := by
  rw [loadUint64, memcpy_outOfBounds h]
  rfl

end Loads

namespace CallbackEncoder
variable (e : Endian) {data : Bytes}

def nameLength (data : Bytes) : ℕ := ofBE ((data.drop 6).take 4)

theorem decodeMessage_short (h : data.length < minCallbackSize) :
    decodeMessage e data = .ok (.error .deserializePayloadOverflow) := by
  simp [decodeMessage, validatePayload, h, pure, Except.pure]

theorem decodeMessage_name (h : minCallbackSize ≤ data.length) :
    ∃ accountNumber nameLen : UInt32, nameLen.toNat = nameLength data ∧
      decodeMessage e data = (do
        let name ← memcpy data 10 (nameLength data)
        let currency ← loadUint8 data (10 + nameLength data)
        let value ← loadUint64 e data (10 + nameLength data + 1)
        return .ok ⟨data.getD 0 0, data.getD 1 0, accountNumber, nameLen, name, currency,
          swapUint64 value⟩) := by
  rw [minCallbackSize] at h
  obtain ⟨accNo, haccNo, -⟩ := loadUint32_ok e (show 2 + 4 ≤ data.length by omega)
  obtain ⟨nameLen, hnameLen, hvalue⟩ := loadUint32_ok e (show 6 + 4 ≤ data.length by omega)
  have hlt := ofBE_lt ((data.drop 6).take 4)
  rw [length_window (show 6 + 4 ≤ data.length by omega)] at hlt
  have hnat : (ntohl e nameLen).toNat = nameLength data := by
    rw [hvalue, UInt32.toNat_ofNat_of_lt' hlt, nameLength]
  have hsize : validatePayload data.length = true := by
    simp [validatePayload, minCallbackSize, not_lt.mpr h]
  refine ⟨ntohl e accNo, ntohl e nameLen, hnat, ?_⟩
  simp only [decodeMessage, hsize, Bool.not_true, Bool.false_eq_true, if_false,
    loadUint8_ok (show 0 < data.length by omega), loadUint8_ok (show 1 < data.length by omega),
    haccNo, hnameLen, ok_bind, hnat]

/-- The decoder stays inside the data exactly when there is too little for any callback, or enough
for the name that is declared. -/
theorem decodeMessage_inBounds_iff :
    decodeMessage e data ≠ .error .outOfBounds ↔
      data.length < 19 ∨ 10 + nameLength data + 9 ≤ data.length := by
  by_cases hshort : data.length < minCallbackSize
  · rw [decodeMessage_short e hshort]
    exact ⟨fun _ => .inl hshort, fun _ h => by cases h⟩
  obtain ⟨accNo, nameLen, -, hdecode⟩ := decodeMessage_name e (not_lt.mp hshort)
  rw [minCallbackSize] at hshort
  rw [hdecode, or_iff_right hshort]
  constructor
  · intro hin
    by_contra hover
    apply hin
    by_cases hname : data.length < 10 + nameLength data
    · rw [memcpy_outOfBounds hname, error_bind]
    rw [memcpy_ok (not_lt.mp hname), ok_bind]
    by_cases hcurrency : data.length ≤ 10 + nameLength data
    · rw [loadUint8_outOfBounds hcurrency, error_bind]
    · rw [loadUint8_ok (not_le.mp hcurrency), ok_bind,
        loadUint64_outOfBounds (by omega), error_bind]
  · intro hfits
    obtain ⟨v, hv⟩ := loadUint64_ok (e := e)
      (show 10 + nameLength data + 1 + 8 ≤ data.length by omega)
    rw [memcpy_ok (by omega), ok_bind, loadUint8_ok (by omega), ok_bind, hv, ok_bind]
    intro h
    cases h

theorem declared_name_outOfBounds :
    decodeMessage .little [2, 3, 0, 0, 39, 16, 0, 0, 0, 1, 65, 0, 64, 73, 0, 0, 0, 0, 0] =
      .error .outOfBounds := by
  decide +kernel

end CallbackEncoder
end DistributedBanking.ClientProtocol
