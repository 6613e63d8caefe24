import DistributedBanking.CallbackRoundTrip

/-!
# The loop of the client's field decoder

One round of the loop without its overflow tests, which cannot fire as long as
the offsets fit in a `size_t`, and the decoding of a single field.
-/

namespace DistributedBanking.ClientProtocol
open ByteOrder Marshalling Semantics

variable {e : Endian} {bits : ℕ} {data : Bytes} {offset : ℕ}

theorem decodeFields_end (h : data.length < offset + 5) (hbits : offset + 5 < 2 ^ bits)
    (fuel : ℕ) (cmd : Command) :
    decodeFields e bits data (fuel + 1) offset cmd = .ok (.ok cmd) := by
  have h1 : safeAdd bits offset fieldIdSize = some (offset + 1) :=
    safeAdd_of_lt (by simp only [fieldIdSize]; omega)
  have h5 : safeAdd bits (offset + 1) fieldLength = some (offset + 5) :=
    safeAdd_of_lt (by simp only [fieldLength]; omega)
  simp only [decodeFields, h1, h5]
  rw [if_pos h]

theorem isWithinDataSize_eq (hbits : 32 ≤ bits) (hdata : data.length < 2 ^ bits)
    (ho : offset ≤ data.length) (length : UInt32) :
    isWithinDataSize bits offset length data = decide (offset + length.toNat ≤ data.length) := by
  have hpow : 2 ^ 32 ≤ 2 ^ bits := Nat.pow_le_pow_right (by omega) hbits
  have hlen := length.toNat_lt
  rw [isWithinDataSize, safeAdd_eq (by omega) (by omega)]
  by_cases hsum : offset + length.toNat < 2 ^ bits
  · simp only [if_pos hsum]
    by_cases hfits : offset + length.toNat ≤ data.length
    · simp [hfits]
    · simp [hfits, not_le.mp hfits]
  · simp only [if_neg hsum]
    have hshort : ¬ offset + length.toNat ≤ data.length := by omega
    simp [hshort]

theorem decodeFields_round (hbits : 32 ≤ bits) (hdata : data.length < 2 ^ bits)
    (ho : offset + 5 ≤ data.length) (fuel : ℕ) (cmd : Command) :
    decodeFields e bits data (fuel + 1) offset cmd =
      (match toFieldId (data.getD offset 0) with
      | none => .ok (.error .decodeUnknownField)
      | some field =>
        if data.length < offset + 5 + entryLength data offset then
          .ok (.error .decodeFieldOverflow)
        else
          match (decodeFuncMap e).lookup field with
          | none => .ok (.error .decodeUnknownField)
          | some decode => do
            match ← decode cmd (offset + 5) (UInt32.ofNat (entryLength data offset)) data with
            | .error err => return .error err
            | .ok cmd =>
              decodeFields e bits data fuel (offset + 5 + entryLength data offset) cmd) := by
  have h1 : safeAdd bits offset fieldIdSize = some (offset + 1) :=
    safeAdd_of_lt (by simp only [fieldIdSize]; omega)
  have h5 : safeAdd bits (offset + 1) fieldLength = some (offset + 5) :=
    safeAdd_of_lt (by simp only [fieldLength]; omega)
  have hlt := entryLength_lt data offset
  obtain ⟨w, hw, hlength⟩ : ∃ w, loadUint32 e data (offset + 1) = .ok w ∧
      ntohl e w = UInt32.ofNat (entryLength data offset) := loadUint32_ok e (by omega)
  have hentry : (UInt32.ofNat (entryLength data offset)).toNat = entryLength data offset :=
    UInt32.toNat_ofNat_of_lt' hlt
  simp only [decodeFields, h1, h5]
  rw [if_neg (by omega)]
  simp only [loadUint8_ok (show offset < data.length by omega), ok_bind, hw, hlength]
  rcases toFieldId (data.getD offset 0) with _ | field
  · rfl
  simp only
  rw [isWithinDataSize_eq hbits hdata ho, hentry]
  by_cases hover : data.length < offset + 5 + entryLength data offset
  · simp [hover, pure, Except.pure]
  · have hfits : offset + 5 + entryLength data offset ≤ data.length := not_lt.mp hover
    have hnext : safeAdd bits (offset + 5) (entryLength data offset) =
        some (offset + 5 + entryLength data offset) :=
      safeAdd_of_lt (lt_of_le_of_lt hfits hdata)
    simp only [hfits, decide_true, Bool.not_true, Bool.false_eq_true, if_false, hover]
    rcases (decodeFuncMap e).lookup field with _ | decode
    · rfl
    · refine congrArg (_ >>= ·) (funext fun r => ?_)
      rcases r with err | cmd
      · rfl
      · simp only [hnext]

theorem decodeMessage_single {f : TLVField} {field : FieldID} {decode : DecoderFunc}
    {cmd : Command} (hbits : 32 ≤ bits) (hlen : f.value.length < 2 ^ 16)
    (hfield : toFieldId f.id = some field) (hlookup : (decodeFuncMap e).lookup field = some decode)
    (hdecode : ∀ data, data.drop 5 = f.value ++ [] →
      decode {} 5 (UInt32.ofNat f.value.length) data = .ok (.ok cmd)) :
    decodeMessage e bits (encodeTLVFields [f]) = .ok (.ok cmd) := by
  have hpow : 2 ^ 32 ≤ 2 ^ bits := Nat.pow_le_pow_right (by omega) hbits
  have hbytes : encodeTLVFields [f] = fieldBytes f := by
    rw [encodeTLVFields_eq, List.flatMap_cons, List.flatMap_nil, List.append_nil]
  have hcount : (fieldBytes f).length = 5 + f.value.length := length_fieldBytes f
  have htag : (fieldBytes f).getD 0 0 = f.id := rfl
  have hdrop : (fieldBytes f).drop 1 =
      bigEndianPutUint32 (UInt32.ofNat f.value.length) ++ f.value := rfl
  have hentry : entryLength (fieldBytes f) 0 = f.value.length := by
    have hvalue : f.value.length < 256 ^ 4 := by omega
    rw [entryLength, Nat.zero_add, hdrop, List.take_left' (by simp), bigEndianPutUint32,
      UInt32.toNat_ofNat_of_lt' (show f.value.length < 2 ^ 32 by omega), ofBE_toBE_of_lt hvalue]
  have hrest : (fieldBytes f).drop 5 = f.value ++ [] := by
    have h5 : 5 = 1 + (bigEndianPutUint32 (UInt32.ofNat f.value.length)).length := by simp
    rw [h5, ← List.drop_drop, hdrop, List.drop_left, List.append_nil]
  have hround := decodeFields_round (e := e) hbits
    (show (fieldBytes f).length < 2 ^ bits by omega) (show 0 + 5 ≤ (fieldBytes f).length by omega)
    (fieldBytes f).length {}
  rw [hentry, htag, hfield] at hround
  simp only [hlookup, Nat.zero_add, hdecode _ hrest, ok_bind] at hround
  rw [if_neg (by omega)] at hround
  have hfuel : (fieldBytes f).length = 4 + f.value.length + 1 := by omega
  rw [hbytes, decodeMessage, if_neg (by simp [fieldBytes]), hround, hfuel]
  exact decodeFields_end (by omega) (by omega) _ _

theorem decodeMessage_accountNumber (hbits : 32 ≤ bits) (v : UInt32) :
    decodeMessage e bits (encodeTLVFields [tlvUint32 fieldAccountNumber v]) =
      .ok (.ok { accountNumber := some v }) := by
  refine decodeMessage_single hbits (by simp [tlvUint32]) rfl rfl fun data hdata => ?_
  obtain ⟨w, hw, hv⟩ := loadUint32_of_drop e hdata
  have hwidth : ¬ UInt32.ofNat (tlvUint32 fieldAccountNumber v).value.length ≠ 4 := by
    simp [tlvUint32]
  simp only [decodeAccountNumber, decodeWord, if_neg hwidth, hw, ok_bind, hv]
  rfl

theorem decodeMessage_monetaryValue {M : Type} [Float64 M] (hbits : 32 ≤ bits) (v : M) :
    decodeMessage .little bits (encodeTLVFields [tlvFloat64 fieldMonetaryValue v]) =
      .ok (.ok { monetaryValue := some (Float64.bits v) }) := by
  refine decodeMessage_single hbits (by simp [tlvFloat64]) rfl rfl fun data hdata => ?_
  obtain ⟨w, hw, hv⟩ := loadUint64_of_drop hdata
  have hwidth : ¬ UInt32.ofNat (tlvFloat64 fieldMonetaryValue v).value.length ≠ 8 := by
    simp [tlvFloat64]
  simp only [decodeMonetaryValue, if_neg hwidth, hw, ok_bind, hv]
  rfl

end DistributedBanking.ClientProtocol
