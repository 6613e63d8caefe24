import DistributedBanking.ClientProtocol
import DistributedBanking.Semantics

/-!
# What the client reads from a byte string

Loads at an offset inside the data, in terms of the bytes alone and on every
host, and from them the whole of `deserialize`: it takes the content length's
worth of bytes after the header and refuses data that has fewer.
-/

namespace DistributedBanking.ClientProtocol
open ByteOrder Semantics

/-- The overflow test on the wrapped sum is exact. -/
theorem safeAdd_eq {bits a b : ℕ} (ha : a < 2 ^ bits) (hb : b < 2 ^ bits) :
    safeAdd bits a b = if a + b < 2 ^ bits then some (a + b) else none := by
  rw [safeAdd]
  by_cases hsum : a + b < 2 ^ bits
  · rw [Nat.mod_eq_of_lt hsum, if_neg (by omega), if_pos hsum]
  · have hmod : (a + b) % 2 ^ bits = a + b - 2 ^ bits := by
      rw [Nat.mod_eq_sub_mod (by omega), Nat.mod_eq_of_lt (by omega)]
    rw [hmod, if_pos (by omega), if_neg hsum]

theorem safeAdd_of_lt {bits a b : ℕ} (h : a + b < 2 ^ bits) : safeAdd bits a b = some (a + b) := by
  rw [safeAdd_eq (by omega) (by omega), if_pos h]

section Loads
variable (e : Endian) {data : Bytes} {offset : ℕ}

theorem loadUint8_ok (h : offset < data.length) :
    loadUint8 data offset = .ok (data.getD offset 0) := by
  rw [loadUint8, List.getElem?_eq_getElem h, List.getD_eq_getElem?_getD,
    List.getElem?_eq_getElem h, Option.getD_some]

theorem length_window {width : ℕ} (h : offset + width ≤ data.length) :
    ((data.drop offset).take width).length = width := by
  simp only [List.length_take, List.length_drop]
  omega

theorem loadUint32_ok (h : offset + 4 ≤ data.length) :
    ∃ v, loadUint32 e data offset = .ok v ∧
      ntohl e v = UInt32.ofNat (ofBE ((data.drop offset).take 4)) := by
  refine ⟨_, ?_, ntohl_objectValue (length_window h)⟩
  rw [loadUint32, memcpy_ok h]
  rfl

theorem loadUint16_ok (h : offset + 2 ≤ data.length) :
    ∃ v, loadUint16 e data offset = .ok v ∧
      ntohs e v = UInt16.ofNat (ofBE ((data.drop offset).take 2)) := by
  refine ⟨_, ?_, ntohs_objectValue (length_window h)⟩
  rw [loadUint16, memcpy_ok h]
  rfl

end Loads

theorem validatePayload_eq {bits n : ℕ} (hbits : 32 ≤ bits) (hn : n < 2 ^ bits)
    (contentLen : UInt32) :
    validatePayload bits n 18 contentLen = decide (18 + contentLen.toNat ≤ n) := by
  have hpow : 2 ^ 32 ≤ 2 ^ bits := Nat.pow_le_pow_right (by omega) hbits
  have hlen := contentLen.toNat_lt
  rw [validatePayload, safeAdd_eq (by omega) (by omega)]
  by_cases hsum : 18 + contentLen.toNat < 2 ^ bits
  · simp only [if_pos hsum]
    by_cases hfits : 18 + contentLen.toNat ≤ n
    · simp [hfits]
    · simp [hfits, not_le.mp hfits]
  · simp only [if_neg hsum]
    have hshort : ¬ 18 + contentLen.toNat ≤ n := by omega
    simp [hshort]

def framed (data : Bytes) : Message where
  type := (headerOf data).type
  flag := (headerOf data).flag
  id := ⟨(headerOf data).requestID, (headerOf data).ipv4, (headerOf data).port⟩
  payload := ⟨(headerOf data).statusCode,
    (data.drop headerSize).take (headerOf data).contentLen.toNat⟩

theorem deserialize_eq (e : Endian) {bits : ℕ} (hbits : 32 ≤ bits) {data : Bytes}
    (hdata : data.length < 2 ^ bits) :
    deserialize e bits data =
      if data.length < headerSize then .ok (.error .deserializeHeaderTooShort)
      else if data.length < headerSize + (headerOf data).contentLen.toNat then
        .ok (.error .deserializePayloadOverflow)
      else .ok (.ok (framed data)) := by
  by_cases hshort : data.length < headerSize
  · rw [deserialize, if_pos hshort]
    simp only [headerSize] at hshort
    simp [validateHeader, hshort, pure, Except.pure]
  rw [if_neg hshort]
  have hlen : 18 ≤ data.length := not_lt.mp hshort
  obtain ⟨rid, hrid, hridv⟩ := loadUint32_ok e (show 2 + 4 ≤ data.length by omega)
  obtain ⟨ip, hip, hipv⟩ := loadUint32_ok e (show 6 + 4 ≤ data.length by omega)
  obtain ⟨port, hport, hportv⟩ := loadUint16_ok e (show 10 + 2 ≤ data.length by omega)
  obtain ⟨sc, hsc, hscv⟩ := loadUint16_ok e (show 12 + 2 ≤ data.length by omega)
  obtain ⟨cl, hcl, hclv⟩ := loadUint32_ok e (show 14 + 4 ≤ data.length by omega)
  have hcontentLen : ntohl e cl = (headerOf data).contentLen := hclv
  have hvalid : validateHeader data.length = true := by
    simp [validateHeader, hlen]
  rw [deserialize, hvalid]
  simp only [loadUint8_ok (show 0 < data.length by omega),
    loadUint8_ok (show 1 < data.length by omega), hrid, hip, hport, hsc, hcl, ok_bind,
    hcontentLen, validatePayload_eq hbits hdata, headerSize]
  by_cases hover : data.length < 18 + (headerOf data).contentLen.toNat
  · simp [hover, pure, Except.pure]
  · have hfits : 18 + (headerOf data).contentLen.toNat ≤ data.length := not_lt.mp hover
    simp only [hfits, decide_true, Bool.not_true, Bool.false_eq_true, if_false, hover,
      memcpy_ok hfits, ok_bind, hridv, hipv, hportv, hscv]
    rfl

end DistributedBanking.ClientProtocol
