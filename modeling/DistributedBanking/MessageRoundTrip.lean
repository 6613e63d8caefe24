import DistributedBanking.MessageFraming
import DistributedBanking.WireRoundTrip

/-!
# Messages that the client frames and reads back

A message comes back from its own bytes, and a byte string that is taken as a
message is the message's own bytes, up to the end that its length field
declares. The header is written byte for byte as it was read.
-/

namespace DistributedBanking.ClientProtocol
open ByteOrder Semantics

def declaredLength (b : Bytes) : ℕ := ofBE ((b.drop 14).take 4)

theorem ofBE_take_lt (b : Bytes) (n : ℕ) : ofBE (b.take n) < 256 ^ n :=
  (ofBE_lt _).trans_le (Nat.pow_le_pow_right (by omega) (List.length_take_le n b))

theorem contentLen_toNat (b : Bytes) : (headerOf b).contentLen.toNat = declaredLength b :=
  UInt32.toNat_ofNat_of_lt' (ofBE_take_lt (b.drop 14) 4)

section Header
variable {b : Bytes}

theorem put32_window {k : ℕ} (h : k + 4 ≤ b.length) :
    bigEndianPutUint32 (UInt32.ofNat (ofBE ((b.drop k).take 4))) = (b.drop k).take 4 := by
  have hlen := length_window h
  have hback := toBE_ofBE ((b.drop k).take 4)
  rw [hlen] at hback
  rw [bigEndianPutUint32, UInt32.toNat_ofNat_of_lt' (ofBE_take_lt _ 4), hback]

theorem put16_window {k : ℕ} (h : k + 2 ≤ b.length) :
    bigEndianPutUint16 (UInt16.ofNat (ofBE ((b.drop k).take 2))) = (b.drop k).take 2 := by
  have hlen := length_window h
  have hback := toBE_ofBE ((b.drop k).take 2)
  rw [hlen] at hback
  rw [bigEndianPutUint16, UInt16.toNat_ofNat_of_lt' (ofBE_take_lt _ 2), hback]

theorem headerBytes_headerOf (h : headerSize ≤ b.length) :
    headerBytes (headerOf b) = b.take headerSize := by
  have hlen : 18 ≤ b.length := h
  have htwo : b.take 2 = [b.getD 0 0, b.getD 1 0] := by
    obtain ⟨type, b, rfl⟩ := List.exists_cons_of_length_pos (show 0 < b.length by omega)
    rw [List.length_cons] at hlen
    obtain ⟨flag, b, rfl⟩ := List.exists_cons_of_length_pos (show 0 < b.length by omega)
    rfl
  have hsplit : b.take headerSize = b.take 2 ++ ((b.drop 2).take 4 ++ ((b.drop 6).take 4 ++
      ((b.drop 10).take 2 ++ ((b.drop 12).take 2 ++ (b.drop 14).take 4)))) := by
    rw [headerSize, show 18 = 2 + (4 + (4 + (2 + (2 + 4)))) from rfl, List.take_add, List.take_add,
      List.take_add, List.take_add, List.take_add]
    simp only [List.drop_drop]
  rw [hsplit, htwo]
  simp only [headerBytes, headerOf]
  rw [put32_window (by omega), put32_window (by omega), put16_window (by omega),
    put16_window (by omega), put32_window (by omega)]
  rfl

end Header

section RoundTrip
variable {e : Endian} {bits : ℕ}

theorem length_serialize (m : Message) :
    (serialize e m).length = headerSize + m.payload.content.length := by
  rw [serialize_header, List.length_append, length_headerBytes]

theorem framed_serialize {m : Message} (h : m.payload.content.length < 2 ^ 32) :
    framed (serialize e m) = m := by
  have hlen : (UInt32.ofNat m.payload.content.length).toNat = m.payload.content.length :=
    UInt32.toNat_ofNat_of_lt' h
  have hcontent : (serialize e m).drop headerSize = m.payload.content := by
    rw [serialize_header, List.drop_left' (length_headerBytes _)]
  rw [framed, headerOf_serialize, hcontent, hlen, List.take_length]

theorem deserialize_serialize (hbits : 33 ≤ bits) {m : Message}
    (h : m.payload.content.length < 2 ^ 32) :
    deserialize e bits (serialize e m) = .ok (.ok m) := by
  have hpow : 2 ^ 33 ≤ 2 ^ bits := Nat.pow_le_pow_right (by omega) hbits
  have hlen := length_serialize (e := e) m
  have hcontent : (headerOf (serialize e m)).contentLen.toNat = m.payload.content.length := by
    rw [headerOf_serialize]
    exact UInt32.toNat_ofNat_of_lt' h
  have hsize : (serialize e m).length < 2 ^ bits := by
    rw [hlen, headerSize]
    omega
  rw [deserialize_eq e (by omega) hsize, hcontent, if_neg (by omega), if_neg (by omega),
    framed_serialize h]

theorem deserialize_ok_iff (hbits : 32 ≤ bits) {b : Bytes} (hb : b.length < 2 ^ bits)
    {m : Message} :
    deserialize e bits b = .ok (.ok m) ↔
      18 ≤ b.length ∧ 18 + declaredLength b ≤ b.length ∧ m = framed b := by
  rw [deserialize_eq e hbits hb, contentLen_toNat, headerSize]
  by_cases hheader : b.length < 18
  · simp [hheader]
  by_cases hcontent : b.length < 18 + declaredLength b
  · simp [hheader, hcontent]
  · simp [hheader, hcontent, not_lt.mp hheader, not_lt.mp hcontent, eq_comm]

theorem serialize_framed {b : Bytes} (hheader : 18 ≤ b.length)
    (hcontent : 18 + declaredLength b ≤ b.length) :
    serialize e (framed b) = b.take (18 + declaredLength b) := by
  have hcount : ((b.drop headerSize).take (declaredLength b)).length = declaredLength b := by
    rw [List.length_take, List.length_drop, headerSize]
    omega
  have hheaderBytes := headerBytes_headerOf (show headerSize ≤ b.length from hheader)
  rw [serialize_header, framed]
  simp only [contentLen_toNat, hcount]
  rw [List.take_add, show 18 = headerSize from rfl, ← hheaderBytes, ← contentLen_toNat,
    UInt32.ofNat_toNat]

/-- Reading undoes writing, and writing undoes reading up to the declared end of the message. -/
theorem framing_roundtrip (e : Endian) (hbits : 33 ≤ bits) :
    (∀ m : Message, m.payload.content.length < 2 ^ 32 →
      deserialize e bits (serialize e m) = .ok (.ok m)) ∧
    ∀ b : Bytes, b.length < 2 ^ bits →
      ((∃ m, deserialize e bits b = .ok (.ok m)) ↔
        18 ≤ b.length ∧ 18 + declaredLength b ≤ b.length) ∧
      ∀ m, deserialize e bits b = .ok (.ok m) →
        serialize e m = b.take (18 + declaredLength b) := by
  refine ⟨fun m h => deserialize_serialize hbits h, fun b hb => ⟨⟨fun h => ?_, fun h => ?_⟩, ?_⟩⟩
  · obtain ⟨m, hm⟩ := h
    obtain ⟨hheader, hcontent, -⟩ := (deserialize_ok_iff (by omega) hb).mp hm
    exact ⟨hheader, hcontent⟩
  · exact ⟨framed b, (deserialize_ok_iff (by omega) hb).mpr ⟨h.1, h.2, rfl⟩⟩
  · intro m hm
    obtain ⟨hheader, hcontent, rfl⟩ := (deserialize_ok_iff (by omega) hb).mp hm
    exact serialize_framed hheader hcontent

def request7 : Message := ⟨0, 2, ⟨7, 0x7F000001, 4000⟩, ⟨0, [8, 9]⟩⟩

def request7Bytes : Bytes :=
  [0, 2, 0, 0, 0, 7, 127, 0, 0, 1, 15, 160, 0, 0, 0, 0, 0, 2, 8, 9]

/-- Another byte behind the message is left alone, and a missing one is noticed. -/
theorem framing_roundtrip_request7 :
    serialize .little request7 = request7Bytes ∧
      deserialize .little 64 (serialize .little request7) = .ok (.ok request7) ∧
      (∃ m, deserialize .little 64 (request7Bytes ++ [1]) = .ok (.ok m) ∧
        serialize .little m = request7Bytes) ∧
      ¬ ∃ m, deserialize .little 64 (request7Bytes.take 19) = .ok (.ok m) := by
  obtain ⟨hback, hbytes⟩ := framing_roundtrip .little (show 33 ≤ 64 by decide)
  have hlong := hbytes (request7Bytes ++ [1]) (by decide)
  obtain ⟨m, hm⟩ := hlong.1.mpr (by decide)
  refine ⟨by decide, hback request7 (by decide), ⟨m, hm, ?_⟩, fun hshort => ?_⟩
  · exact hlong.2 m hm
  · have hdeclared := (hbytes (request7Bytes.take 19) (by decide)).1.mp hshort
    exact absurd hdeclared (by decide)

end RoundTrip
end DistributedBanking.ClientProtocol
