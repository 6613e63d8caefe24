import DistributedBanking.ByteOrder
import DistributedBanking.Runs

/-!
# The Go operations the server is written with

A Go string and a byte slice are lists of bytes. Indexing, slicing, reading a
nil pointer and decoding a short slice panic, so they live in `Go`. The width
of `int` is a parameter: `goInt bits` is two's-complement wrap-around.
-/

namespace DistributedBanking
open ByteOrder

abbrev Bytes := List UInt8

inductive Panic
  | indexOutOfRange
  | sliceOutOfRange
  | nilDereference
  -- Not a panic of Go: a loop that outlives its bound ends here, and is shown never to.
  | nonTermination
  deriving DecidableEq, Repr

abbrev Go (α : Type) := Except Panic α

export Runs (ok_bind error_bind foldlM_invariant)

/-- The value an `int` of the given width holds after a computation with result `n`. -/
def goInt (bits : ℕ) (n : ℤ) : ℤ := n.bmod (2 ^ bits)

theorem goInt_of_bounds {bits : ℕ} {n : ℤ} (h0 : 0 ≤ n) (h : n < 2 ^ (bits - 1)) (hb : 0 < bits) :
    goInt bits n = n := by
  obtain ⟨b, rfl⟩ : ∃ b, bits = b + 1 := ⟨bits - 1, by omega⟩
  have hpow : ((2 ^ (b + 1) : ℕ) : ℤ) = 2 * 2 ^ b := by push_cast; ring
  simp only [Nat.add_sub_cancel] at h
  apply Int.bmod_eq_of_le <;> omega

def deref {α : Type} : Option α → Go α
  | some a => .ok a
  | none => .error .nilDereference

@[simp] theorem deref_some {α : Type} (a : α) : deref (some a) = .ok a := rfl

def index (bs : Bytes) (i : ℤ) : Go UInt8 :=
  if 0 ≤ i then
    match bs[i.toNat]? with
    | some b => .ok b
    | none => .error .indexOutOfRange
  else .error .indexOutOfRange

/-- `bs[lo:hi]`, with the length of `bs` as the bound on `hi`. -/
def slice (bs : Bytes) (lo hi : ℤ) : Go Bytes :=
  if 0 ≤ lo ∧ lo ≤ hi ∧ hi ≤ bs.length then .ok ((bs.drop lo.toNat).take (hi.toNat - lo.toNat))
  else .error .sliceOutOfRange

theorem index_of_lt {bs : Bytes} {i : ℕ} (h : i < bs.length) : index bs i = .ok bs[i] := by
  simp [index, List.getElem?_eq_getElem h]

theorem index_getD {data : Bytes} {i : ℕ} (h : i < data.length) :
    index data i = .ok (data.getD i 0) := by
  rw [index_of_lt h, List.getD_eq_getElem?_getD, List.getElem?_eq_getElem h, Option.getD_some]

theorem slice_of_le {bs : Bytes} {lo hi : ℕ} (h : lo ≤ hi) (hhi : hi ≤ bs.length) :
    slice bs lo hi = .ok ((bs.drop lo).take (hi - lo)) := by
  simp [slice, h, hhi]

/-- `binary.BigEndian.Uint16` reads the first two bytes and panics on a shorter slice. -/
def bigEndianUint16 (b : Bytes) : Go UInt16 :=
  if 2 ≤ b.length then .ok (UInt16.ofNat (ofBE (b.take 2))) else .error .indexOutOfRange

def bigEndianUint32 (b : Bytes) : Go UInt32 :=
  if 4 ≤ b.length then .ok (UInt32.ofNat (ofBE (b.take 4))) else .error .indexOutOfRange

def bigEndianUint64 (b : Bytes) : Go UInt64 :=
  if 8 ≤ b.length then .ok (UInt64.ofNat (ofBE (b.take 8))) else .error .indexOutOfRange

theorem bigEndianUint16_of_length {b : Bytes} (h : b.length = 2) :
    bigEndianUint16 b = .ok (UInt16.ofNat (ofBE b)) := by
  have hfits : 2 ≤ b.length := by omega
  have htake : b.take 2 = b := List.take_of_length_le (by omega)
  simp only [bigEndianUint16, hfits, htake, if_true]

theorem bigEndianUint32_of_length {b : Bytes} (h : b.length = 4) :
    bigEndianUint32 b = .ok (UInt32.ofNat (ofBE b)) := by
  have hfits : 4 ≤ b.length := by omega
  have htake : b.take 4 = b := List.take_of_length_le (by omega)
  simp only [bigEndianUint32, hfits, htake, if_true]

theorem bigEndianUint64_of_length {b : Bytes} (h : b.length = 8) :
    bigEndianUint64 b = .ok (UInt64.ofNat (ofBE b)) := by
  have hfits : 8 ≤ b.length := by omega
  have htake : b.take 8 = b := List.take_of_length_le (by omega)
  simp only [bigEndianUint64, hfits, htake, if_true]

def bigEndianPutUint16 (v : UInt16) : Bytes := toBE 2 v.toNat

def bigEndianPutUint32 (v : UInt32) : Bytes := toBE 4 v.toNat

def bigEndianPutUint64 (v : UInt64) : Bytes := toBE 8 v.toNat

@[simp] theorem length_bigEndianPutUint16 (v : UInt16) : (bigEndianPutUint16 v).length = 2 :=
  length_toBE _ _

@[simp] theorem length_bigEndianPutUint32 (v : UInt32) : (bigEndianPutUint32 v).length = 4 :=
  length_toBE _ _

@[simp] theorem length_bigEndianPutUint64 (v : UInt64) : (bigEndianPutUint64 v).length = 8 :=
  length_toBE _ _

theorem uint16_ofBE_put (v : UInt16) : UInt16.ofNat (ofBE (bigEndianPutUint16 v)) = v := by
  have hlt : v.toNat < 256 ^ 2 := v.toNat_lt
  rw [bigEndianPutUint16, ofBE_toBE_of_lt hlt, UInt16.ofNat_toNat]

theorem uint32_ofBE_put (v : UInt32) : UInt32.ofNat (ofBE (bigEndianPutUint32 v)) = v := by
  have hlt : v.toNat < 256 ^ 4 := v.toNat_lt
  rw [bigEndianPutUint32, ofBE_toBE_of_lt hlt, UInt32.ofNat_toNat]

theorem uint64_ofBE_put (v : UInt64) : UInt64.ofNat (ofBE (bigEndianPutUint64 v)) = v := by
  have hlt : v.toNat < 256 ^ 8 := v.toNat_lt
  rw [bigEndianPutUint64, ofBE_toBE_of_lt hlt, UInt64.ofNat_toNat]

@[simp] theorem bigEndianUint32_put (v : UInt32) :
    bigEndianUint32 (bigEndianPutUint32 v) = .ok v := by
  have hv : v.toNat < 256 ^ 4 := v.toNat_lt
  simp [bigEndianUint32, bigEndianPutUint32, List.take_of_length_le, ofBE_toBE_of_lt hv]

@[simp] theorem bigEndianUint64_put (v : UInt64) :
    bigEndianUint64 (bigEndianPutUint64 v) = .ok v := by
  have hv : v.toNat < 256 ^ 8 := v.toNat_lt
  simp [bigEndianUint64, bigEndianPutUint64, List.take_of_length_le, ofBE_toBE_of_lt hv]

end DistributedBanking
