import Mathlib.Tactic

/-!
# Big-endian and little-endian byte strings

`toBE n v` writes the low `n` bytes of `v`, most significant first, and `ofBE`
reads a byte string of any length. The two are inverse on strings of a fixed
length, which is all a fixed-width field of a packet needs. The little-endian
forms are the reversed ones.
-/

namespace ByteOrder

def toBE : ℕ → ℕ → List UInt8
  | 0, _ => []
  | n + 1, v => UInt8.ofNat (v / 256 ^ n) :: toBE n v

def ofBE (bs : List UInt8) : ℕ := bs.foldl (fun acc b => acc * 256 + b.toNat) 0

def toLE (n v : ℕ) : List UInt8 := (toBE n v).reverse

def ofLE (bs : List UInt8) : ℕ := ofBE bs.reverse

@[simp] theorem length_toBE (n v : ℕ) : (toBE n v).length = n := by
  induction n with
  | zero => rfl
  | succ n ih => simp [toBE, ih]

@[simp] theorem ofBE_nil : ofBE [] = 0 := rfl

theorem foldl_ofBE (bs : List UInt8) (a : ℕ) :
    bs.foldl (fun acc b => acc * 256 + b.toNat) a = a * 256 ^ bs.length + ofBE bs := by
  induction bs generalizing a with
  | nil => simp
  | cons b bs ih =>
    simp only [List.foldl_cons, List.length_cons, ofBE]
    rw [ih (a * 256 + b.toNat), ih (0 * 256 + b.toNat)]
    ring

theorem ofBE_cons (b : UInt8) (bs : List UInt8) :
    ofBE (b :: bs) = b.toNat * 256 ^ bs.length + ofBE bs := by
  rw [ofBE, List.foldl_cons, foldl_ofBE]
  simp

theorem ofBE_lt (bs : List UInt8) : ofBE bs < 256 ^ bs.length := by
  induction bs with
  | nil => simp
  | cons b bs ih =>
    have hb : b.toNat + 1 ≤ 256 := b.toNat_lt
    have hm := Nat.mul_le_mul_right (256 ^ bs.length) hb
    rw [ofBE_cons, List.length_cons, pow_succ]
    nlinarith

theorem ofBE_toBE (n v : ℕ) : ofBE (toBE n v) = v % 256 ^ n := by
  induction n with
  | zero => simp [toBE, Nat.mod_one]
  | succ n ih =>
    rw [toBE, ofBE_cons, ih, length_toBE, pow_succ, Nat.mod_mul]
    simp only [UInt8.toNat_ofNat']
    ring

theorem ofBE_toBE_of_lt {n v : ℕ} (h : v < 256 ^ n) : ofBE (toBE n v) = v := by
  rw [ofBE_toBE, Nat.mod_eq_of_lt h]

theorem toBE_add_mul (n v k : ℕ) : toBE n (k * 256 ^ n + v) = toBE n v := by
  induction n generalizing k with
  | zero => rfl
  | succ n ih =>
    have hdiv : (k * 256 ^ (n + 1) + v) / 256 ^ n = k * 256 + v / 256 ^ n := by
      rw [pow_succ, show k * (256 ^ n * 256) + v = v + 256 ^ n * (k * 256) by ring,
        Nat.add_mul_div_left _ _ (by positivity), add_comm]
    have htail : k * 256 ^ (n + 1) + v = (k * 256) * 256 ^ n + v := by ring
    rw [toBE, toBE, hdiv, htail, ih]
    congr 1
    apply UInt8.toNat_inj.mp
    simp only [UInt8.toNat_ofNat']
    omega

theorem toBE_ofBE (bs : List UInt8) : toBE bs.length (ofBE bs) = bs := by
  induction bs with
  | nil => rfl
  | cons b bs ih =>
    have hlt := ofBE_lt bs
    rw [List.length_cons, toBE, ofBE_cons, toBE_add_mul, ih]
    congr 1
    rw [mul_comm, Nat.mul_add_div (by positivity), Nat.div_eq_of_lt hlt, add_zero]
    simp

end ByteOrder
