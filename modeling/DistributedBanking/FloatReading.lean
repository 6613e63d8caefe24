import DistributedBanking.FloatMoney
import DistributedBanking.Readings

/-!
# Floats without rounding

A float stands for a rational when it is finite, has that value and is not
negative zero. Floats that stand for rationals are compared as these are, and
added and subtracted exactly whenever the result is a double.
-/

namespace DistributedBanking
open Float.Model

namespace Doubles

theorem add_cancelled {f g : UnpackedFloat} {q : ℚ} (hf : classify f = .finite q)
    (hg : classify g = .finite (-q)) (hq : q ≠ 0) :
    UnpackedFloat.add spec f g = .zero .positive := by
  cases f with
  | notANumber => cases hf
  | infinity s => cases s <;> cases hf
  | zero s => cases hf; exact absurd rfl hq
  | finite s m e hm =>
    cases g with
    | notANumber => cases hg
    | infinity t => cases t <;> cases hg
    | zero t => exact absurd (neg_eq_zero.mp (Binary64.finite.inj hg).symm) hq
    | finite t m' e' hm' =>
      obtain ⟨n, n', hn, hn', hvalue, hvalue'⟩ := aligned s t e e' hm hm'
      have hsum : (s.apply n + t.apply n' : ℤ) = 0 := by
        have hcast : ((s.apply n + t.apply n' : ℤ) : ℚ) * 2 ^ min e e' = 0 := by
          rw [Int.cast_add, add_mul, hvalue, hvalue', Binary64.finite.inj hf,
            Binary64.finite.inj hg, add_neg_cancel]
        have hzero := (mul_eq_zero.mp hcast).resolve_right (zpow_ne_zero _ two_ne_zero)
        exact_mod_cast hzero
      rw [UnpackedFloat.add]
      simp only [hn, hn', hsum, UnpackedFloat.normalize]
      rfl

theorem bits_cancelled {x y : Float} {q : ℚ} (hx : valueOf x = .finite q)
    (hy : valueOf y = .finite (-q)) (hq : q ≠ 0) : Float64.bits (x + y) = 0 := by
  have hadd := add_cancelled hx hy hq
  have hpack : Float64.bits (x + y) = UInt64.ofBitVec (UnpackedFloat.pack spec
      (UnpackedFloat.add spec x.toModel.unpack y.toModel.unpack)) := rfl
  rw [hpack, hadd]
  rfl

theorem bits_cancelled_sub {x y : Float} {q : ℚ} (hx : valueOf x = .finite q)
    (hy : valueOf y = .finite q) (hq : q ≠ 0) : Float64.bits (x - y) = 0 := by
  have hneg : classify y.toModel.unpack.neg = .finite (-q) := by
    rw [classify_neg, show classify y.toModel.unpack = .finite q from hy]
    rfl
  have hadd := add_cancelled hx hneg hq
  have hpack : Float64.bits (x - y) = UInt64.ofBitVec (UnpackedFloat.pack spec
      (UnpackedFloat.sub spec x.toModel.unpack y.toModel.unpack)) := rfl
  rw [hpack, sub_eq, hadd]
  rfl

def negZero : UInt64 := UInt64.ofNat (2 ^ 63)

/-- The float has this value, and goes on the wire as it. -/
structure Stands (x : Float) (q : ℚ) : Prop where
  value : valueOf x = .finite q
  plain : Float64.bits x ≠ negZero

theorem valueOf_bits (x : Float) : valueOf x = Binary64.ofPattern (Float64.bits x) :=
  classify_unpack (Float64.bits x)

theorem stands_of_value {x : Float} {q : ℚ} (h : valueOf x = .finite q) (hq : q ≠ 0) :
    Stands x q := by
  refine ⟨h, fun hbits => hq ?_⟩
  rw [valueOf_bits, hbits] at h
  have hzero : Binary64.ofPattern negZero = .finite 0 := by decide +kernel
  exact (Binary64.finite.inj (hzero.symm.trans h)).symm

theorem stands_of_rounded {x : Float} {q : ℚ} (h : Rounded (.finite q) (valueOf x))
    (hrep : double.Represents q) (hsmall : |q| < limit) (hzero : q = 0 → Float64.bits x = 0) :
    Stands x q := by
  have hvalue : valueOf x = .finite q := by
    generalize valueOf x = v at h ⊢
    cases h with
    | special hx => exact absurd rfl (hx q)
    | finite hw => rw [hw.exact hrep]
    | posInf hw hlarge =>
      rw [hw.exact hrep] at hlarge
      exact absurd (hlarge.trans (le_abs_self q)) (not_le.mpr hsmall)
    | negInf hw hlarge =>
      rw [hw.exact hrep] at hlarge
      exact absurd ((le_neg.mpr hlarge).trans (neg_le_abs q)) (not_le.mpr hsmall)
  by_cases hq : q = 0
  · exact ⟨hvalue, by rw [hzero hq]; decide⟩
  · exact stands_of_value hvalue hq

theorem finite_sub (p q : ℚ) : Binary64.finite p - .finite q = .finite (p - q) :=
  congrArg Binary64.finite (sub_eq_add_neg p q).symm

def Exact (q : ℚ) : Prop := double.Represents q ∧ |q| < limit

theorem float_reading : Reading Stands Exact where
  zero := ⟨valueOf_zero, by decide +kernel⟩
  le {x y p q} hx hy := by
    rw [le_iff, hx.value, hy.value]
    exact decide_eq_true_iff
  lt {x y p q} hx hy := by
    rw [lt_iff, hx.value, hy.value]
    exact decide_eq_true_iff
  add {x y p q} hx hy hpos hgood := by
    have hrounded := valueOf_add x y
    rw [hx.value, hy.value, finite_add] at hrounded
    refine stands_of_rounded hrounded hgood.1 hgood.2 fun hzero => ?_
    have hp : p ≠ 0 := fun hp => by
      rw [hp, zero_add] at hzero
      exact hpos hzero.le
    exact bits_cancelled hx.value (by rw [hy.value, ← eq_neg_of_add_eq_zero_right hzero]) hp
  sub {x y p q} hx hy hpos hgood := by
    have hrounded := valueOf_sub x y
    rw [hx.value, hy.value, finite_sub] at hrounded
    refine stands_of_rounded hrounded hgood.1 hgood.2 fun hzero => ?_
    rw [sub_eq_zero] at hzero
    rw [hzero] at hx
    exact bits_cancelled_sub hx.value hy.value (not_le.mp hpos).ne'
  bits {x p} hx := by
    have hvalue := hx.value
    rw [valueOf_bits] at hvalue
    exact (pattern_ofPattern hvalue fun h => hx.plain (UInt64.toNat_inj.mp h)).symm

theorem stands_frombits {a : UInt64} {q : ℚ} (h : Binary64.ofPattern a = .finite q)
    (ha : a ≠ negZero) : Stands (Float64.frombits a) (Float64.frombits a) := by
  have hq : (Float64.frombits a : ℚ) = q := congrArg Binary64.toRat h
  rw [hq]
  refine ⟨(valueOf_frombits a).trans h, ?_⟩
  rw [bits_frombits (by rw [h]; simp)]
  exact ha

def Whole (k : ℤ) (q : ℚ) : Prop := ∃ n : ℤ, q = n * 2 ^ k

section Whole
variable {k : ℤ} {p q : ℚ}

theorem Whole.add (hp : Whole k p) (hq : Whole k q) : Whole k (p + q) := by
  obtain ⟨m, rfl⟩ := hp
  obtain ⟨n, rfl⟩ := hq
  exact ⟨m + n, by push_cast; ring⟩

theorem Whole.sub (hp : Whole k p) (hq : Whole k q) : Whole k (p - q) := by
  obtain ⟨m, rfl⟩ := hp
  obtain ⟨n, rfl⟩ := hq
  exact ⟨m - n, by push_cast; ring⟩

theorem Whole.exact (h : Whole k q) (hleast : -1074 ≤ k) (htop : 53 + k < 1024)
    (hq : |q| ≤ 2 ^ (53 + k)) : Exact q := by
  obtain ⟨n, rfl⟩ := h
  have hunit : (0 : ℚ) < 2 ^ k := zpow_pos two_pos k
  constructor
  · refine Rounding.Format.represents_of_le ?_ hleast
    rw [abs_mul, abs_of_pos hunit, zpow_add₀ two_ne_zero] at hq
    have hn := le_of_mul_le_mul_right hq hunit
    exact_mod_cast hn
  · refine hq.trans_lt ?_
    rw [limit, ← zpow_natCast]
    exact zpow_lt_zpow_right₀ one_lt_two htop

end Whole
end Doubles
end DistributedBanking
