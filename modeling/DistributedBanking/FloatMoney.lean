import DistributedBanking.DoubleRounding

/-!
# The bank's amounts as floats

A float is compared, added and subtracted as the bank's `float64` is, and goes
on the wire as its own pattern; a NaN loses its payload. `valueOf` relates a
float to the values with exact arithmetic.
-/

namespace DistributedBanking
open Doubles

instance : Money Float where
  decLE := Float.decLe
  decLT := Float.decLt

instance : Float64 Float := ⟨Float.ofBits, Float.toBits⟩

namespace Doubles

def valueOf (x : Float) : Binary64 := classify x.toModel.unpack

theorem canonical (x : Float) : Canonical x.toModel.unpack := unpack_canonical _

theorem valueOf_zero : valueOf 0 = .finite 0 := by decide +kernel

theorem valueOf_add (x y : Float) : Rounded (valueOf x + valueOf y) (valueOf (x + y)) :=
  add_rounded (canonical x) (canonical y)

theorem valueOf_sub (x y : Float) : Rounded (valueOf x - valueOf y) (valueOf (x - y)) :=
  sub_rounded (canonical x) (canonical y)

theorem le_iff (x y : Float) : x ≤ y ↔ valueOf x ≤ valueOf y := by
  rw [Binary64.le_def, valueOf, valueOf, ← le_classify (canonical x) (canonical y)]
  exact decide_eq_true_iff

theorem lt_iff (x y : Float) : x < y ↔ valueOf x < valueOf y := by
  rw [Binary64.lt_def, valueOf, valueOf, ← lt_classify (canonical x) (canonical y)]
  exact decide_eq_true_iff

theorem valueOf_frombits (b : UInt64) :
    valueOf (Float64.frombits b) = Binary64.ofPattern b := by
  rw [← classify_unpack b]
  exact congrArg classify (unpack_pack (unpack_canonical b.toBitVec))

theorem bits_frombits {b : UInt64} (h : Binary64.ofPattern b ≠ .nan) :
    Float64.bits (Float64.frombits b : Float) = b := by
  have hnan : Float.Model.UnpackedFloat.unpack spec b.toBitVec ≠ .notANumber := by
    intro hnan
    rw [← classify_unpack, hnan] at h
    exact h rfl
  exact UInt64.toBitVec_inj.mp (pack_unpack_finite b.toBitVec hnan)

theorem magnitudePattern_of_scaled {n d N : ℕ} (hd : 0 < d) (h : n * 2 ^ 1074 = d * N) :
    Binary64.magnitudePattern n d =
      if N < 2 ^ 52 then N
      else if 2098 ≤ N.log2 then (2 ^ 11 - 1) * 2 ^ 52
      else (N.log2 - 51) * 2 ^ 52 + (N / 2 ^ (N.log2 - 52) - 2 ^ 52) := by
  have hdiv : n * 2 ^ 1074 / d = N := Nat.div_eq_of_eq_mul_right hd h
  rw [Binary64.magnitudePattern]
  simp only [← Nat.div_div_eq_div_mul, hdiv]

theorem magnitudePattern_subnormal {n d frac : ℕ} (hd : 0 < d) (h : n * 2 ^ 1074 = d * frac)
    (hfrac : frac < 2 ^ 52) : Binary64.magnitudePattern n d = frac := by
  rw [magnitudePattern_of_scaled hd h, if_pos hfrac]

theorem scaled_log2 {expo frac : ℕ} (hexpo : 0 < expo) (hfrac : frac < 2 ^ 52) :
    ((2 ^ 52 + frac) * 2 ^ (expo - 1)).log2 = 51 + expo ∧
      2 ^ 52 ≤ (2 ^ 52 + frac) * 2 ^ (expo - 1) := by
  constructor
  · rw [Nat.log2_eq_iff (by positivity)]
    have hexp : 51 + expo = 52 + (expo - 1) := by omega
    rw [hexp, pow_add, show 52 + (expo - 1) + 1 = 53 + (expo - 1) by ring, pow_add 2 53]
    exact ⟨Nat.mul_le_mul_right _ (by omega),
      Nat.mul_lt_mul_of_pos_right (by omega) (by positivity)⟩
  · have hone : 1 ≤ 2 ^ (expo - 1) := Nat.one_le_two_pow
    have hmul := Nat.mul_le_mul_left (2 ^ 52 + frac) hone
    omega

theorem magnitudePattern_normal {n d expo frac : ℕ} (hd : 0 < d) (hexpo : 0 < expo)
    (htop : expo < 2 ^ 11 - 1) (hfrac : frac < 2 ^ 52)
    (h : n * 2 ^ 1074 = d * ((2 ^ 52 + frac) * 2 ^ (expo - 1))) :
    Binary64.magnitudePattern n d = expo * 2 ^ 52 + frac := by
  obtain ⟨hlog, hlarge⟩ := scaled_log2 hexpo hfrac
  rw [magnitudePattern_of_scaled hd h, if_neg (not_lt.mpr hlarge), hlog]
  clear h hlog hlarge
  have hshift : 51 + expo - 52 = expo - 1 := by omega
  rw [if_neg (by omega), hshift, Nat.mul_div_cancel _ (by positivity)]
  omega

theorem scaled_of_abs {q : ℚ} {c N : ℕ} (h : |q| * c = N) : q.num.natAbs * c = q.den * N := by
  have habs : |q| * q.den = q.num.natAbs := by
    have hden : (q.den : ℚ) = |(q.den : ℚ)| := (abs_of_nonneg (Nat.cast_nonneg q.den)).symm
    rw [hden, ← abs_mul, Rat.mul_den_eq_num, ← Int.cast_abs, Int.abs_eq_natAbs, Int.cast_natCast]
  have hcast : (q.num.natAbs * c : ℚ) = q.den * N := by
    rw [← habs, ← h]
    ring
  exact_mod_cast hcast

theorem unit_scaled {e : ℤ} {k : ℕ} (h : e + 1074 = k) :
    (2 : ℚ) ^ e * (2 ^ 1074 : ℕ) = (2 ^ k : ℕ) := by
  simp only [Nat.cast_pow, Nat.cast_ofNat]
  rw [← zpow_natCast, ← zpow_natCast, ← zpow_add₀ two_ne_zero, ← h]
  rfl

theorem signed_magnitude {P : Prop} [Decidable P] {x q : ℚ} (hx : 0 < x)
    (h : (if P then -x else x) = q) : |q| = x ∧ (q < 0 ↔ P) := by
  subst h
  split_ifs with hP
  · exact ⟨by rw [abs_neg, abs_of_pos hx], by simp [hx, hP]⟩
  · exact ⟨abs_of_pos hx, by simp [hx.le, hP]⟩

theorem magnitude_ofPattern {b : UInt64} {q : ℚ} (h : Binary64.ofPattern b = .finite q) :
    Binary64.magnitudePattern q.num.natAbs q.den = b.toNat % 2 ^ 63 ∧
      (q < 0 ↔ 2 ^ 63 < b.toNat) := by
  have hlt := b.toNat_lt
  rw [← classify_unpack, unpack_eq, signOf] at h
  simp only [UInt64.toNat_toBitVec] at h
  by_cases hones : b.toNat / 2 ^ 52 % 2 ^ 11 = 2 ^ 11 - 1
  · rw [if_pos hones] at h
    split_ifs at h <;> cases h
  rw [if_neg hones] at h
  by_cases hzeros : b.toNat / 2 ^ 52 % 2 ^ 11 = 0
  · rw [if_pos hzeros] at h
    by_cases hpos : 0 < b.toNat % 2 ^ 52
    · rw [dif_pos hpos, classify_finite, Binary64.finite.injEq] at h
      obtain ⟨habs, hsign⟩ := signed_magnitude (by positivity) h
      have hscaled : |q| * (2 ^ 1074 : ℕ) = (b.toNat % 2 ^ 52 : ℕ) := by
        rw [habs, mul_assoc, unit_scaled (k := 0) (by norm_num), pow_zero, Nat.cast_one, mul_one]
      rw [magnitudePattern_subnormal q.den_pos (scaled_of_abs hscaled)
        (Nat.mod_lt _ (by positivity))]
      clear hscaled
      exact ⟨by omega, by rw [hsign]; omega⟩
    · rw [dif_neg hpos] at h
      cases h
      have hscaled : |(0 : ℚ)| * (2 ^ 1074 : ℕ) = (0 : ℕ) := by
        rw [abs_zero, zero_mul, Nat.cast_zero]
      rw [magnitudePattern_subnormal (Rat.den_pos 0) (scaled_of_abs hscaled) (by positivity)]
      clear hscaled
      exact ⟨by omega, iff_of_false (lt_irrefl 0) (by omega)⟩
  · rw [if_neg hzeros, classify_finite, Binary64.finite.injEq] at h
    obtain ⟨habs, hsign⟩ := signed_magnitude (by positivity) h
    have hscaled : |q| * (2 ^ 1074 : ℕ) =
        ((2 ^ 52 + b.toNat % 2 ^ 52) * 2 ^ (b.toNat / 2 ^ 52 % 2 ^ 11 - 1) : ℕ) := by
      rw [habs, mul_assoc, unit_scaled (k := b.toNat / 2 ^ 52 % 2 ^ 11 - 1) (by omega),
        ← Nat.cast_mul]
    rw [magnitudePattern_normal q.den_pos (Nat.pos_of_ne_zero hzeros) (by clear hscaled; omega)
      (Nat.mod_lt _ (by positivity)) (scaled_of_abs hscaled)]
    clear hscaled
    exact ⟨by omega, by rw [hsign]; omega⟩

/-- A finite pattern is that of its number; only negative zero shares its number with another. -/
theorem pattern_ofPattern {b : UInt64} {q : ℚ} (h : Binary64.ofPattern b = .finite q)
    (hb : b.toNat ≠ 2 ^ 63) : (Binary64.finite q).pattern = b := by
  have hlt := b.toNat_lt
  obtain ⟨hmagnitude, hsign⟩ := magnitude_ofPattern h
  rw [Binary64.pattern, hmagnitude]
  apply UInt64.toNat_inj.mp
  split_ifs with hneg
  · have hlarge := hsign.mp hneg
    rw [UInt64.toNat_ofNat']
    omega
  · have hsmall := mt hsign.mpr hneg
    rw [UInt64.toNat_ofNat']
    omega

end Doubles

end DistributedBanking
