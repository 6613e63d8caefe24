import Mathlib
import DistributedBanking.Money
import DistributedBanking.Rounding

/-!
# Floats and their patterns

A float of the language has a model: a pattern of 64 bits, unpacked into a
sign, a significand and an exponent. `classify` is the number that it stands
for. Packing and unpacking lose nothing, and the number is the one that
`ofPattern` reads off the bits.
-/

namespace DistributedBanking.Doubles
open Float.Model Float.Model.UnpackedFloat

abbrev spec : Float.Model.Format := Format.binary64

def classify : UnpackedFloat → Binary64
  | .notANumber => .nan
  | .infinity .positive => .posInf
  | .infinity .negative => .negInf
  | .zero _ => .finite 0
  | .finite s m e _ => .finite (s.apply m * 2 ^ e)

structure Fits (m : ℕ) (e : ℤ) : Prop where
  lt : m < 2 ^ 53
  least : -1074 ≤ e
  full : 2 ^ 52 ≤ m ∨ e = -1074

def Canonical : UnpackedFloat → Prop
  | .finite _ m e _ => Fits m e ∧ e ≤ 971
  | _ => True

section Patterns
variable (b : BitVec 64)

theorem unpackMantissa_toNat : (@unpackMantissa spec b).toNat = b.toNat % 2 ^ 52 := by
  simp [unpackMantissa]

theorem unpackExponent_toNat :
    (@unpackExponent spec b).toNat = b.toNat / 2 ^ 52 % 2 ^ 11 := by
  simp [unpackExponent, Nat.shiftRight_eq_div_pow]

theorem unpackSign_toNat : (@unpackSign spec b).toNat = b.toNat / 2 ^ 63 := by
  have := b.isLt
  simp [unpackSign, Nat.shiftRight_eq_div_pow]
  omega

def signOf : Sign := if 2 ^ 63 ≤ b.toNat then .negative else .positive

theorem ofBitVec_unpackSign : Sign.ofBitVec (@unpackSign spec b) = signOf b := by
  have hlt := b.isLt
  have hsign := unpackSign_toNat b
  rw [Sign.ofBitVec, signOf]
  by_cases h : 2 ^ 63 ≤ b.toNat
  · rw [if_pos h, if_neg]
    intro hzero
    rw [hzero] at hsign
    simp at hsign
    omega
  · rw [if_neg h, if_pos]
    apply BitVec.eq_of_toNat_eq
    rw [hsign]
    simp
    omega

theorem unpack_eq :
    UnpackedFloat.unpack spec b =
      let expo : ℕ := b.toNat / 2 ^ 52 % 2 ^ 11
      let frac : ℕ := b.toNat % 2 ^ 52
      if expo = 2 ^ 11 - 1 then
        if frac = 0 then .infinity (signOf b) else .notANumber
      else if expo = 0 then
        if h : 0 < frac then .finite (signOf b) frac (-1074) h else .zero (signOf b)
      else .finite (signOf b) (2 ^ 52 + frac) (expo - 1075) (by omega) := by
  have hexp := unpackExponent_toNat b
  have hfrac := unpackMantissa_toNat b
  have hones : @unpackExponent spec b = -1#_ ↔ b.toNat / 2 ^ 52 % 2 ^ 11 = 2 ^ 11 - 1 := by
    rw [← BitVec.toNat_inj, hexp]
    rfl
  have hzeros : @unpackExponent spec b = 0#_ ↔ b.toNat / 2 ^ 52 % 2 ^ 11 = 0 := by
    rw [← BitVec.toNat_inj, hexp]
    rfl
  have hnone : @unpackMantissa spec b = 0#_ ↔ b.toNat % 2 ^ 52 = 0 := by
    rw [← BitVec.toNat_inj, hfrac]
    rfl
  have hbias : ((spec.exponentBias : ℕ) : ℤ) = 1023 := rfl
  rw [UnpackedFloat.unpack]
  simp only [ofBitVec_unpackSign, hones, hzeros, hnone]
  generalize signOf b = s
  split_ifs with h1 h2 h3 h4 h5 h6
  · rfl
  · rfl
  · omega
  · rfl
  · simp only [UnpackedFloat.finite.injEq, true_and, hfrac, hexp, h3, hbias]
    norm_num
  · omega
  · have happend : (1#1 ++ @unpackMantissa spec b).toNat = 2 ^ 52 + b.toNat % 2 ^ 52 := by
      rw [BitVec.toNat_append, hfrac, ← Nat.shiftLeft_add_eq_or_of_lt (Nat.mod_lt _ (by decide))]
      rfl
    simp only [UnpackedFloat.finite.injEq, true_and, happend, hexp, hbias]
    norm_num

theorem unpack_canonical : Canonical (UnpackedFloat.unpack spec b) := by
  rw [unpack_eq]
  generalize signOf b = s
  simp only
  split_ifs with h1 h2 h3 h4
  · trivial
  · trivial
  · exact ⟨⟨by omega, le_rfl, .inr rfl⟩, by omega⟩
  · trivial
  · exact ⟨⟨by omega, by omega, .inl (by omega)⟩, by omega⟩

end Patterns

theorem classify_finite (P : Prop) [Decidable P] {m : ℕ} {e : ℤ} (hm : 0 < m) :
    classify (.finite (if P then .negative else .positive) m e hm) =
      .finite (if P then -((m : ℚ) * 2 ^ e) else m * 2 ^ e) := by
  split_ifs <;> simp [classify, Sign.apply]

theorem classify_unpack (b : UInt64) :
    classify (UnpackedFloat.unpack spec b.toBitVec) = Binary64.ofPattern b := by
  rw [unpack_eq, Binary64.ofPattern, signOf]
  simp only [UInt64.toNat_toBitVec]
  by_cases hones : b.toNat / 2 ^ 52 % 2 ^ 11 = 2 ^ 11 - 1
  · rw [if_pos hones, if_pos hones]
    split_ifs <;> first | rfl | contradiction
  rw [if_neg hones, if_neg hones]
  by_cases hzeros : b.toNat / 2 ^ 52 % 2 ^ 11 = 0
  · simp only [if_pos hzeros]
    have hdiv : ((b.toNat % 2 ^ 52 : ℕ) : ℚ) / 2 ^ 1074 =
        (b.toNat % 2 ^ 52 : ℕ) * 2 ^ (-1074 : ℤ) := by
      rw [div_eq_mul_inv, ← zpow_natCast, ← zpow_neg]
      rfl
    by_cases hpos : 0 < b.toNat % 2 ^ 52
    · rw [dif_pos hpos, classify_finite, hdiv]
    · rw [dif_neg hpos, Nat.eq_zero_of_not_pos hpos]
      simp [classify]
  · simp only [if_neg hzeros]
    rw [classify_finite]
    generalize b.toNat / 2 ^ 52 % 2 ^ 11 = expo at hzeros
    by_cases hbig : 1075 ≤ expo
    · have hpow : (2 : ℚ) ^ (expo - 1075 : ℤ) = 2 ^ (expo - 1075) := by
        rw [← zpow_natCast, Nat.cast_sub hbig]
        rfl
      simp only [if_pos hbig, hpow, Nat.cast_add, Nat.cast_pow, Nat.cast_ofNat]
    · have hpow : (2 : ℚ) ^ (expo - 1075 : ℤ) = (2 ^ (1075 - expo))⁻¹ := by
        rw [← zpow_natCast, ← zpow_neg, Nat.cast_sub (by omega)]
        congr 1
        push_cast
        ring
      simp only [if_neg hbig, hpow, div_eq_mul_inv, Nat.cast_add, Nat.cast_pow, Nat.cast_ofNat]

theorem packComponents_toNat (s : Sign) (expo : BitVec 11) (frac : BitVec 52) :
    (packComponents spec s expo frac).toNat =
      s.toBitVec.toNat * 2 ^ 63 + expo.toNat * 2 ^ 52 + frac.toNat := by
  rw [packComponents, BitVec.toNat_append, ← Nat.shiftLeft_add_eq_or_of_lt frac.isLt,
    BitVec.toNat_append, ← Nat.shiftLeft_add_eq_or_of_lt expo.isLt, Nat.shiftLeft_eq,
    Nat.shiftLeft_eq]
  ring

theorem signOf_packComponents (s : Sign) (expo : BitVec 11) (frac : BitVec 52) :
    signOf (packComponents spec s expo frac) = s := by
  have hexpo := expo.isLt
  have hfrac := frac.isLt
  have hnat := packComponents_toNat s expo frac
  rw [signOf, hnat]
  cases s with
  | negative => rw [if_pos (by simp only [Sign.toBitVec, BitVec.toNat_ofNat]; omega)]
  | positive => rw [if_neg (by simp only [Sign.toBitVec, BitVec.toNat_ofNat]; omega)]

theorem packComponents_fields (s : Sign) (expo : BitVec 11) (frac : BitVec 52) :
    (packComponents spec s expo frac).toNat / 2 ^ 52 % 2 ^ 11 = expo.toNat ∧
      (packComponents spec s expo frac).toNat % 2 ^ 52 = frac.toNat := by
  have hexpo := expo.isLt
  have hfrac := frac.isLt
  rw [packComponents_toNat]
  constructor <;> omega

theorem log2_of_full {m : ℕ} (hlow : 2 ^ 52 ≤ m) (hhigh : m < 2 ^ 53) : m.log2 = 52 :=
  (Nat.log2_eq_iff (by omega)).mpr ⟨hlow, hhigh⟩

theorem log2_of_small {m : ℕ} (hm : 0 < m) (h : m < 2 ^ 52) : m.log2 + 1 < 53 := by
  have hlog := (Nat.log2_lt hm.ne').mpr h
  omega

theorem pack_finite (s : Sign) {m : ℕ} {e : ℤ} (hm : 0 < m) (hfits : Fits m e) (htop : e ≤ 971) :
    UnpackedFloat.pack spec (.finite s m e hm) =
      packComponents spec s
        (BitVec.ofNat 11 (if 2 ^ 52 ≤ m then (e + 1075).toNat else 0)) (BitVec.ofNat 52 m) := by
  obtain ⟨hlt, hleast, hfull⟩ := hfits
  have hbias : (e + spec.exponentBias + spec.mantissaBitsWithoutImplicit).toNat =
      (e + 1075).toNat := by
    congr 1
    rw [show ((spec.exponentBias : ℕ) : ℤ) = 1023 from rfl]
    push_cast
    ring
  rw [UnpackedFloat.pack]
  simp only [hbias]
  rw [if_neg (by show ¬ 2 ^ 11 ≤ _; omega)]
  by_cases hnormal : 2 ^ 52 ≤ m
  · rw [if_pos hnormal, if_pos (by rw [log2_of_full hnormal hlt]; rfl)]
  · have hlog := log2_of_small hm (not_le.mp hnormal)
    rw [if_neg hnormal, if_neg (by show ¬ m.log2 + 1 = 53; omega)]

theorem unpack_pack {f : UnpackedFloat} (h : Canonical f) :
    UnpackedFloat.unpack spec (UnpackedFloat.pack spec f) = f := by
  cases f with
  | notANumber => rfl
  | infinity s => cases s <;> rfl
  | zero s => cases s <;> rfl
  | finite s m e hm =>
    obtain ⟨hfits, htop⟩ := h
    rw [pack_finite s hm hfits htop]
    obtain ⟨hlt, hleast, hfull⟩ := hfits
    obtain ⟨hexpo, hfrac⟩ := packComponents_fields s
      (BitVec.ofNat 11 (if 2 ^ 52 ≤ m then (e + 1075).toNat else 0)) (BitVec.ofNat 52 m)
    rw [BitVec.toNat_ofNat] at hexpo hfrac
    rw [unpack_eq, signOf_packComponents]
    simp only [hexpo, hfrac]
    by_cases hnormal : 2 ^ 52 ≤ m
    · simp only [if_pos hnormal]
      rw [if_neg (by omega), if_neg (by omega)]
      rw [UnpackedFloat.finite.injEq]
      refine ⟨rfl, by omega, by omega⟩
    · simp only [if_neg hnormal, Nat.zero_mod]
      rw [if_neg (by omega), if_pos trivial, dif_pos (by omega), UnpackedFloat.finite.injEq]
      refine ⟨rfl, by omega, by omega⟩

theorem pack_unpack_finite (b : BitVec 64) (h : UnpackedFloat.unpack spec b ≠ .notANumber) :
    UnpackedFloat.pack spec (UnpackedFloat.unpack spec b) = b := by
  refine (@UnpackedFloat.pack_unpack spec b (by decide)).trans (if_neg fun hnan => h ?_)
  obtain ⟨hones, hnone⟩ : @unpackExponent spec b = -1#_ ∧ @unpackMantissa spec b ≠ 0#_ := by
    simpa [isNaNBits] using hnan
  simp [UnpackedFloat.unpack, hones, hnone]

end DistributedBanking.Doubles
