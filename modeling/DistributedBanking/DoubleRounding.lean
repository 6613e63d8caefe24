import DistributedBanking.Doubles

/-!
# Float arithmetic

Floats are compared as the numbers that they stand for. A sum or a difference
is the exact one rounded to nearest, and infinite when that reaches the limit.
-/

namespace DistributedBanking.Doubles
open Float.Model Float.Model.UnpackedFloat

/-- What is left of `m` after a shift by `k`, with what the two residual bits say of the rest. -/
def Shifted (m k : ℕ) (em : ExtendedMantissa) : Prop :=
  ∃ rest, m = em.mantissa * 2 ^ k + rest ∧ rest < 2 ^ k ∧
    match em.roundBit, em.stickyBit with
    | false, false => rest = 0
    | false, true => 0 < rest ∧ 2 * rest < 2 ^ k
    | true, false => 2 * rest = 2 ^ k
    | true, true => 2 ^ k < 2 * rest

theorem shifted_zero (m : ℕ) : Shifted m 0 (ExtendedMantissa.ofMantissaAndAccuracy m .exact) :=
  ⟨0, by simp [ExtendedMantissa.ofMantissaAndAccuracy], by simp, rfl⟩

theorem Shifted.shiftRightOne {m k : ℕ} {em : ExtendedMantissa} (h : Shifted m k em) :
    Shifted m (k + 1) em.shiftRightOne := by
  obtain ⟨rest, hm, hrest, hbits⟩ := h
  obtain ⟨q, roundBit, stickyBit⟩ := em
  have hpow : 2 ^ (k + 1) = 2 * 2 ^ k := by rw [pow_succ, mul_comm]
  have hsplit : q * 2 ^ k = q / 2 * (2 * 2 ^ k) + q % 2 * 2 ^ k := by
    rw [← mul_assoc, ← Nat.add_mul, mul_comm (q / 2) 2, Nat.div_add_mod]
  refine ⟨q % 2 * 2 ^ k + rest, ?_, ?_, ?_⟩
  · simp only [ExtendedMantissa.shiftRightOne, hpow]
    rw [hm, hsplit, Nat.add_assoc]
  · rw [hpow]
    rcases Nat.mod_two_eq_zero_or_one q with hq | hq <;> rw [hq] <;> omega
  · rcases Nat.mod_two_eq_zero_or_one q with hq | hq
    · cases roundBit <;> cases stickyBit <;>
        simp only [ExtendedMantissa.shiftRightOne, hq, hpow] at hbits ⊢ <;> simp <;> omega
    · cases roundBit <;> cases stickyBit <;>
        simp only [ExtendedMantissa.shiftRightOne, hq, hpow] at hbits ⊢ <;> simp <;> omega

theorem shifted (m k : ℕ) :
    Shifted m k (ExtendedMantissa.ofMantissaAndAccuracy m .exact >>> k) := by
  induction k with
  | zero => exact shifted_zero m
  | succ k ih => exact ih.shiftRightOne

theorem Shifted.rounded {m k : ℕ} {em : ExtendedMantissa} (h : Shifted m k em) :
    2 * (em.roundedMantissa * 2 ^ k) ≤ 2 * m + 2 ^ k ∧
      2 * m ≤ 2 * (em.roundedMantissa * 2 ^ k) + 2 ^ k ∧
      m / 2 ^ k ≤ em.roundedMantissa ∧ em.roundedMantissa ≤ m / 2 ^ k + 1 := by
  obtain ⟨rest, hm, hrest, hbits⟩ := h
  have hdiv : m / 2 ^ k = em.mantissa := by
    rw [hm, mul_comm, Nat.mul_add_div (by positivity), Nat.div_eq_of_lt hrest, Nat.add_zero]
  rw [hdiv]
  obtain ⟨q, roundBit, stickyBit⟩ := em
  have hnext : (q + 1) * 2 ^ k = q * 2 ^ k + 2 ^ k := Nat.succ_mul q _
  simp only at hm hbits
  cases roundBit <;> cases stickyBit <;>
    simp only [ExtendedMantissa.roundedMantissa, ExtendedMantissa.accuracy,
      Accuracy.roundToNearestEven] at hbits ⊢
  · omega
  · omega
  · rcases Nat.mod_two_eq_zero_or_one q with hq | hq
    · rw [hq, Nat.add_zero]
      omega
    · rw [hq, hnext]
      omega
  · rw [hnext]
    omega

theorem targetExponent_eq (m : ℕ) (e : ℤ) :
    spec.targetExponent (totalExponent m e) = max (m.log2 + e - 52) (-1074) := by
  rw [Format.targetExponent, totalExponent]
  have hmin : spec.minExponent = -1074 := rfl
  have hbits : ((spec.mantissaBits : ℕ) : ℤ) = 53 := rfl
  rw [hmin, hbits]
  congr 1
  ring

theorem second_shift {r : ℕ} {t : ℤ} (ht : -1074 ≤ t) (hr : r ≤ 2 ^ 53) :
    ((shiftToTargetExponent spec r t .exact).1.mantissa,
        (shiftToTargetExponent spec r t .exact).2) =
      if r = 2 ^ 53 then (2 ^ 52, t + 1) else (r, t) := by
  rw [shiftToTargetExponent, targetExponent_eq, shiftToExponent]
  by_cases hcarry : r = 2 ^ 53
  · have hlog : (2 ^ 53 : ℕ).log2 = 53 := Nat.log2_two_pow
    have hshift : (max (((2 ^ 53 : ℕ).log2 : ℤ) + t - 52) (-1074) - t).toNat = 1 := by omega
    rw [if_pos hcarry, hcarry]
    simp only [hshift]
    rfl
  · have hlog : r.log2 ≤ 52 := by
      rcases Nat.eq_zero_or_pos r with rfl | hpos
      · decide
      · have hlt := (Nat.log2_lt hpos.ne').mpr (lt_of_le_of_ne hr hcarry)
        omega
    have hshift : (max ((r.log2 : ℤ) + t - 52) (-1074) - t).toNat = 0 := by omega
    rw [if_neg hcarry]
    simp only [hshift]
    exact Prod.ext rfl (add_zero t)

def assemble (s : Sign) (r : ℕ) (t : ℤ) : UnpackedFloat :=
  if h : 0 < r then .finite s r t h else .zero s

theorem roundWithAccuracy_eq (s : Sign) (m : ℕ) (e : ℤ) :
    roundWithAccuracy spec s m e .exact =
      let first := shiftToTargetExponent spec m e .exact
      let second := shiftToTargetExponent spec first.1.roundedMantissa first.2 .exact
      assemble s second.1.mantissa second.2 := by
  rw [roundWithAccuracy, assemble]
  simp only
  split_ifs <;> first | rfl | omega

theorem first_shift {m : ℕ} {e t : ℤ} (hm : 0 < m) (ht : t = max (m.log2 + e - 52) (-1074))
    (het : e ≤ t) :
    ∃ r : ℕ, (shiftToTargetExponent spec m e .exact).1.roundedMantissa = r ∧
      (shiftToTargetExponent spec m e .exact).2 = t ∧ r ≤ 2 ^ 53 ∧ (2 ^ 52 ≤ r ∨ t = -1074) ∧
      |(r * 2 ^ t - m * 2 ^ e : ℚ)| ≤ 2 ^ t / 2 := by
  obtain ⟨k, rfl⟩ := Int.le.dest het
  have hshift : (e + k - e).toNat = k := by omega
  have hrounded := (shifted m k).rounded
  refine ⟨_, rfl, ?_, ?_⟩
  · rw [shiftToTargetExponent, targetExponent_eq, ← ht, shiftToExponent]
    simp only [hshift]
  rw [shiftToTargetExponent, targetExponent_eq, ← ht, shiftToExponent]
  simp only [hshift]
  generalize (ExtendedMantissa.ofMantissaAndAccuracy m .exact >>> k).roundedMantissa = r
    at hrounded ⊢
  obtain ⟨hupper, hlower, hfloor, hceil⟩ := hrounded
  have hlog : m < 2 ^ (m.log2 + 1) := Nat.lt_log2_self
  have hlog' : 2 ^ m.log2 ≤ m := Nat.log2_self_le hm.ne'
  refine ⟨?_, ?_, ?_⟩
  · have hsmall : m / 2 ^ k < 2 ^ 53 := by
      rw [Nat.div_lt_iff_lt_mul (by positivity), ← pow_add]
      exact hlog.trans_le (Nat.pow_le_pow_right two_pos (by omega))
    omega
  · by_cases hleast : e + k = -1074
    · exact .inr hleast
    have hfull : 2 ^ 52 ≤ m / 2 ^ k := by
      rw [Nat.le_div_iff_mul_le (by positivity), ← pow_add]
      exact le_trans (Nat.pow_le_pow_right two_pos (by omega)) hlog'
    exact .inl (hfull.trans hfloor)
  · have hunit : (0 : ℚ) < 2 ^ e := zpow_pos two_pos e
    have hupper' : (2 * (r * 2 ^ k) : ℚ) ≤ 2 * m + 2 ^ k := by exact_mod_cast hupper
    have hlower' : (2 * m : ℚ) ≤ 2 * (r * 2 ^ k) + 2 ^ k := by exact_mod_cast hlower
    rw [zpow_add₀ two_ne_zero, zpow_natCast]
    have hsplit : (r * (2 ^ e * 2 ^ k) - m * 2 ^ e : ℚ) = (r * 2 ^ k - m) * 2 ^ e := by ring
    rw [hsplit, abs_mul, abs_of_pos hunit, mul_div_assoc, mul_comm]
    refine mul_le_mul_of_nonneg_left ?_ hunit.le
    rw [abs_le]
    constructor <;> linarith

theorem decreaseExponent_spec {m : ℕ} (e t : ℤ) (hm : 0 < m) :
    ∃ m' : ℕ, decreaseExponent m e t = (m', min e t) ∧ 0 < m' ∧
      (m'.log2 : ℤ) + min e t = m.log2 + e ∧ (m' * 2 ^ min e t : ℚ) = m * 2 ^ e := by
  rcases le_total e t with het | hte
  · refine ⟨m, ?_, hm, by rw [min_eq_left het], by rw [min_eq_left het]⟩
    rw [decreaseExponent, Int.toNat_of_nonpos (by omega), min_eq_left het]
    simp
  · obtain ⟨k, rfl⟩ := Int.le.dest hte
    have hshift : (t + k - t).toNat = k := by omega
    have hlog : (m * 2 ^ k).log2 = m.log2 + k := by
      rw [Nat.log2_eq_iff (by positivity)]
      have hlow := Nat.log2_self_le hm.ne'
      have hhigh := Nat.lt_log2_self (n := m)
      rw [show m.log2 + k + 1 = m.log2 + 1 + k by ring, pow_add, pow_add 2 (m.log2 + 1)]
      exact ⟨Nat.mul_le_mul_right _ hlow, Nat.mul_lt_mul_of_pos_right hhigh (by positivity)⟩
    rw [min_eq_right hte]
    refine ⟨m * 2 ^ k, ?_, by positivity, by rw [hlog]; push_cast; ring, ?_⟩
    · rw [decreaseExponent]
      simp only [hshift, Nat.shiftLeft_eq]
      congr 1
      ring
    · rw [zpow_add₀ two_ne_zero, zpow_natCast]
      push_cast
      ring

theorem round_spec (s : Sign) {m : ℕ} (e : ℤ) (hm : 0 < m) :
    ∃ (r : ℕ) (t : ℤ), t = max (m.log2 + e - 52) (-1074) ∧ r ≤ 2 ^ 53 ∧ (2 ^ 52 ≤ r ∨ t = -1074) ∧
      |(r * 2 ^ t - m * 2 ^ e : ℚ)| ≤ 2 ^ t / 2 ∧
      UnpackedFloat.round spec s m e =
        if r = 2 ^ 53 then assemble s (2 ^ 52) (t + 1) else assemble s r t := by
  obtain ⟨m', hdecrease, hm', hlog, hvalue⟩ :=
    decreaseExponent_spec e (max (m.log2 + e - 52) (-1074)) hm
  obtain ⟨r, hr, hexponent, hbound, hfull, hhalf⟩ := first_shift
    (e := min e (max (m.log2 + e - 52) (-1074))) hm' (by rw [hlog]) (min_le_right _ _)
  rw [hvalue] at hhalf
  have hsecond := second_shift (le_max_right (m.log2 + e - 52) (-1074)) hbound
  refine ⟨r, _, rfl, hbound, hfull, hhalf, ?_⟩
  rw [UnpackedFloat.round, targetExponent_eq, hdecrease]
  simp only
  rw [roundWithAccuracy_eq]
  simp only [hr, hexponent]
  rw [Prod.ext_iff] at hsecond
  simp only at hsecond
  rw [hsecond.1, hsecond.2]
  split_ifs <;> rfl

def settle (f : UnpackedFloat) : Binary64 :=
  classify (UnpackedFloat.unpack spec (UnpackedFloat.pack spec f))

theorem settle_canonical {f : UnpackedFloat} (h : Canonical f) : settle f = classify f := by
  rw [settle, unpack_pack h]

def double : Rounding.Format := ⟨53, -1074, by decide⟩

def limit : ℚ := 2 ^ 1024

/-- The exact value `x` is given as `y`: finite values are rounded to nearest. -/
inductive Rounded : Binary64 → Binary64 → Prop
  | special {x : Binary64} (hx : ∀ q, x ≠ .finite q) : Rounded x x
  | finite {q w : ℚ} (hw : double.Rounds q w) (hsmall : |w| < limit) :
      Rounded (.finite q) (.finite w)
  | posInf {q w : ℚ} (hw : double.Rounds q w) (hlarge : limit ≤ w) : Rounded (.finite q) .posInf
  | negInf {q w : ℚ} (hw : double.Rounds q w) (hlarge : w ≤ -limit) : Rounded (.finite q) .negInf

theorem fits_lt_limit {m : ℕ} {e : ℤ} (h : Fits m e) (he : e ≤ 971) : (m * 2 ^ e : ℚ) < limit := by
  have hm : (m : ℚ) < 2 ^ 53 := by exact_mod_cast h.lt
  calc (m * 2 ^ e : ℚ) < 2 ^ 53 * 2 ^ e := mul_lt_mul_of_pos_right hm (zpow_pos two_pos e)
    _ ≤ 2 ^ 53 * 2 ^ (971 : ℤ) := by
      gcongr
      exact one_le_two
    _ = limit := by rw [limit, show (971 : ℤ) = (971 : ℕ) from rfl, zpow_natCast, ← pow_add]

theorem limit_le_fits {m : ℕ} {e : ℤ} (h : Fits m e) (he : 971 < e) : limit ≤ m * 2 ^ e := by
  have hm : (2 ^ 52 : ℚ) ≤ m := by
    have hfull := h.full.resolve_right (by omega)
    exact_mod_cast hfull
  calc limit = 2 ^ 52 * 2 ^ (972 : ℤ) := by
        rw [limit, show (972 : ℤ) = (972 : ℕ) from rfl, zpow_natCast, ← pow_add]
    _ ≤ m * 2 ^ e := by
      gcongr
      · exact one_le_two
      · omega

theorem pack_overflow (s : Sign) {m : ℕ} {e : ℤ} (hm : 0 < m) (he : 971 < e) :
    UnpackedFloat.pack spec (.finite s m e hm) = UnpackedFloat.pack spec (.infinity s) := by
  have hbias : (e + spec.exponentBias + spec.mantissaBitsWithoutImplicit).toNat =
      (e + 1075).toNat := by
    congr 1
    rw [show ((spec.exponentBias : ℕ) : ℤ) = 1023 from rfl]
    push_cast
    ring
  rw [UnpackedFloat.pack, UnpackedFloat.pack]
  simp only [hbias]
  rw [if_pos (by show 2 ^ 11 ≤ _; omega)]

theorem represents_natCast {r : ℕ} {t : ℤ} (hr : r ≤ 2 ^ 53) (ht : -1074 ≤ t) :
    double.Represents (r * 2 ^ t) := by
  have hrep := Rounding.Format.represents_of_le (f := double) (n := r) (t := t)
    (by rw [abs_of_nonneg (Int.natCast_nonneg r)]; exact_mod_cast hr) ht
  exact_mod_cast hrep

theorem settle_assemble (s : Sign) {r : ℕ} {t : ℤ} {x : ℚ} (hfits : 0 < r → Fits r t)
    (hw : double.Rounds x (r * 2 ^ t)) :
    Rounded (.finite (s.apply 1 * x)) (settle (assemble s r t)) := by
  rw [assemble]
  split_ifs with hr
  · have hfits := hfits hr
    have hnonneg : (0 : ℚ) ≤ r * 2 ^ t := by positivity
    rcases le_or_gt t 971 with ht | ht
    · have hlt := fits_lt_limit hfits ht
      rw [settle_canonical (show Canonical (.finite s r t hr) from ⟨hfits, ht⟩)]
      cases s with
      | negative =>
        have hrounds : double.Rounds (-x) (-(r * 2 ^ t)) := hw.neg
        have hfinite := Rounded.finite hrounds (by rwa [abs_neg, abs_of_nonneg hnonneg])
        simpa [classify, Sign.apply] using hfinite
      | positive =>
        have hfinite := Rounded.finite hw (by rwa [abs_of_nonneg hnonneg])
        simpa [classify, Sign.apply] using hfinite
    · have hle := limit_le_fits hfits ht
      rw [settle, pack_overflow s hr ht, ← settle,
        settle_canonical (show Canonical (.infinity s) from trivial)]
      cases s with
      | negative => simpa [classify, Sign.apply] using Rounded.negInf hw.neg (neg_le_neg hle)
      | positive => simpa [classify, Sign.apply] using Rounded.posInf hw hle
  · rw [Nat.eq_zero_of_not_pos hr, Nat.cast_zero, zero_mul] at hw
    have hlimit : |(0 : ℚ)| < limit := by rw [abs_zero, limit]; positivity
    rw [settle_canonical (show Canonical (.zero s) from trivial)]
    cases s with
    | negative => simpa [classify, Sign.apply] using Rounded.finite hw.neg (by rwa [neg_zero])
    | positive => simpa [classify, Sign.apply] using Rounded.finite hw hlimit

theorem round_rounded (s : Sign) {m : ℕ} (e : ℤ) (hm : 0 < m) :
    Rounded (.finite (s.apply 1 * (m * 2 ^ e))) (settle (UnpackedFloat.round spec s m e)) := by
  obtain ⟨r, t, ht, hbound, hfull, hhalf, hround⟩ := round_spec s e hm
  have hleast : -1074 ≤ t := ht ▸ le_max_right _ _
  have hnormal : t = -1074 ∨ (2 : ℚ) ^ (53 + t - 1) ≤ |(m * 2 ^ e : ℚ)| := by
    by_cases hteq : t = -1074
    · exact .inl hteq
    have hlog : (2 ^ m.log2 : ℚ) ≤ m := by exact_mod_cast Nat.log2_self_le hm.ne'
    have hexp : 53 + t - 1 = m.log2 + e := by omega
    right
    have hnonneg : (0 : ℚ) ≤ m * 2 ^ e := by positivity
    rw [abs_of_nonneg hnonneg, hexp, zpow_add₀ two_ne_zero, zpow_natCast]
    exact mul_le_mul_of_nonneg_right hlog (zpow_nonneg zero_le_two e)
  have hw : double.Rounds (m * 2 ^ e) (r * 2 ^ t) := by
    have hrounds := Rounding.Format.rounds_of_half_unit (f := double) (n := r) hleast
      (by rw [abs_of_nonneg (Int.natCast_nonneg r)]; exact_mod_cast hbound)
      (by exact_mod_cast hhalf) hnormal
    exact_mod_cast hrounds
  rw [hround]
  split_ifs with hcarry
  · have hsame : ((2 ^ 52 : ℕ) * 2 ^ (t + 1) : ℚ) = r * 2 ^ t := by
      rw [hcarry, zpow_add_one₀ two_ne_zero]
      push_cast
      ring
    exact settle_assemble s (fun _ => ⟨by norm_num, by omega, .inl le_rfl⟩) (hsame ▸ hw)
  · exact settle_assemble s (fun _ => ⟨lt_of_le_of_ne hbound hcarry, hleast, hfull⟩) hw

theorem normalize_rounded (z e : ℤ) (s : Sign) :
    Rounded (.finite (z * 2 ^ e)) (settle (UnpackedFloat.normalize spec z e s)) := by
  rw [UnpackedFloat.normalize]
  rcases lt_trichotomy z 0 with hz | rfl | hz
  · rw [compare_lt_iff_lt.mpr hz]
    have hrounded := round_rounded .negative e (m := (-z).toNat) (by omega)
    have hcast : (((-z).toNat : ℕ) : ℚ) = -z := by
      have hnat : (((-z).toNat : ℕ) : ℤ) = -z := Int.toNat_of_nonneg (by omega)
      exact_mod_cast congrArg (Int.cast : ℤ → ℚ) hnat
    rw [hcast] at hrounded
    simpa [Sign.apply] using hrounded
  · rw [compare_eq_iff_eq.mpr rfl, settle_canonical (show Canonical (.zero s) from trivial)]
    have hzero := Rounded.finite (Rounding.Format.rounds_self (Rounding.Format.represents_zero
      (f := double))) (by rw [abs_zero, limit]; positivity)
    simpa [classify] using hzero
  · rw [compare_gt_iff_gt.mpr hz]
    have hrounded := round_rounded .positive e (m := z.toNat) (by omega)
    have hcast : ((z.toNat : ℕ) : ℚ) = z := by
      have hnat : ((z.toNat : ℕ) : ℤ) = z := Int.toNat_of_nonneg hz.le
      exact_mod_cast congrArg (Int.cast : ℤ → ℚ) hnat
    rw [hcast] at hrounded
    simpa [Sign.apply] using hrounded

theorem canonical_represents {f : UnpackedFloat} (hf : Canonical f) {q : ℚ}
    (hq : classify f = .finite q) : double.Represents q ∧ |q| < limit := by
  cases f with
  | notANumber => cases hq
  | infinity s => cases s <;> cases hq
  | zero s =>
    cases hq
    exact ⟨Rounding.Format.represents_zero, by rw [abs_zero, limit]; positivity⟩
  | finite s m e hm =>
    cases hq
    have hrep := represents_natCast hf.1.lt.le hf.1.least
    have hlt := fits_lt_limit hf.1 hf.2
    have hnonneg : (0 : ℚ) ≤ m * 2 ^ e := by positivity
    cases s with
    | negative =>
      simp only [Sign.apply, Int.cast_neg, Int.cast_natCast, neg_mul, abs_neg]
      exact ⟨hrep.neg, (abs_of_nonneg hnonneg).trans_lt hlt⟩
    | positive =>
      simp only [Sign.apply, Int.cast_natCast]
      exact ⟨hrep, (abs_of_nonneg hnonneg).trans_lt hlt⟩

theorem rounded_self {f : UnpackedFloat} (hf : Canonical f) :
    Rounded (classify f) (classify f) := by
  rcases hclass : classify f with _ | _ | _ | q
  · exact .special (by simp)
  · exact .special (by simp)
  · exact .special (by simp)
  · obtain ⟨hrep, hlt⟩ := canonical_represents hf hclass
    exact .finite (Rounding.Format.rounds_self hrep) hlt

theorem apply_cast (s : Sign) (n : ℕ) : ((s.apply n : ℤ) : ℚ) = s.apply 1 * n := by
  cases s <;> simp [Sign.apply]

theorem aligned (s t : Sign) {m m' : ℕ} (e e' : ℤ) (hm : 0 < m) (hm' : 0 < m') :
    ∃ n n' : ℕ, (decreaseExponent m e (min e e')).1 = n ∧
      (decreaseExponent m' e' (min e e')).1 = n' ∧
      ((s.apply n : ℤ) : ℚ) * 2 ^ min e e' = s.apply m * 2 ^ e ∧
      ((t.apply n' : ℤ) : ℚ) * 2 ^ min e e' = t.apply m' * 2 ^ e' := by
  obtain ⟨n, hn, -, -, hvalue⟩ := decreaseExponent_spec e (min e e') hm
  obtain ⟨n', hn', -, -, hvalue'⟩ := decreaseExponent_spec e' (min e e') hm'
  rw [min_eq_right (min_le_left e e')] at hvalue
  rw [min_eq_right (min_le_right e e')] at hvalue'
  refine ⟨n, n', by rw [hn], by rw [hn'], ?_, ?_⟩
  · rw [apply_cast, apply_cast, mul_assoc, hvalue, mul_assoc]
  · rw [apply_cast, apply_cast, mul_assoc, hvalue', mul_assoc]

theorem finite_add (p q : ℚ) : Binary64.finite p + .finite q = .finite (p + q) := rfl

theorem rounded_of_add_eq {f g h : UnpackedFloat} (hadd : UnpackedFloat.add spec f g = h)
    (hclass : classify f + classify g = classify h) (hcanonical : Canonical h) :
    Rounded (classify f + classify g) (settle (UnpackedFloat.add spec f g)) := by
  rw [hadd, settle_canonical hcanonical, hclass]
  exact rounded_self hcanonical

theorem add_rounded {f g : UnpackedFloat} (hf : Canonical f) (hg : Canonical g) :
    Rounded (classify f + classify g) (settle (UnpackedFloat.add spec f g)) := by
  cases f with
  | notANumber => exact rounded_of_add_eq (h := .notANumber) rfl rfl trivial
  | infinity s =>
    cases g with
    | notANumber => cases s <;> exact rounded_of_add_eq (h := .notANumber) rfl rfl trivial
    | infinity t =>
      cases s <;> cases t <;> exact rounded_of_add_eq rfl rfl trivial
    | _ => cases s <;> exact rounded_of_add_eq rfl rfl trivial
  | zero s =>
    cases g with
    | notANumber => exact rounded_of_add_eq (h := .notANumber) rfl rfl trivial
    | infinity t => cases t <;> exact rounded_of_add_eq (h := .infinity _) rfl rfl trivial
    | zero t =>
      have hclass : Binary64.finite 0 + .finite 0 = .finite 0 := by rw [finite_add, add_zero]
      cases s <;> cases t <;> exact rounded_of_add_eq (h := .zero _) rfl hclass trivial
    | finite t m' e' hm' =>
      exact rounded_of_add_eq (h := .finite t m' e' hm') rfl
        (by simp only [classify, finite_add, zero_add]) hg
  | finite s m e hm =>
    cases g with
    | notANumber => exact rounded_of_add_eq (h := .notANumber) rfl rfl trivial
    | infinity t => cases t <;> exact rounded_of_add_eq (h := .infinity _) rfl rfl trivial
    | zero t =>
      exact rounded_of_add_eq (h := .finite s m e hm) rfl
        (by simp only [classify, finite_add, add_zero]) hf
    | finite t m' e' hm' =>
      obtain ⟨n, n', hn, hn', hvalue, hvalue'⟩ := aligned s t e e' hm hm'
      have hrounded := normalize_rounded (s.apply n + t.apply n') (min e e') .positive
      rw [Int.cast_add, add_mul, hvalue, hvalue'] at hrounded
      rw [UnpackedFloat.add]
      simp only [hn, hn']
      exact hrounded

theorem apply_neg (s : Sign) (z : ℤ) : (-s).apply z = -s.apply z := by
  cases s
  · exact (neg_neg z).symm
  · rfl

theorem canonical_neg {f : UnpackedFloat} (hf : Canonical f) : Canonical f.neg := by
  cases f <;> exact hf

theorem classify_neg (f : UnpackedFloat) : classify f.neg = (classify f).neg := by
  cases f with
  | notANumber => rfl
  | infinity s => cases s <;> rfl
  | zero s => simp [UnpackedFloat.neg, classify, Binary64.neg]
  | finite s m e hm =>
    simp only [UnpackedFloat.neg, classify, Binary64.neg, apply_neg, Int.cast_neg, neg_mul]

theorem sub_eq (f g : UnpackedFloat) :
    UnpackedFloat.sub spec f g = UnpackedFloat.add spec f g.neg := by
  cases f with
  | finite s m e hm =>
    cases g with
    | finite t m' e' hm' =>
      simp only [UnpackedFloat.sub, UnpackedFloat.neg, UnpackedFloat.add, apply_neg, sub_eq_add_neg]
    | _ => rfl
  | _ => cases g <;> rfl

theorem sub_rounded {f g : UnpackedFloat} (hf : Canonical f) (hg : Canonical g) :
    Rounded (classify f - classify g) (settle (UnpackedFloat.sub spec f g)) := by
  have hadd := add_rounded hf (canonical_neg hg)
  rw [classify_neg] at hadd
  rw [sub_eq]
  exact hadd

section Order

theorem significand_lt {m m' : ℕ} {e e' : ℤ} (h : Fits m e) (h' : Fits m' e') (he : e < e') :
    (m * 2 ^ e : ℚ) < m' * 2 ^ e' := by
  have hfull : 2 ^ 52 ≤ m' := by
    rcases h'.full with hfull | hleast
    · exact hfull
    · have := h.least
      omega
  obtain ⟨d, rfl⟩ := Int.le.dest he
  have hm : (m : ℚ) < 2 ^ 53 := by exact_mod_cast h.lt
  have hm' : (2 ^ 52 : ℚ) ≤ m' := by exact_mod_cast hfull
  have hpow : (2 : ℚ) ^ (e + 1 + d) = 2 ^ e * 2 * 2 ^ d := by
    rw [zpow_add₀ two_ne_zero, zpow_add_one₀ two_ne_zero, zpow_natCast]
  have hunit : (0 : ℚ) < 2 ^ e := zpow_pos two_pos e
  have hone : (1 : ℚ) ≤ 2 ^ d := one_le_pow₀ one_le_two
  calc (m * 2 ^ e : ℚ) < 2 ^ 53 * 2 ^ e := mul_lt_mul_of_pos_right hm hunit
    _ = 2 ^ 52 * (2 ^ e * 2 * 1) := by ring
    _ ≤ m' * (2 ^ e * 2 * 2 ^ d) := by gcongr
    _ = m' * 2 ^ (e + 1 + d) := by rw [hpow]

theorem compare_significands {m m' : ℕ} {e e' : ℤ} (h : Fits m e) (h' : Fits m' e') :
    (compare e e').then (compare m m') = compare (m * 2 ^ e : ℚ) (m' * 2 ^ e') := by
  rcases lt_trichotomy e e' with he | rfl | he
  · rw [compare_lt_iff_lt.mpr he, compare_lt_iff_lt.mpr (significand_lt h h' he)]
    rfl
  · have hunit : (0 : ℚ) < 2 ^ e := zpow_pos two_pos e
    rw [compare_eq_iff_eq.mpr rfl, Ordering.then]
    rcases lt_trichotomy m m' with hm | rfl | hm
    · rw [compare_lt_iff_lt.mpr hm,
        compare_lt_iff_lt.mpr (mul_lt_mul_of_pos_right (Nat.cast_lt.mpr hm) hunit)]
    · rw [compare_eq_iff_eq.mpr rfl, compare_eq_iff_eq.mpr rfl]
    · rw [compare_gt_iff_gt.mpr hm,
        compare_gt_iff_gt.mpr (mul_lt_mul_of_pos_right (Nat.cast_lt.mpr hm) hunit)]
  · rw [compare_gt_iff_gt.mpr he, compare_gt_iff_gt.mpr (significand_lt h' h he)]
    rfl

theorem compare_classify {f g : UnpackedFloat} (hf : Canonical f) (hg : Canonical g) {p q : ℚ}
    (hp : classify f = .finite p) (hq : classify g = .finite q) :
    f.compare g = some (compare p q) := by
  have hpos : ∀ {m : ℕ} {e : ℤ}, 0 < m → (0 : ℚ) < m * 2 ^ e := fun hm =>
    mul_pos (Nat.cast_pos.mpr hm) (zpow_pos two_pos _)
  have hswap : ∀ r s : ℚ, (compare r s).swap = compare (-r) (-s) := by
    intro r s
    rcases lt_trichotomy r s with h | rfl | h
    · rw [compare_lt_iff_lt.mpr h, compare_gt_iff_gt.mpr (neg_lt_neg h)]
      rfl
    · rw [compare_eq_iff_eq.mpr rfl, compare_eq_iff_eq.mpr rfl]
      rfl
    · rw [compare_gt_iff_gt.mpr h, compare_lt_iff_lt.mpr (neg_lt_neg h)]
      rfl
  cases f with
  | notANumber => cases hp
  | infinity s => cases s <;> cases hp
  | zero s =>
    cases hp
    cases g with
    | notANumber => cases hq
    | infinity t => cases t <;> cases hq
    | zero t =>
      cases hq
      rw [compare_eq_iff_eq.mpr rfl]
      rfl
    | finite t m e hm =>
      cases hq
      cases t with
      | negative =>
        rw [compare_gt_iff_gt.mpr (by simpa [Sign.apply] using hpos hm)]
        rfl
      | positive =>
        rw [compare_lt_iff_lt.mpr (by simpa [Sign.apply] using hpos hm)]
        rfl
  | finite s m e hm =>
    cases hp
    cases g with
    | notANumber => cases hq
    | infinity t => cases t <;> cases hq
    | zero t =>
      cases hq
      cases s with
      | negative =>
        rw [compare_lt_iff_lt.mpr (by simpa [Sign.apply] using hpos hm)]
        rfl
      | positive =>
        rw [compare_gt_iff_gt.mpr (by simpa [Sign.apply] using hpos hm)]
        rfl
    | finite t m' e' hm' =>
      cases hq
      have hcompare := compare_significands hf.1 hg.1
      have hneg : ∀ {m : ℕ} {e : ℤ}, ((Sign.negative.apply m : ℤ) : ℚ) * 2 ^ e = -(m * 2 ^ e) := by
        intro m e
        simp [Sign.apply]
      have hsame : ∀ {m : ℕ} {e : ℤ}, ((Sign.positive.apply m : ℤ) : ℚ) * 2 ^ e = m * 2 ^ e := by
        intro m e
        simp [Sign.apply]
      cases s with
      | negative =>
        cases t with
        | negative => rw [UnpackedFloat.compare, hneg, hneg, ← hswap, hcompare]
        | positive =>
          rw [UnpackedFloat.compare, hneg, hsame]
          have h1 := hpos (e := e) hm
          have h2 := hpos (e := e') hm'
          rw [compare_lt_iff_lt.mpr (by linarith)]
      | positive =>
        cases t with
        | negative =>
          rw [UnpackedFloat.compare, hneg, hsame]
          have h1 := hpos (e := e) hm
          have h2 := hpos (e := e') hm'
          rw [compare_gt_iff_gt.mpr (by linarith)]
        | positive => rw [UnpackedFloat.compare, hsame, hsame, hcompare]

theorem special_order {f g : UnpackedFloat}
    (h : (∀ q, classify f ≠ .finite q) ∨ ∀ q, classify g ≠ .finite q) :
    f.le g = Binary64.lessEq (classify f) (classify g) ∧
      f.lt g = Binary64.less (classify f) (classify g) := by
  cases f with
  | notANumber => exact ⟨rfl, rfl⟩
  | infinity s =>
    cases g with
    | infinity t => cases s <;> cases t <;> exact ⟨rfl, rfl⟩
    | _ => cases s <;> exact ⟨rfl, rfl⟩
  | zero s =>
    cases g with
    | notANumber => exact ⟨rfl, rfl⟩
    | infinity t => cases t <;> exact ⟨rfl, rfl⟩
    | _ => exact (h.elim (fun h => h _ rfl) fun h => h _ rfl).elim
  | finite s m e hm =>
    cases g with
    | notANumber => exact ⟨rfl, rfl⟩
    | infinity t => cases t <;> exact ⟨rfl, rfl⟩
    | _ => exact (h.elim (fun h => h _ rfl) fun h => h _ rfl).elim

theorem le_classify {f g : UnpackedFloat} (hf : Canonical f) (hg : Canonical g) :
    f.le g = Binary64.lessEq (classify f) (classify g) := by
  by_cases hfinite : (∃ p, classify f = .finite p) ∧ ∃ q, classify g = .finite q
  · obtain ⟨⟨p, hp⟩, q, hq⟩ := hfinite
    rw [UnpackedFloat.le, compare_classify hf hg hp hq, hp, hq, Option.any_some]
    rcases lt_trichotomy p q with hpq | rfl | hpq
    · rw [compare_lt_iff_lt.mpr hpq]
      exact (decide_eq_true hpq.le).symm
    · rw [compare_eq_iff_eq.mpr rfl]
      exact (decide_eq_true le_rfl).symm
    · rw [compare_gt_iff_gt.mpr hpq]
      exact (decide_eq_false (not_le.mpr hpq)).symm
  · rw [not_and_or, not_exists, not_exists] at hfinite
    exact (special_order hfinite).1

theorem lt_classify {f g : UnpackedFloat} (hf : Canonical f) (hg : Canonical g) :
    f.lt g = Binary64.less (classify f) (classify g) := by
  by_cases hfinite : (∃ p, classify f = .finite p) ∧ ∃ q, classify g = .finite q
  · obtain ⟨⟨p, hp⟩, q, hq⟩ := hfinite
    rw [UnpackedFloat.lt, compare_classify hf hg hp hq, hp, hq]
    rcases lt_trichotomy p q with hpq | rfl | hpq
    · rw [compare_lt_iff_lt.mpr hpq]
      exact (decide_eq_true hpq).symm
    · rw [compare_eq_iff_eq.mpr rfl]
      exact (decide_eq_false (lt_irrefl p)).symm
    · rw [compare_gt_iff_gt.mpr hpq]
      exact (decide_eq_false (not_lt.mpr hpq.le)).symm
  · rw [not_and_or, not_exists, not_exists] at hfinite
    exact (special_order hfinite).2

end Order

end DistributedBanking.Doubles
