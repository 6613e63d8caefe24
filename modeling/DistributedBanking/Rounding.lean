import Mathlib.Algebra.Order.Field.Power
import Mathlib.Data.Rat.Floor
import Mathlib.Tactic

/-!
# Rounding to nearest

A format represents the numbers with a significand of so many bits over an
exponent that is not below the least one; the exponent has no upper bound here.
Nothing is said about ties.
-/

namespace DistributedBanking.Rounding

structure Format where
  precision : ℕ
  least : ℤ
  positive : 0 < precision

namespace Format
variable {f : Format} {x y w z : ℚ}

def Represents (f : Format) (x : ℚ) : Prop :=
  ∃ m e : ℤ, |m| < 2 ^ f.precision ∧ f.least ≤ e ∧ x = m * 2 ^ e

structure Rounds (f : Format) (x w : ℚ) : Prop where
  represents : f.Represents w
  nearest : ∀ z, f.Represents z → |w - x| ≤ |z - x|

theorem represents_zero : f.Represents 0 :=
  ⟨0, f.least, by simp, le_rfl, by simp⟩

theorem Represents.neg (h : f.Represents x) : f.Represents (-x) := by
  obtain ⟨m, e, hm, he, rfl⟩ := h
  exact ⟨-m, e, by rwa [abs_neg], he, by push_cast; ring⟩

theorem represents_of_le {n t : ℤ} (hn : |n| ≤ 2 ^ f.precision) (ht : f.least ≤ t) :
    f.Represents (n * 2 ^ t) := by
  rcases hn.lt_or_eq with hlt | heq
  · exact ⟨n, t, hlt, ht, rfl⟩
  obtain ⟨k, hk⟩ : ∃ k, f.precision = k + 1 := Nat.exists_eq_succ_of_ne_zero f.positive.ne'
  have hpow : (2 : ℤ) ^ f.precision = 2 * 2 ^ k := by rw [hk, pow_succ, mul_comm]
  have htwo : (2 : ℚ) ^ (t + 1) = 2 * 2 ^ t := by
    rw [zpow_add_one₀ two_ne_zero, mul_comm]
  have hsmall : |(2 : ℤ) ^ k| < 2 ^ f.precision := by
    rw [abs_of_nonneg (by positivity), hpow]
    linarith [pow_pos (two_pos : (0 : ℤ) < 2) k]
  rw [hpow] at heq
  rcases abs_choice n with hpos | hneg
  · refine ⟨2 ^ k, t + 1, hsmall, by omega, ?_⟩
    rw [htwo, ← hpos, heq]
    push_cast
    ring
  · refine ⟨-2 ^ k, t + 1, by rwa [abs_neg], by omega, ?_⟩
    have hn' : n = -(2 * 2 ^ k) := by omega
    rw [htwo, hn']
    push_cast
    ring

theorem Represents.abs_lt (h : f.Represents x) :
    ∃ e : ℤ, f.least ≤ e ∧ |x| < 2 ^ (f.precision + e) ∧ ∃ m : ℤ, x = m * 2 ^ e := by
  obtain ⟨m, e, hm, he, rfl⟩ := h
  refine ⟨e, he, ?_, m, rfl⟩
  have hm' : |(m : ℚ)| < 2 ^ f.precision := by exact_mod_cast hm
  rw [abs_mul, abs_of_pos (zpow_pos (two_pos : (0 : ℚ) < 2) e), zpow_add₀ two_ne_zero,
    zpow_natCast]
  exact mul_lt_mul_of_pos_right hm' (zpow_pos two_pos e)

theorem rounds_self (hx : f.Represents x) : f.Rounds x x :=
  ⟨hx, fun z _ => by rw [sub_self, abs_zero]; exact abs_nonneg _⟩

theorem Rounds.exact (h : f.Rounds x w) (hx : f.Represents x) : w = x := by
  have hzero := h.nearest x hx
  rw [sub_self, abs_zero] at hzero
  exact sub_eq_zero.mp (abs_nonpos_iff.mp hzero)

theorem Rounds.neg (h : f.Rounds x w) : f.Rounds (-x) (-w) where
  represents := h.represents.neg
  nearest z hz := by
    have hnear := h.nearest (-z) hz.neg
    rwa [neg_sub_neg, abs_sub_comm, ← abs_neg (z - -x), neg_sub', neg_neg]

theorem Rounds.le (h : f.Rounds x w) (hz : f.Represents z) (hxz : x ≤ z) : w ≤ z := by
  have hnear := h.nearest z hz
  rw [abs_of_nonneg (sub_nonneg.mpr hxz)] at hnear
  linarith [le_abs_self (w - x)]

theorem Rounds.ge (h : f.Rounds x w) (hz : f.Represents z) (hzx : z ≤ x) : z ≤ w := by
  have hneg := h.neg.le hz.neg (neg_le_neg hzx)
  exact neg_le_neg_iff.mp hneg

theorem half_unit_nearest {u : ℚ} (hu : 0 < u) {n m : ℤ} (hhalf : |n * u - x| ≤ u / 2) :
    |n * u - x| ≤ |m * u - x| := by
  by_cases hmn : m = n
  · rw [hmn]
  have hone : (1 : ℚ) ≤ |(m - n : ℚ)| := by
    have hint : (1 : ℤ) ≤ |m - n| := Int.one_le_abs (sub_ne_zero.mpr hmn)
    exact_mod_cast hint
  have hapart : u ≤ |(m - n) * u| := by
    rw [abs_mul, abs_of_pos hu]
    exact le_mul_of_one_le_left hu.le hone
  have hsplit : ((m - n) * u : ℚ) = (m * u - x) - (n * u - x) := by ring
  rw [hsplit] at hapart
  linarith [abs_sub (m * u - x) (n * u - x)]

/-- A multiple of a unit within half of it is nearest when the unit is the least one, or when the
significand of the exact value fills the format. -/
theorem rounds_of_half_unit {n t : ℤ} (ht : f.least ≤ t) (hn : |n| ≤ 2 ^ f.precision)
    (hhalf : |n * 2 ^ t - x| ≤ 2 ^ t / 2)
    (hfull : t = f.least ∨ 2 ^ (f.precision + t - 1) ≤ |x|) : f.Rounds x (n * 2 ^ t) where
  represents := represents_of_le hn ht
  nearest z hz := by
    have hunit : (0 : ℚ) < 2 ^ t := zpow_pos two_pos t
    obtain ⟨e, he, hzlt, m, rfl⟩ := hz.abs_lt
    rcases le_or_gt t e with hte | hte
    · obtain ⟨d, rfl⟩ := Int.le.dest hte
      have hmultiple : (m * 2 ^ (t + d) : ℚ) = (m * 2 ^ d : ℤ) * 2 ^ t := by
        rw [zpow_add₀ two_ne_zero, zpow_natCast]
        push_cast
        ring
      rw [hmultiple]
      exact half_unit_nearest hunit hhalf
    -- A finer number lies below the least one whose significand fills the format.
    have hnormal := hfull.resolve_left (by omega)
    have hbelow : |(m * 2 ^ e : ℚ)| ≤ 2 ^ (f.precision + t - 1) :=
      hzlt.le.trans (zpow_le_zpow_right₀ one_le_two (by omega))
    have hcorner : (2 : ℚ) ^ (f.precision + t - 1 : ℤ) = (2 ^ (f.precision - 1) : ℤ) * 2 ^ t := by
      have hexp : (f.precision + t - 1 : ℤ) = (f.precision - 1 : ℕ) + t := by
        have := f.positive
        omega
      rw [hexp, zpow_add₀ two_ne_zero, zpow_natCast]
      push_cast
      ring
    rw [hcorner] at hnormal hbelow
    generalize hs : ((2 : ℤ) ^ (f.precision - 1)) = s at hnormal hbelow
    have htriangle := abs_sub_abs_le_abs_sub x (m * 2 ^ e)
    rw [abs_sub_comm x] at htriangle
    rcases abs_choice x with hpos | hneg
    · have hnear := half_unit_nearest (m := s) hunit hhalf
      rw [abs_sub_comm ((s : ℚ) * 2 ^ t) x,
        abs_of_nonneg (by linarith : 0 ≤ x - (s : ℚ) * 2 ^ t)] at hnear
      linarith
    · have hnear := half_unit_nearest (m := -s) hunit hhalf
      push_cast at hnear
      rw [abs_of_nonneg (by linarith : 0 ≤ -(s : ℚ) * 2 ^ t - x)] at hnear
      linarith

theorem exists_half_unit {u : ℚ} (hu : 0 < u) (x : ℚ) : ∃ n : ℤ, |n * u - x| ≤ u / 2 := by
  refine ⟨round (x / u), ?_⟩
  have hround := abs_sub_round (x / u)
  have hx : round (x / u) * u - x = -((x / u - round (x / u)) * u) := by
    field_simp
    ring
  rw [hx, abs_neg, abs_mul, abs_of_pos hu]
  linarith [mul_le_mul_of_nonneg_right hround hu.le]

theorem Rounds.error (h : f.Rounds x w) {k : ℤ} (hk : f.least ≤ k)
    (hx : |x| ≤ 2 ^ (f.precision + k)) : |w - x| ≤ 2 ^ k / 2 := by
  have hunit : (0 : ℚ) < 2 ^ k := zpow_pos two_pos k
  obtain ⟨n, hn⟩ := exists_half_unit hunit x
  refine (h.nearest _ (represents_of_le ?_ hk)).trans hn
  by_contra hbig
  have hnext : (2 : ℤ) ^ f.precision + 1 ≤ |n| := by omega
  have hnext' : (2 ^ f.precision + 1 : ℚ) * 2 ^ k ≤ |(n * 2 ^ k : ℚ)| := by
    rw [abs_mul, abs_of_pos hunit]
    exact mul_le_mul_of_nonneg_right (by exact_mod_cast hnext) hunit.le
  rw [zpow_add₀ two_ne_zero, zpow_natCast] at hx
  linarith [abs_sub_abs_le_abs_sub (n * 2 ^ k : ℚ) x]

end Format
end DistributedBanking.Rounding
