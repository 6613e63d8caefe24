import Mathlib.Data.Rat.Cast.Order
import DistributedBanking.GoRuntime

/-!
# Monetary values

The bank compares, adds and subtracts amounts and never looks inside them, so
it is written over any type with these operations. Two readings of a `float64`
are used: exact rationals, and `Binary64`, which adds the special values with
their IEEE rules and keeps exact arithmetic on finite values.

`Float64` is the wire side: `math.Float64frombits` and `math.Float64bits`.
-/

namespace DistributedBanking

class Money (M : Type) extends Zero M, Add M, Sub M, LE M, LT M where
  decLE : DecidableLE M
  decLT : DecidableLT M

attribute [reducible, instance] Money.decLE Money.decLT

class Float64 (M : Type) where
  frombits : UInt64 → M
  bits : M → UInt64

/-- A value that is only passed on is its own pattern. -/
instance : Float64 UInt64 := ⟨id, id⟩

instance : Money ℚ where
  decLE := inferInstance
  decLT := inferInstance

inductive Binary64
  | nan
  | posInf
  | negInf
  | finite (q : ℚ)
  deriving DecidableEq

namespace Binary64

def neg : Binary64 → Binary64
  | nan => nan
  | posInf => negInf
  | negInf => posInf
  | finite q => finite (-q)

def add : Binary64 → Binary64 → Binary64
  | nan, _ => nan
  | _, nan => nan
  | posInf, negInf => nan
  | negInf, posInf => nan
  | posInf, _ => posInf
  | _, posInf => posInf
  | negInf, _ => negInf
  | _, negInf => negInf
  | finite p, finite q => finite (p + q)

def less : Binary64 → Binary64 → Bool
  | nan, _ => false
  | _, nan => false
  | posInf, _ => false
  | _, negInf => false
  | negInf, _ => true
  | _, posInf => true
  | finite p, finite q => p < q

def lessEq : Binary64 → Binary64 → Bool
  | nan, _ => false
  | _, nan => false
  | negInf, _ => true
  | _, posInf => true
  | posInf, _ => false
  | _, negInf => false
  | finite p, finite q => p ≤ q

instance : Money Binary64 where
  zero := finite 0
  add := add
  sub a b := add a (neg b)
  le a b := lessEq a b
  lt a b := less a b
  decLE a b := inferInstanceAs (Decidable (lessEq a b = true))
  decLT a b := inferInstanceAs (Decidable (less a b = true))

theorem zero_def : (0 : Binary64) = finite 0 := rfl
theorem add_def (a b : Binary64) : a + b = add a b := rfl
theorem le_def (a b : Binary64) : a ≤ b ↔ lessEq a b = true := Iff.rfl
theorem lt_def (a b : Binary64) : a < b ↔ less a b = true := Iff.rfl

/-- Sign, 11 exponent bits and 52 fraction bits; the scale of a finite pattern is `2^(e-1075)`. -/
def ofPattern (b : UInt64) : Binary64 :=
  let negative := 2 ^ 63 ≤ b.toNat
  let expo : ℕ := b.toNat / 2 ^ 52 % 2 ^ 11
  let frac : ℕ := b.toNat % 2 ^ 52
  if expo = 2 ^ 11 - 1 then
    if frac ≠ 0 then nan else if negative then negInf else posInf
  else
    let mag : ℚ :=
      if expo = 0 then (frac : ℚ) / 2 ^ 1074
      else if 1075 ≤ expo then (2 ^ 52 + frac : ℚ) * 2 ^ (expo - 1075)
      else (2 ^ 52 + frac : ℚ) / 2 ^ (1075 - expo)
    finite (if negative then -mag else mag)

/-- The pattern of the largest double not above `n / d`, for `0 < n` and `0 < d`. -/
def magnitudePattern (n d : ℕ) : ℕ :=
  -- `k` is the binary exponent shifted by 1074, so that a subnormal has `k < 52`.
  let k := Nat.log2 (n * 2 ^ 1074 / d)
  if n * 2 ^ 1074 / d < 2 ^ 52 then n * 2 ^ 1074 / d
  else if 2098 ≤ k then (2 ^ 11 - 1) * 2 ^ 52
  else (k - 51) * 2 ^ 52 + (n * 2 ^ 1074 / (d * 2 ^ (k - 52)) - 2 ^ 52)

/-- The bit pattern of a value; a rational between two doubles is cut towards zero. -/
def pattern : Binary64 → UInt64
  | nan => UInt64.ofNat (0x7FF8000000000001)
  | posInf => UInt64.ofNat (0x7FF0000000000000)
  | negInf => UInt64.ofNat (0xFFF0000000000000)
  | finite q =>
    if q < 0 then UInt64.ofNat (2 ^ 63 + magnitudePattern q.num.natAbs q.den)
    else UInt64.ofNat (magnitudePattern q.num.natAbs q.den)

instance : Float64 Binary64 := ⟨ofPattern, pattern⟩

/-- The exact reading has no place for a special value. -/
def toRat : Binary64 → ℚ
  | finite q => q
  | _ => 0

end Binary64

instance : Float64 ℚ :=
  ⟨fun b => (Binary64.ofPattern b).toRat, fun q => (Binary64.finite q).pattern⟩

end DistributedBanking
