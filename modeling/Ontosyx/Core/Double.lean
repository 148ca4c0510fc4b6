import Mathlib.Algebra.Order.Field.Rat
import Mathlib.Tactic.FieldSimp
import Ontosyx.Core.Types

/-!
# The exact value of a double

What a finite double stands for, and the standard library's `f64::fract`,
comparison with the `i64` bounds, and saturating `as i64` on it.  Values are kept
in units of `2⁻¹⁰⁷⁴`, the least positive double, so every question about a double
is one about integers.
-/

namespace Ontosyx.Core

namespace F64

def exponent (x : F64) : Nat := x.bits.toNat / 2 ^ 52 % 2 ^ 11

/-- The significand, with the implicit leading bit of a normal number. -/
def significand (x : F64) : Nat :=
  if x.exponent = 0 then x.bits.toNat % 2 ^ 52 else 2 ^ 52 + x.bits.toNat % 2 ^ 52

/-- The value in units of `2⁻¹⁰⁷⁴`. -/
def scaled (x : F64) : Int :=
  let magnitude : Int := (x.significand * 2 ^ (x.exponent - 1) : Nat)
  if x.bits.msb then -magnitude else magnitude

/-- The unit that `scaled` counts in, inverted. -/
abbrev scale : Int := 2 ^ 1074

/-- The number a double stands for. -/
def value (x : F64) : Rat := x.scaled / scale

/-- `n.fract() == 0.0`. -/
def isWhole (x : F64) : Bool := x.scaled % scale == 0

/-- The double cut off at its decimal point. -/
def trunc (x : F64) : Int := x.scaled.tdiv scale

/-- `n >= i64::MIN as f64 && n <= i64::MAX as f64`; the upper bound rounds to `2⁶³`. -/
def inInt64Bounds (x : F64) : Bool := -2 ^ 63 * scale ≤ x.scaled && x.scaled ≤ 2 ^ 63 * scale

/-- `n as i64`, which saturates. -/
def toInt64 (x : F64) : Int64 := Int64.ofInt (max (-2 ^ 63) (min (2 ^ 63 - 1) x.trunc))

theorem scale_pos : 0 < scale := by
  norm_num [scale]

variable {x : F64}

theorem scaled_eq_of_isWhole (h : x.isWhole = true) : x.scaled = x.trunc * scale := by
  rw [isWhole, beq_iff_eq] at h
  exact (Int.tdiv_mul_cancel (Int.dvd_of_emod_eq_zero h)).symm

/-- A whole double stands for its cut-off. -/
theorem value_of_isWhole (h : x.isWhole = true) : x.value = x.trunc := by
  have hs : (scale : Rat) ≠ 0 := by exact_mod_cast scale_pos.ne'
  rw [value, scaled_eq_of_isWhole h, Int.cast_mul, mul_div_cancel_right₀ _ hs]

theorem trunc_bounds (hw : x.isWhole = true) (hb : x.inInt64Bounds = true) :
    -2 ^ 63 ≤ x.trunc ∧ x.trunc ≤ 2 ^ 63 := by
  simp only [inInt64Bounds, Bool.and_eq_true, decide_eq_true_eq, scaled_eq_of_isWhole hw] at hb
  exact ⟨le_of_mul_le_mul_right hb.1 scale_pos, le_of_mul_le_mul_right hb.2 scale_pos⟩

/-- On a whole number within the bounds the cast to `i64` is exact except at `2⁶³`. -/
theorem toInt64_exact_iff (hw : x.isWhole = true) (hb : x.inInt64Bounds = true) :
    (x.toInt64.toInt : Rat) = x.value ↔ x.value ≠ 2 ^ 63 := by
  have hbounds := trunc_bounds hw hb
  have hcast : x.toInt64.toInt = min (2 ^ 63 - 1) x.trunc := by
    rw [toInt64, Int64.toInt_ofInt_of_le (by omega) (by omega)]
    omega
  rw [hcast, value_of_isWhole hw]
  constructor
  · intro h
    have h' : min (2 ^ 63 - 1) x.trunc = x.trunc := by exact_mod_cast h
    intro hne
    have hne' : x.trunc = 2 ^ 63 := by exact_mod_cast hne
    omega
  · intro hne
    have hne' : x.trunc ≠ 2 ^ 63 := fun h => hne (by exact_mod_cast congrArg Int.cast h)
    have h' : min (2 ^ 63 - 1) x.trunc = x.trunc := by omega
    exact_mod_cast h'

/-- `2⁶³` is a whole number within the bounds. -/
theorem bounds_of_value_eq (h : x.value = 2 ^ 63) : (x.isWhole && x.inInt64Bounds) = true := by
  have hs : (scale : Rat) ≠ 0 := by exact_mod_cast scale_pos.ne'
  have hscaled : x.scaled = 2 ^ 63 * scale := by
    rw [value, div_eq_iff hs] at h
    exact_mod_cast h
  simp [isWhole, inInt64Bounds, hscaled]

end F64

end Ontosyx.Core
