/-!
# Double precision numbers

`Double` holds the finite binary64 numbers exactly: a sign, a significand `m` and a scale `k` stand for
`± m · 2 ^ k` units, where the unit is the least positive double, `2 ^ (-1074)`. The canonical form makes the three
unique, and `Double.units` gives every double as an integer, so that comparison and the test for integral values are
exact integer arithmetic. Zero has two signs, which compare equal and are written differently.

* `two_mul_roundDiv_le`, `le_two_mul_roundDiv`: `roundDiv` is within half a unit of the quotient.
* `toInt?_eq_some_iff`: a double is read as an integer exactly when its value is that integer.
-/

namespace Capability

/-- A power of two. -/
def Double.twoTo (n : Nat) : Nat := Nat.pow 2 n

/-- `m · 2 ^ k` units have a significand below `2 ^ 53`, which has all its bits unless the scale is least. -/
def Double.Canonical (m k : Nat) : Prop :=
  m < twoTo 53 ∧ k ≤ 2045 ∧ (twoTo 52 ≤ m ∨ k = 0)

instance (m k : Nat) : Decidable (Double.Canonical m k) :=
  inferInstanceAs (Decidable (_ ∧ _ ∧ (_ ∨ _)))

/-- A finite double: `± significand · 2 ^ scale` units of `2 ^ (-1074)`. -/
structure Double where
  negative : Bool
  significand : Nat
  scale : Nat
  canonical : Double.Canonical significand scale
  deriving DecidableEq

namespace Double

/-! ## Value and order -/

/-- The distance from zero as a multiple of the least positive double. -/
def magnitude (d : Double) : Nat :=
  d.significand * twoTo d.scale

/-- The value as a multiple of the least positive double. -/
def units (d : Double) : Int :=
  if d.negative then -(d.magnitude : Int) else d.magnitude

/-- Doubles are ordered by value. -/
instance : LT Double := ⟨fun a b => a.units < b.units⟩

instance (a b : Double) : Decidable (a < b) :=
  inferInstanceAs (Decidable (a.units < b.units))

/-- Doubles are the same number when they have the same value, so both zeros are one number. -/
instance : BEq Double := ⟨fun a b => a.units == b.units⟩

/-- The unit is two to the negated power of this. -/
def unitPlaces : Nat := 1074

/-- How many units make up one. -/
def one : Nat := twoTo unitPlaces

/-- The integer that the double is, if it has no fractional part. -/
def toInt? (d : Double) : Option Int :=
  if d.units % one = 0 then some (d.units / one) else none

theorem lt_iff {a b : Double} : a < b ↔ a.units < b.units := Iff.rfl

theorem beq_iff {a b : Double} : (a == b) = true ↔ a.units = b.units :=
  show (a.units == b.units) = true ↔ _ from beq_iff_eq

theorem twoTo_pos (n : Nat) : 0 < twoTo n := Nat.two_pow_pos n

theorem one_pos : 0 < one := twoTo_pos unitPlaces

theorem toInt?_eq_some_iff {d : Double} {n : Int} : d.toInt? = some n ↔ d.units = n * one := by
  have h1 : (one : Int) ≠ 0 := Int.natCast_ne_zero.2 (Nat.ne_of_gt one_pos)
  unfold toInt?
  split
  case isTrue h =>
    have hd := Int.mul_ediv_cancel' (Int.dvd_of_emod_eq_zero h)
    simp only [Option.some.injEq]
    constructor
    · rintro rfl
      rw [Int.mul_comm, hd]
    · intro hn
      rw [hn, Int.mul_ediv_cancel _ h1]
  case isFalse h =>
    simp only [reduceCtorEq, false_iff]
    intro hn
    exact h (by rw [hn, Int.mul_emod_left])

/-! ## Rounding -/

/-- The quotient rounded to the nearest integer, a half to the even one. -/
def roundDiv (num den : Nat) : Nat :=
  if 2 * (num % den) < den ∨ 2 * (num % den) = den ∧ num / den % 2 = 0 then num / den else num / den + 1

theorem two_mul_roundDiv_le (num den : Nat) : 2 * (den * roundDiv num den) ≤ 2 * num + den := by
  have h := Nat.div_add_mod num den
  unfold roundDiv
  split
  · omega
  · rw [Nat.mul_add]
    omega

theorem le_two_mul_roundDiv {num den : Nat} (hden : 0 < den) : 2 * num ≤ 2 * (den * roundDiv num den) + den := by
  have h := Nat.div_add_mod num den
  have hm := Nat.mod_lt num hden
  unfold roundDiv
  split
  · omega
  · rw [Nat.mul_add]
    omega

/-- The double with these parts, unless they are beyond the greatest double. -/
def ofParts? (negative : Bool) (m k : Nat) : Option Double :=
  if h : Canonical m k then some ⟨negative, m, k, h⟩ else none

/-- The double nearest to `± num / den`, a half to the even significand; none if that is beyond the greatest. -/
def ofRatio? (negative : Bool) (num den : Nat) : Option Double :=
  let k := Nat.log2 (num * one / den) - 52
  let m := roundDiv (num * one) (den * twoTo k)
  if m < twoTo 53 then ofParts? negative m k else ofParts? negative (twoTo 52) (k + 1)

/-- Zero with a sign. -/
def zero (negative : Bool) : Double :=
  ⟨negative, 0, 0, by decide⟩

/-- The double farthest from zero. -/
def greatest (negative : Bool) : Double :=
  ⟨negative, twoTo 53 - 1, 2045, by decide⟩

/-- The double nearest to an integer. -/
def ofInt (n : Int) : Double :=
  (ofRatio? (n < 0) n.natAbs 1).getD (greatest (n < 0))

/-- The double as a signed 64-bit integer, if it has no fractional part and lies in the range. The greatest such integer
is no double: the one nearest to it is greater by one, and so the first that is beyond the range. -/
def toInt64? (d : Double) : Option Int64 :=
  d.toInt?.bind fun n =>
    if ¬d < ofInt Int64.minValue.toInt ∧ d < ofInt Int64.maxValue.toInt then some (Int64.ofInt n) else none

/-- The product, rounded to the nearest double. -/
def mul? (a b : Double) : Option Double :=
  ofRatio? (a.negative != b.negative) (a.magnitude * b.magnitude) (one * one)

/-- The quotient by a double other than zero, rounded to the nearest double. -/
def div? (a b : Double) : Option Double :=
  ofRatio? (a.negative != b.negative) a.magnitude b.magnitude

/-! ## Decimals -/

/-- The double nearest to a power of ten. -/
def tenTo? (n : Nat) : Option Double :=
  ofRatio? false (Nat.pow 10 n) 1

/-- The double with its decimal point moved to the left. Powers of ten end at `10 ^ 308`, so a longer way is divided
off in two steps; after more than two nothing is left of a number of twenty digits. -/
def shiftDown? (d : Double) (places : Nat) : Option Double :=
  if places ≤ 308 then do d.div? (← tenTo? places)
  else if places ≤ 616 then do (← d.div? (← tenTo? 308)).div? (← tenTo? (places - 308))
  else some (zero d.negative)

/-- The double with its decimal point moved to the right; none if it leaves the range. -/
def shiftUp? (d : Double) (places : Nat) : Option Double :=
  if d.significand = 0 then some d
  else if places ≤ 308 then do d.mul? (← tenTo? places)
  else none

/-- The double that `± digits · 10 ^ exponent` is read as: the digits are rounded to a double before they are scaled,
and the scaled number is rounded once more, so the last place may differ from that of the nearest double. -/
def ofDecimal? (negative : Bool) (digits : Nat) (exponent : Int) : Option Double := do
  let d ← ofRatio? negative digits 1
  if 0 ≤ exponent then d.shiftUp? exponent.toNat else d.shiftDown? (-exponent).toNat

end Double

end Capability
