import Capability.Double.Basic

/-!
# The shortest decimals of a double

A decimal reads back as a double when it lies in the interval of numbers that round to it: half way to the neighbour
on either side, the ends included exactly when the significand is even. `Double.shortest` takes the coarsest power of
ten that has a multiple in this interval, and of its multiples there the nearest, so no decimal with fewer digits
reads back, and none with as many is nearer.
-/

namespace Capability

/-- The number `digits · 10 ^ exponent`. -/
structure Decimal where
  digits : Nat
  exponent : Int
  deriving DecidableEq, Repr

/-- Which of two equally near multiples is taken. -/
inductive Decimal.Tie where
  /-- The one with the even last digit. -/
  | even
  /-- The greater one. -/
  | up
  deriving DecidableEq, Repr

namespace Double

/-! ## The rounding interval

Numbers are counted here in quarters of a unit, `2 ^ (-1076)`, which makes the ends of the interval integers. -/

/-- How far the interval reaches below the number, in quarters of its last place: the lower neighbour of a power of
two is nearer. -/
def reachBelow (d : Double) : Nat :=
  if d.significand = twoTo 52 ∧ d.scale ≠ 0 then 1 else 2

/-- The factor that takes quarters of the last place to the grid of `10 ^ j`, over `perTen d j`. -/
def perPlace (d : Double) (j : Int) : Nat :=
  twoTo d.scale * Nat.pow 10 (-j).toNat

/-- The factor that takes multiples of `10 ^ j` to the grid on which `perPlace d j` counts. -/
def perTen (j : Int) : Nat :=
  4 * one * Nat.pow 10 j.toNat

/-- Whether `n · 10 ^ j` reads back as the magnitude of the double. -/
def readsBack (d : Double) (j : Int) (n : Nat) : Bool :=
  let low := (4 * d.significand - d.reachBelow) * d.perPlace j
  let high := (4 * d.significand + 2) * d.perPlace j
  let point := n * perTen j
  if d.significand % 2 = 0 then decide (low ≤ point ∧ point ≤ high) else decide (low < point ∧ point < high)

/-- The multiple of `10 ^ j` nearest to the magnitude of the double, among those that read back. -/
def onGrid? (d : Double) (tie : Decimal.Tie) (j : Int) : Option Decimal :=
  let magnitude := 4 * d.significand * d.perPlace j
  let below := magnitude / perTen j
  let rest := 2 * (magnitude % perTen j)
  match d.readsBack j below, d.readsBack j (below + 1) with
  | false, false => none
  | true, false => some ⟨below, j⟩
  | false, true => some ⟨below + 1, j⟩
  | true, true =>
    if rest < perTen j ∨ rest = perTen j ∧ tie = .even ∧ below % 2 = 0 then some ⟨below, j⟩ else some ⟨below + 1, j⟩

/-- The exponent of a power of ten above the magnitude of the double. -/
def digitsAbove (d : Double) : Nat :=
  (Nat.toDigits 10 (d.magnitude / one)).length

/-- The shortest decimal that reads back as the magnitude of the double. The grid of `10 ^ (-324)` is finer than any
interval, so the search does not fail. -/
def shortest (d : Double) (tie : Decimal.Tie) : Decimal :=
  if d.significand = 0 then ⟨0, 0⟩
  else
    ((List.range (d.digitsAbove + 325)).findSome? fun (i : Nat) => d.onGrid? tie (d.digitsAbove - i)).getD
      ⟨4 * d.significand * d.perPlace (-324) / perTen (-324), -324⟩

end Double

end Capability
