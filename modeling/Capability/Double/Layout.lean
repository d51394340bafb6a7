import Capability.Double.Shortest

/-!
# Writing doubles

A `Double.Layout` says how the digits of a double are set out: which exponents are written positionally and what marks
a whole number. All other numbers are in scientific notation, with an explicit sign on the exponent.
-/

namespace Capability

/-- How doubles are written. -/
structure Double.Layout where
  /-- Which of two equally short and equally near decimals is written. -/
  tie : Decimal.Tie
  /-- Whether a number whose first digit counts powers of ten with this exponent is written positionally. -/
  positional : Int → Bool
  /-- What follows the last digit of a whole number in positional notation. -/
  wholeMark : String

namespace Decimal

/-- The digits of the decimal. -/
def digitText (d : Decimal) : String :=
  String.ofList (Nat.toDigits 10 d.digits)

/-- The exponent of the first digit. -/
def leading (d : Decimal) : Int :=
  d.exponent + (Nat.toDigits 10 d.digits).length - 1

/-- A run of zeros. -/
def zeros (n : Int) : String :=
  String.ofList (List.replicate n.toNat '0')

/-- Positional notation, with a mark on whole numbers. -/
def positional (d : Decimal) (wholeMark : String) : String :=
  let digits := Nat.toDigits 10 d.digits
  if 0 ≤ d.exponent then d.digitText ++ zeros d.exponent ++ wholeMark
  else if 0 ≤ d.leading then
    let whole := (d.leading + 1).toNat
    String.ofList (digits.take whole) ++ "." ++ String.ofList (digits.drop whole)
  else "0." ++ zeros (-d.leading - 1) ++ d.digitText

/-- Scientific notation: one digit before the point, and no point if that is all. -/
def scientific (d : Decimal) : String :=
  let digits := Nat.toDigits 10 d.digits
  let fraction := if digits.length ≤ 1 then "" else "." ++ String.ofList (digits.drop 1)
  let sign := if 0 ≤ d.leading then "+" else "-"
  String.ofList (digits.take 1) ++ fraction ++ "e" ++ sign ++ toString d.leading.natAbs

end Decimal

/-- The text of a double in a layout. The sign of a zero is written. -/
def Double.text (d : Double) (layout : Double.Layout) : String :=
  let decimal := d.shortest layout.tie
  let magnitude :=
    if layout.positional decimal.leading then decimal.positional layout.wholeMark else decimal.scientific
  if d.negative then "-" ++ magnitude else magnitude

end Capability
