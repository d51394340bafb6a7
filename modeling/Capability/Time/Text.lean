import Capability.Text.Blank
import Capability.Time.Instant

/-!
# Instants as text

Instants are written in UTC, with as many digits of the fraction as are needed in groups of three. They are read with
any offset from UTC. Reading is lenient about blanks between the parts and about leading zeros, and cuts the fraction
after nine digits.
-/

namespace Capability.Instant

/-! ## Writing -/

/-- A number with zeros in front. -/
def padded (width n : Nat) : String :=
  let digits := Nat.toDigits 10 n
  String.ofList (List.replicate (width - digits.length) '0' ++ digits)

/-- A year: four digits, and a sign outside the years of four digits. -/
def yearText (year : Int) : String :=
  if year < 0 then "-" ++ padded 4 year.natAbs
  else if 9999 < year then "+" ++ padded 4 year.natAbs
  else padded 4 year.natAbs

/-- A fraction of a second in the fewest groups of three digits that hold it. -/
def fractionText (nanos : Nat) : String :=
  if nanos = 0 then ""
  else if nanos % 1000000 = 0 then "." ++ padded 3 (nanos / 1000000)
  else if nanos % 1000 = 0 then "." ++ padded 6 (nanos / 1000)
  else "." ++ padded 9 nanos

/-- The text of an instant. -/
def text (t : Instant) : String :=
  let date := t.date
  let leap := t.nanos / 1000000000
  yearText date.year ++ "-" ++ padded 2 date.month ++ "-" ++ padded 2 date.day ++ "T" ++
    padded 2 (t.secondOfDay / 3600) ++ ":" ++ padded 2 (t.secondOfDay / 60 % 60) ++ ":" ++
    padded 2 (t.secondOfDay % 60 + leap) ++ fractionText (t.nanos % 1000000000) ++ "Z"

/-! ## Reading -/

/-- What is read, and the characters after it. -/
abbrev Reading (α : Type) := Option (α × List Char)

/-- The characters after any blanks. -/
def skipBlanks (cs : List Char) : List Char :=
  cs.dropWhile Text.isBlank

/-- The number that digits denote. -/
def digitsValue (digits : List Char) : Nat :=
  digits.foldl (fun n c => 10 * n + (c.toNat - '0'.toNat)) 0

/-- A number of at least one digit and at most `width`. -/
def readDigits (width : Nat) (cs : List Char) : Reading Nat :=
  let digits := (cs.take width).takeWhile Char.isDigit
  if digits = [] then none else some (digitsValue digits, cs.drop digits.length)

/-- A number of one or two digits, after blanks. -/
def readNumber (cs : List Char) : Reading Nat :=
  readDigits 2 (skipBlanks cs)

/-- A year, after blanks: at most four digits, or a sign and any number of digits. -/
def readYear (cs : List Char) : Reading Int :=
  match skipBlanks cs with
  | '-' :: rest => (readDigits rest.length rest).map fun p => (-(p.1 : Int), p.2)
  | '+' :: rest => (readDigits rest.length rest).map fun p => ((p.1 : Int), p.2)
  | rest => (readDigits 4 rest).map fun p => ((p.1 : Int), p.2)

/-- The characters after a mark, with blanks before it. -/
def readMark (mark : Char) (cs : List Char) : Option (List Char) :=
  match skipBlanks cs with
  | c :: rest => if c = mark then some rest else none
  | [] => none

/-- The nanoseconds of a fraction, zero where no point follows. -/
def readFraction : List Char → Reading Nat
  | '.' :: cs =>
    let digits := (cs.take 9).takeWhile Char.isDigit
    if digits = [] then none
    else some (digitsValue digits * Nat.pow 10 (9 - digits.length), (cs.drop digits.length).dropWhile Char.isDigit)
  | cs => some (0, cs)

/-- The value of two digits of which the first is at most `most`. -/
def readPair (most : Char) : List Char → Reading Nat
  | a :: b :: rest =>
    if '0' ≤ a ∧ a ≤ most ∧ b.isDigit then some (digitsValue [a, b], rest) else none
  | _ => none

/-- The seconds of an offset from UTC, after its sign. -/
def readOffsetValue (cs : List Char) : Option (Int × List Char) := do
  let (hours, cs) ← readPair '9' cs
  let (minutes, cs) ← readPair '5' (cs.dropWhile fun c => c == ':' || Text.isBlank c)
  return (hours * 3600 + minutes * 60, cs)

/-- The seconds of an offset from UTC: `Z`, `UTC`, or a sign with hours and minutes. -/
def readOffset (cs : List Char) : Reading Int :=
  match skipBlanks cs with
  | 'Z' :: rest | 'z' :: rest => some (0, rest)
  | '+' :: rest => readOffsetValue rest
  | '-' :: rest | '−' :: rest => (readOffsetValue rest).map fun p => (-p.1, p.2)
  | u :: t :: c :: rest =>
    if (u = 'U' ∨ u = 'u') ∧ (t = 'T' ∨ t = 't') ∧ (c = 'C' ∨ c = 'c') then some (0, rest) else none
  | _ => none

/-- The years that dates are kept in. -/
def isYear (year : Int) : Bool :=
  -262143 ≤ year && year ≤ 262142

/-- The instant of a date and a time of day at an offset, if they exist. -/
def ofParts? (date : Date) (hour minute second nanos : Nat) (offset : Int) : Option Instant :=
  let leap := second = 60
  let inDay : Int := hour * 3600 + minute * 60 + (if leap then 59 else second)
  let t : Instant := ⟨date.toDays * 86400 + inDay - offset, nanos + if leap then 1000000000 else 0⟩
  if isYear date.year ∧ date.isValid ∧ hour < 24 ∧ minute < 60 ∧ second ≤ 60 ∧ offset.natAbs < 86400 ∧
      isYear t.date.year then some t
  else none

/-- The instant that a text denotes. -/
def ofText? (s : String) : Option Instant := do
  let (year, cs) ← readYear s.toList
  let (month, cs) ← readNumber (← readMark '-' cs)
  let (day, cs) ← readNumber (← readMark '-' cs)
  let c :: cs := cs | none
  if c ≠ 'T' ∧ c ≠ 't' ∧ c ≠ ' ' then none
  else
    let (hour, cs) ← readNumber cs
    let (minute, cs) ← readNumber (← readMark ':' cs)
    let (second, cs) ← readNumber (← readMark ':' cs)
    let (nanos, cs) ← readFraction cs
    let (offset, cs) ← readOffset cs
    if skipBlanks cs ≠ [] then none else ofParts? ⟨year, month, day⟩ hour minute second nanos offset

end Capability.Instant
