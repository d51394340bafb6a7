import Capability.Fault
import Capability.Json.Text
import Capability.Schema.Attribute
import Capability.Schema.Kind

/-!
# Bounds

A definition may limit the value of numbers (`minimum`, `maximum`) and the length of strings (`minLength`,
`maxLength`). Both limits belong to what they allow.

* `violation?_eq_none_iff`: nothing is violated exactly when no limit is passed on either side.
-/

namespace Capability

/-- A lower and an upper limit, each of which may be missing. -/
structure Bounds (α : Type) where
  lower : Option (Attribute α)
  upper : Option (Attribute α)
  deriving DecidableEq

/-- The limit that a value passes. -/
inductive Bounds.Violation (α : Type) where
  | below (limit : α)
  | above (limit : α)

namespace Bounds

variable {α β : Type}

/-- No limits. -/
def unlimited : Bounds α := ⟨none, none⟩

/-- The least value that the bounds allow. -/
def least? (b : Bounds α) : Option α :=
  b.lower.map (·.value)

/-- The greatest value that the bounds allow. -/
def greatest? (b : Bounds α) : Option α :=
  b.upper.map (·.value)

/-- The bounds as a derived definition takes them over. -/
def inherit (b : Bounds α) : Bounds α :=
  ⟨b.lower.map Attribute.inherit, b.upper.map Attribute.inherit⟩

/-- The bounds with the limits seen through a function. -/
def map (f : α → β) (b : Bounds α) : Bounds β :=
  ⟨b.lower.map (Attribute.map f), b.upper.map (Attribute.map f)⟩

/-- Whether the definition gives a limit itself. -/
def hasOwn (b : Bounds α) : Bool :=
  Attribute.isOwn b.lower || Attribute.isOwn b.upper

/-- The bounds with a lower limit of the definition's own. -/
def setLower (b : Bounds α) (limit : α) : Bounds α :=
  { b with lower := some (.own limit) }

/-- The bounds with an upper limit of the definition's own. -/
def setUpper (b : Bounds α) (limit : α) : Bounds α :=
  { b with upper := some (.own limit) }

/-- Whether two bounds have the same limits. -/
def same [BEq α] (a b : Bounds α) : Bool :=
  Attribute.same? (· == ·) a.lower b.lower && Attribute.same? (· == ·) a.upper b.upper

section Order

variable [LT α] [DecidableLT α]

/-- The limits, if no value lies between them. -/
def crossed? (b : Bounds α) : Option (α × α) :=
  match b.least?, b.greatest? with
  | some low, some high => if high < low then some (low, high) else none
  | _, _ => none

/-- The limit that a value passes; the lower one is looked at first. -/
def violation? (b : Bounds α) (x : α) : Option (Violation α) :=
  ((b.least?.filter fun low => x < low).map .below).or ((b.greatest?.filter fun high => high < x).map .above)

theorem violation?_eq_none_iff {b : Bounds α} {x : α} :
    b.violation? x = none ↔ (∀ low, b.least? = some low → ¬x < low) ∧ ∀ high, b.greatest? = some high → ¬high < x := by
  unfold violation?
  cases b.least? <;> cases b.greatest? <;> simp

end Order

end Bounds

/-! ## Ranges of numbers -/

/-- The numbers of a kind: how they are read from JSON and how they appear there and in messages. -/
class Numeral (α : Type) where
  kind : Kind
  ofJson? : Json → Option α
  toJson : α → Json
  text : α → String

/-- Doubles in messages are positional, without a mark on whole numbers. -/
def Double.plainLayout : Double.Layout where
  tie := .up
  positional _ := true
  wholeMark := ""

instance : Numeral Int64 where
  kind := .integer
  ofJson? := Json.toInt64?
  toJson n := .integer n.toInt
  text n := toString n.toInt

instance : Numeral Double where
  kind := .number
  ofJson? := Json.toDouble?
  toJson d := .double d
  text d := d.text Double.plainLayout

namespace Bounds

variable {α : Type} [LT α] [DecidableLT α] [Numeral α]

/-- Refuses a range without values. -/
def checkLimits (b : Bounds α) : Except Fault Unit :=
  match b.crossed? with
  | none => .ok ()
  | some (low, high) =>
    .error (.ofCommands .invalidValue
      s!"Invalid range: minimum {Numeral.text low} is greater than maximum {Numeral.text high}")

/-- Refuses a number outside the range. -/
def check (b : Bounds α) (x : α) : Except Fault Unit :=
  match b.violation? x with
  | none => .ok ()
  | some (.below low) =>
    .error (.ofCommands .outOfRange
      s!"Value {Numeral.text x} is out of range. It must not be less than {Numeral.text low}")
  | some (.above high) =>
    .error (.ofCommands .outOfRange
      s!"Value {Numeral.text x} is out of range. It must not be greater than {Numeral.text high}")

/-- The limit that a definition gives under a key. -/
def readLimit (key : String) (json : Json) : Except Fault α :=
  match Numeral.ofJson? json with
  | some limit => .ok limit
  | none =>
    .error (.ofCommands .typeMismatch
      s!"Unable to convert value {json.text} into {(Numeral.kind α).text} for '{key}'")

end Bounds

/-! ## Lengths of strings -/

/-- A limit on a length: an integer of 64 bits that is not negative. -/
abbrev Length := Fin (Nat.pow 2 63)

namespace Length

/-- The length that an integer is, if it is not negative. -/
def ofInt64? (n : Int64) : Option Length :=
  if h : 0 ≤ n.toInt then some ⟨n.toInt.toNat, (Int.toNat_lt h).2 n.toInt_lt⟩ else none

/-- The length that a definition gives under a key. -/
def ofJson (key : String) (json : Json) : Except Fault Length :=
  match json.toInt64? with
  | none =>
    .error (.ofCommands .typeMismatch s!"Unable to convert value {json.text} into integer for '{key}'")
  | some n =>
    match ofInt64? n with
    | some length => .ok length
    | none => .error (.ofCommands .invalidValue s!"'{key}' must not be negative, got {n.toInt}")

/-- The JSON form of a length. -/
def toJson (length : Length) : Json :=
  .integer length.val

/-- Refuses limits that no length meets. -/
def checkLimits (b : Bounds Length) : Except Fault Unit :=
  match b.crossed? with
  | none => .ok ()
  | some (low, high) =>
    .error (.ofCommands .invalidValue
      s!"Invalid length range: minLength {low.val} is greater than maxLength {high.val}")

/-- Refuses a string with fewer or more characters than the limits allow. -/
def check (b : Bounds Length) (s : String) : Except Fault Unit :=
  match (b.map Fin.val).violation? s.length with
  | none => .ok ()
  | some (.below low) =>
    .error (.ofCommands .outOfRange s!"String '{s}' is too short. Expected at least {low} characters")
  | some (.above high) =>
    .error (.ofCommands .outOfRange s!"String '{s}' is too long. Expected at most {high} characters")

end Length

end Capability
