import Capability.Json.Basic

/-!
# Kinds of values

Every property, and every value of one, has one of six kinds.
-/

namespace Capability

/-- The kind of a property and of its values. -/
inductive Kind where
  /-- Signed 64-bit integers. -/
  | integer
  /-- Doubles. -/
  | number
  | boolean
  | string
  /-- Named members, each of a type of its own. -/
  | object
  /-- Items of one type. -/
  | array
  deriving DecidableEq, Repr

namespace Kind

/-- The name of a kind in definitions. -/
def text : Kind → String
  | .integer => "integer"
  | .number => "number"
  | .boolean => "boolean"
  | .string => "string"
  | .object => "object"
  | .array => "array"

/-- Every kind once. -/
def all : List Kind := [.integer, .number, .boolean, .string, .object, .array]

/-- The kind with a name. -/
def ofText? (s : String) : Option Kind :=
  all.find? fun k => k.text == s

/-- The kind that a JSON value has by itself. Numbers written as doubles are numbers, all others integers; a null has
no kind. -/
def ofJson? : Json → Option Kind
  | .null => none
  | .bool _ => some .boolean
  | .number (.integer _) => some .integer
  | .number (.double _) => some .number
  | .string _ => some .string
  | .array _ => some .array
  | .object _ => some .object

@[simp] theorem ofText?_text (k : Kind) : ofText? k.text = some k := by
  cases k <;> rfl

theorem ofText?_eq_some_iff {s : String} {k : Kind} : ofText? s = some k ↔ s = k.text := by
  constructor
  · intro h
    have hk := List.find?_some h
    exact (beq_iff_eq.1 hk).symm
  · rintro rfl
    exact ofText?_text k

end Kind

end Capability
