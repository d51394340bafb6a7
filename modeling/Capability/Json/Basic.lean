import Capability.Double.Layout
import Capability.Fields

/-!
# JSON values

Objects are fields in ascending order of their names, each name once (`Json.Sorted` says so at every depth), and
numbers keep apart integers and doubles: `1` and `1.0` are different values.
-/

namespace Capability

/-- A JSON number: an exact integer, or a double where the text has a fraction, an exponent or too many digits. -/
inductive Json.Number where
  | integer (n : Int)
  | double (d : Double)
  deriving DecidableEq

/-- A JSON value. -/
inductive Json where
  | null
  | bool (b : Bool)
  | number (n : Json.Number)
  | string (s : String)
  | array (items : List Json)
  | object (fields : List (String × Json))

namespace Json

/-- The JSON integer. -/
abbrev integer (n : Int) : Json := .number (.integer n)

/-- The JSON double. -/
abbrev double (d : Double) : Json := .number (.double d)

instance : Inhabited Json := ⟨.null⟩

/-! ## Readings -/

/-- The nearest double. -/
def Number.toDouble : Number → Double
  | .integer n => Double.ofInt n
  | .double d => d

/-- The number as a signed 64-bit integer, if it is exactly one. An unsigned integer that is too great for that is
looked at as a double, like a number with a point; JSON has no integers below the signed range. -/
def Number.toInt64? : Number → Option Int64
  | .integer n =>
    if Int64.minValue.toInt ≤ n ∧ n ≤ Int64.maxValue.toInt then some (Int64.ofInt n)
    else if 0 ≤ n then (Double.ofInt n).toInt64?
    else none
  | .double d => d.toInt64?

/-- The number as a double. -/
def toDouble? : Json → Option Double
  | .number n => some n.toDouble
  | _ => none

/-- The number as a signed 64-bit integer, if it is exactly one. -/
def toInt64? : Json → Option Int64
  | .number n => n.toInt64?
  | _ => none

/-- The truth value. -/
def toBool? : Json → Option Bool
  | .bool b => some b
  | _ => none

/-- The text of a string. -/
def toString? : Json → Option String
  | .string s => some s
  | _ => none

/-- The fields of an object. -/
def toFields? : Json → Option (Fields Json)
  | .object fields => some fields
  | _ => none

/-- Whether the value is a number that is written as a double. -/
def isDouble : Json → Bool
  | .number (.double _) => true
  | _ => false

/-- An integer within the signed 64-bit range is read as itself. -/
@[simp] theorem toInt64?_integer (n : Int64) : (Json.integer n.toInt).toInt64? = some n := by
  rw [toInt64?, Number.toInt64?, if_pos ⟨n.minValue_le_toInt, n.toInt_le⟩, Int64.ofInt_toInt]

/-! ## Order of names -/

mutual
/-- The names are in order in every object of the value. -/
def Sorted : Json → Prop
  | .array items => SortedItems items
  | .object fields => Fields.Sorted fields ∧ SortedFields fields
  | .null | .bool _ | .number _ | .string _ => True

/-- The names are in order in every object of the items. -/
def SortedItems : List Json → Prop
  | [] => True
  | item :: items => item.Sorted ∧ SortedItems items

/-- The names are in order in every object of the values. -/
def SortedFields : List (String × Json) → Prop
  | [] => True
  | (_, value) :: fields => value.Sorted ∧ SortedFields fields
end

end Json

end Capability
