import Capability.Json.Tree

/-!
# Reading records

A record with fixed fields is written as an object, or as an array that has the fields in their order. Unknown fields of
an object are skipped, whatever their values are; a known field must not be given twice. This is decided on the text,
since a JSON value no longer shows a field that was given twice.
-/

namespace Capability.Json.Tree

/-- The names of fields, if all of them denote strings. -/
def namedFields? : List (Option String × Tree) → Option (List (String × Tree))
  | [] => some []
  | (name, tree) :: rest => do return (← name, tree) :: (← namedFields? rest)

/-- Whether some name occurs twice. -/
def hasDuplicate : List String → Bool
  | [] => false
  | name :: rest => rest.contains name || hasDuplicate rest

/-- The known fields of a record, each at most once. An array may end early, and must not be longer than the list of
names. -/
def toRecord? (names : List String) : Tree → Option (List (String × Tree))
  | .object fields => do
    let known := (← namedFields? fields).filter fun field => names.contains field.1
    if hasDuplicate (known.map (·.1)) then none else some known
  | .array items => if items.length ≤ names.length then some (names.zip items) else none
  | _ => none

/-- An unsigned 64-bit integer. -/
def toUInt64? : Tree → Option Nat
  | .number (some (.integer n)) => if 0 ≤ n then some n.toNat else none
  | _ => none

/-- The text of a string. -/
def toText? : Tree → Option String
  | .string s => s
  | _ => none

end Capability.Json.Tree
