import Capability.Json.Record
import Capability.Time.Text

/-!
# Records of changes

A change lists the new values of properties by their qualified names, with the time of the update and a number that
identifies it.
-/

namespace Capability

/-- A recorded change of the state. -/
structure Change where
  id : Nat
  time : Instant
  properties : Fields Json

namespace Change

/-- The change that stands for an older and this one: newer values count, and number and time are those of this one. -/
def absorb (newer older : Change) : Change :=
  { newer with properties := older.properties.merge newer.properties }

/-- The JSON form of a change, with a text for its time. -/
def toJsonAt (time : String) (c : Change) : Json :=
  .object [("changed_properties", .object c.properties), ("id", .integer c.id), ("timestamp", .string time)]

/-- The JSON form of a change. -/
def toJson (c : Change) : Json :=
  c.toJsonAt c.time.text

/-- The change that a tree denotes. The values inside it lie two levels down. -/
def ofTree? (tree : Json.Tree) : Option Change := do
  let fields ← tree.toRecord? ["id", "timestamp", "changed_properties"]
  let id ← (← fields.lookup "id").toUInt64?
  let time ← Instant.ofText? (← (← fields.lookup "timestamp").toText?)
  let properties ← (← fields.lookup "changed_properties").toJson? (Json.Tree.maxLevels - 1)
  return ⟨id, time, ← properties.toFields?⟩

/-- The change that a text denotes. -/
def read (s : String) : Except Fault Change :=
  match (Json.Tree.ofText? s).bind ofTree? with
  | some c => .ok c
  | none => .error Json.malformed

end Change

end Capability
