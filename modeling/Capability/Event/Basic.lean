import Capability.Json.Record

/-!
# Events

A device tells its listeners what was accepted: definitions of a category, an update of the state under its number, or
the acknowledgement of one by the server.
-/

namespace Capability

/-- What a device reports. -/
inductive Event where
  | commandsChanged (category : String)
  | stateDefined (category : String)
  | stateChanged (id : Nat)
  | stateAcknowledged (id : Nat)
  deriving DecidableEq, Repr

namespace Event

/-- The tag of an event. -/
def tag : Event → String
  | .commandsChanged _ => "command_definitions_changed"
  | .stateDefined _ => "state_definitions_changed"
  | .stateChanged _ => "state_changed"
  | .stateAcknowledged _ => "state_updated_on_server"

/-- The category of an event about definitions. -/
def category? : Event → Option String
  | .commandsChanged category | .stateDefined category => some category
  | .stateChanged _ | .stateAcknowledged _ => none

/-- The number of the change of an event about values. -/
def id? : Event → Option Nat
  | .stateChanged id | .stateAcknowledged id => some id
  | .commandsChanged _ | .stateDefined _ => none

/-- Whether the event is about the state. -/
def isState : Event → Bool
  | .commandsChanged _ => false
  | .stateDefined _ | .stateChanged _ | .stateAcknowledged _ => true

/-- The JSON form of an event. -/
def toJson (e : Event) : Json :=
  .object <|
    (e.category?.map fun c => ("category", .string c)).toList ++ [("event", .string e.tag)] ++
      (e.id?.map fun id => ("update_id", .integer id)).toList

/-- The event with a tag, whose content is looked up by its key. -/
def ofTag? (content : String → Option Json.Tree) : String → Option Event
  | "command_definitions_changed" => do return .commandsChanged (← (← content "category").toText?)
  | "state_definitions_changed" => do return .stateDefined (← (← content "category").toText?)
  | "state_changed" => do return .stateChanged (← (← content "update_id").toUInt64?)
  | "state_updated_on_server" => do return .stateAcknowledged (← (← content "update_id").toUInt64?)
  | _ => none

/-- The only value of a field, if it is given exactly once. -/
def only? (fields : List (String × Json.Tree)) (name : String) : Option Json.Tree :=
  match fields.filter fun field => field.1 == name with
  | [(_, tree)] => some tree
  | _ => none

/-- The event that a tree denotes: an object with a tag and the content, or an array of both. The whole tree must denote
a value, with fields that the event does not have as well. -/
def ofTree? (tree : Json.Tree) : Option Event := do
  let _ ← tree.toJson? Json.Tree.maxLevels
  match tree with
  | .object fields =>
    let fields ← Json.Tree.namedFields? fields
    ofTag? (only? fields) (← (← only? fields "event").toText?)
  | .array [tag, content] => ofTag? (fun _ => some content) (← tag.toText?)
  | _ => none

/-- The event that a text denotes. -/
def read (s : String) : Except Fault Event :=
  match (Json.Tree.ofText? s).bind ofTree? with
  | some e => .ok e
  | none => .error Json.malformed

end Event

end Capability
