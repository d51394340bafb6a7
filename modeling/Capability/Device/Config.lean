import Capability.Json.Record

/-!
# Configurations of devices

A configuration says how many changes and events a device keeps, and gives the trees that it starts with. All of it may
be left out. A tree that is left out differs from the tree `null`: the first is not loaded, the second is refused.
-/

namespace Capability

/-- How a device is set up. -/
structure Config where
  /-- How many changes of the state are kept. -/
  changeCapacity : Nat := 100
  /-- How many events are kept for each listener. -/
  eventCapacity : Nat := 256
  /-- The base commands. -/
  commands : Option Json := none
  /-- The definitions of the base state. -/
  state : Option Json := none
  /-- The first values of the base state. -/
  values : Option Json := none

namespace Config

/-- A part of a configuration with what it is set to. -/
inductive Setting where
  | changeCapacity (n : UInt64)
  | eventCapacity (n : UInt64)
  | commands (json : Json)
  | state (json : Json)
  | values (json : Json)

/-- The configuration with one part set. A tree that is set is no longer left out, even if it is null. -/
def set (c : Config) : Setting → Config
  | .changeCapacity n => { c with changeCapacity := n.toNat }
  | .eventCapacity n => { c with eventCapacity := n.toNat }
  | .commands json => { c with commands := some json }
  | .state json => { c with state := some json }
  | .values json => { c with values := some json }

/-- Whether this is the configuration with nothing given. -/
def isDefault (c : Config) : Bool :=
  c.changeCapacity == 100 && c.eventCapacity == 256 && c.commands.isNone && c.state.isNone && c.values.isNone

/-- The keys of a configuration, in the order in which an array gives its fields. -/
def keys : List String :=
  ["state_queue_capacity", "event_capacity", "base_commands", "base_state", "base_state_defaults"]

/-- What stands under each key, in the order of the names. -/
def entries (c : Config) : List (String × Option Json) :=
  [("base_commands", c.commands), ("base_state", c.state), ("base_state_defaults", c.values),
    ("event_capacity", some (.integer c.eventCapacity)), ("state_queue_capacity", some (.integer c.changeCapacity))]

/-- The fields of a configuration, in the order of their names. Trees that are left out are not among them. -/
def fields (c : Config) : Fields Json :=
  Fields.present c.entries

/-- The JSON form of a configuration. -/
def toJson (c : Config) : Json :=
  .object c.fields

/-- A capacity, which has a default. -/
def capacity? (default : Nat) : Option Json.Tree → Option Nat
  | none => some default
  | some tree => tree.toUInt64?

/-- A tree, which a null leaves out. It lies one level down. -/
def tree? : Option Json.Tree → Option (Option Json)
  | none => some none
  | some .null => some none
  | some tree => (tree.toJson? (Json.Tree.maxLevels - 1)).map some

/-- The configuration that a tree denotes. -/
def ofTree? (tree : Json.Tree) : Option Config := do
  let fields ← tree.toRecord? keys
  return {
    changeCapacity := ← capacity? 100 (fields.lookup "state_queue_capacity")
    eventCapacity := ← capacity? 256 (fields.lookup "event_capacity")
    commands := ← tree? (fields.lookup "base_commands")
    state := ← tree? (fields.lookup "base_state")
    values := ← tree? (fields.lookup "base_state_defaults") }

/-- The configuration that a text denotes. -/
def read (s : String) : Except Fault Config :=
  match (Json.Tree.ofText? s).bind ofTree? with
  | some c => .ok c
  | none => .error Json.malformed

end Config

end Capability
