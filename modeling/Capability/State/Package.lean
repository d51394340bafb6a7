import Capability.Schema.Definition
import Capability.Schema.Writing

/-!
# Packages of state

A package is a named group of state properties. Every declared property has a value at all times: first its initial
value, then whatever value of its type is stored. Properties are declared once and for all.
-/

namespace Capability

/-- A group of state properties with their types and values. -/
structure Package where
  name : String
  type : ObjectType
  values : Fields Value

namespace Package

/-- The package without properties. -/
def empty (name : String) : Package := ⟨name, .empty, []⟩

/-- A property is declared already. -/
def redefined (package property : String) : Fault :=
  .ofState .propertyRedefined s!"State property '{package}.{property}' is already defined"

/-- A property is not declared. -/
def undefined (package property : String) : Fault :=
  .ofState .propertyNotDefined s!"State property '{package}.{property}' is not defined"

/-- The value of a property. -/
def get? (p : Package) (name : String) : Option Value :=
  p.values.get? name

/-- Adds properties with their initial values. -/
def extend (p : Package) (properties : Fields Property) : Package :=
  { p with
    type := { p.type with properties := Fields.merge p.type.members properties }
    values := p.values.merge (Property.initialMembers properties) }

/-- Declares properties. Nothing is declared if a definition is refused or a property is declared already. -/
def declare (p : Package) (definitions : Fields Json) : Except Fault Package := do
  let type ← ObjectType.ofFields none definitions
  match type.members.find? fun member => (p.type.get? member.1).isSome with
  | some (name, _) => .error (redefined p.name name)
  | none => return p.extend type.members

/-- The value that a JSON value stands for as a value of a property. -/
def check (p : Package) (name : String) (json : Json) : Except Fault Value :=
  match p.type.get? name with
  | some type => type.convert json
  | none => .error (undefined p.name name)

/-- Stores a value. -/
def store (p : Package) (name : String) (value : Value) : Package :=
  { p with values := p.values.put name value }

/-- Stores the value that a JSON value stands for, and answers it. -/
def set (p : Package) (name : String) (json : Json) : Except Fault (Package × Value) := do
  let value ← p.check name json
  return (p.store name value, value)

/-- The values that JSON values stand for, by the names of their properties. -/
def checkAll (p : Package) : List (String × Json) → Except Fault (List (String × Value))
  | [] => .ok []
  | (name, json) :: rest => do return (name, ← p.check name json) :: (← p.checkAll rest)

/-- Stores several values. -/
def storeAll (p : Package) (values : List (String × Value)) : Package :=
  { p with values := p.values.merge values }

/-- Stores the values that JSON values stand for. Nothing is stored if one of them is refused. -/
def setAll (p : Package) (given : Fields Json) : Except Fault Package := do
  return p.storeAll (← p.checkAll given)

/-- The values of all properties. -/
def toJson (p : Package) : Json :=
  .object (Value.membersToJson p.values)

/-- The definitions of all properties. -/
def definitions (form : Form) (p : Package) : Json :=
  p.type.toJson form

end Package

end Capability
