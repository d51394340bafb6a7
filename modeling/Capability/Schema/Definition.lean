import Capability.Schema.Conversion
import Capability.Schema.Inference

/-!
# Reading definitions

A definition is the name of a type, a bare list of allowed values, or an object of attributes. `Property.ofJson` reads
it, over a base if there is one: the result starts as the base and keeps its type, and each attribute of the definition
replaces that of the base.

Attributes are read in the order of their keys. The limits are checked once all are read, then the allowed values, then
the default, each against what was read before.
-/

namespace Capability

/-! ## Faults -/

namespace Definition

/-- The definition names another type than its base has. -/
def typeChanged (base new : TypeName) : Fault :=
  .ofCommands .typeChanged s!"Redefining a property of type {base.text} as {new.text}"

/-- The attribute is not a truth value. -/
def notBool (key : String) (json : Json) : Fault :=
  .ofCommands .typeMismatch s!"Expected a boolean for '{key}', got {json.text}"

/-- The attribute is not an object. -/
def notObject (key : String) (json : Json) : Fault :=
  .ofCommands .typeMismatch s!"Expected an object for '{key}', got {json.text}"

/-- The type does not have this attribute. -/
def unexpected (key : String) (type : TypeName) : Fault :=
  .ofCommands .unexpectedAttribute s!"Unexpected property '{key}' in a {type.text} definition"

/-- The list of allowed values is not an array. -/
def allowedNotArray (json : Json) : Fault :=
  .ofCommands .typeMismatch s!"Expected an array for 'enum', got {json.text}"

/-- No value would be allowed. -/
def allowedEmpty : Fault :=
  .ofCommands .invalidValue "The list of allowed values must not be empty"

/-- A value that the definition itself gives is refused. -/
def invalidOwnValue (key : String) (cause : Fault) : Fault :=
  cause.inCommands .invalidValue s!"Invalid parameter value for '{key}'"

/-- The type of the items does not show. -/
def noItemType : Fault :=
  .ofCommands .noTypeInfo "Unable to determine the item type of an array"

/-- The type of a bare list of values does not show. -/
def noAllowedType : Fault :=
  .ofCommands .noTypeInfo "Unable to determine the type of the enum values"

/-- The type does not show. -/
def noType : Fault :=
  .ofCommands .noTypeInfo "Unable to determine parameter type"

/-- The type is not named by a string. -/
def typeNotString (json : Json) : Fault :=
  .ofCommands .typeMismatch s!"Expected a type name string, got {json.text}"

/-- The definition of a member is refused. -/
def invalidMember (name : String) (cause : Fault) : Fault :=
  cause.inCommands .invalidDefinition s!"Error in definition of property '{name}'"

/-- What kind of JSON value stands in the place of a definition. -/
def kindOfJson : Json → String
  | .null => "Null"
  | .bool _ => "Boolean"
  | .number (.integer _) => "Integer"
  | .number (.double _) => "Double"
  | .string _ => "String"
  | .array _ => "List"
  | .object _ => "Dictionary"

/-- The value is no definition. -/
def notDefinition (json : Json) : Fault :=
  .ofCommands .unknownType s!"Unexpected JSON value type: {kindOfJson json}"

end Definition

open Definition

/-! ## Resting on a base -/

/-- The type over a base: everything is taken over, and the types must agree. For arrays, a named type of the items
must be that of the base. -/
def Property.over (new base : Property) : Except Fault Property :=
  if base.kind ≠ new.kind then .error (typeChanged base.typeName new.typeName)
  else
    let taken : Property :=
      ⟨base.shape.inherit, base.allowed.map .inherit, base.default.map .inherit, base.required.inherit, true⟩
    match new.items?, base.items? with
    | some items, some baseItems =>
      if items.typeName ≠ baseItems.typeName then .error (typeChanged base.typeName new.typeName) else .ok taken
    | some _, none => .ok { taken with shape := new.shape }
    | none, _ => .ok taken

/-! ## Definitions under way -/

/-- A definition while its attributes are read. What depends on all other attributes is set aside. -/
structure Draft where
  property : Property
  allowed : Option Json := none
  default : Option Json := none
  isOpen : Option Bool := none

namespace Draft

/-- The definition of a type before any attribute is read. -/
def start (name : TypeName) (base : Option Property) : Except Fault Draft :=
  match base with
  | none => .ok { property := .ofTypeName name }
  | some base => do return { property := ← (Property.ofTypeName name).over base }

/-- The definition with another shape. -/
def setShape (d : Draft) (shape : Shape Property) : Draft :=
  { d with property := { d.property with shape := shape } }

/-- Reads an attribute that holds no definitions. -/
def readAttribute (d : Draft) (key : String) (json : Json) : Except Fault Draft :=
  match key with
  | "type" => .ok d
  | "enum" => .ok { d with allowed := some json }
  | "default" => .ok { d with default := some json }
  | "required" | "isRequired" =>
    match json.toBool? with
    | some b => .ok { d with property := d.property.setRequired b }
    | none => .error (notBool key json)
  | _ =>
    match d.property.shape, key with
    | .integer range, "minimum" => do return d.setShape (.integer (range.setLower (← Bounds.readLimit key json)))
    | .integer range, "maximum" => do return d.setShape (.integer (range.setUpper (← Bounds.readLimit key json)))
    | .number range, "minimum" => do return d.setShape (.number (range.setLower (← Bounds.readLimit key json)))
    | .number range, "maximum" => do return d.setShape (.number (range.setUpper (← Bounds.readLimit key json)))
    | .string lengths, "minLength" => do return d.setShape (.string (lengths.setLower (← Length.ofJson key json)))
    | .string lengths, "maxLength" => do return d.setShape (.string (lengths.setUpper (← Length.ofJson key json)))
    | .object _, "additionalProperties" =>
      match json.toBool? with
      | some b => .ok { d with isOpen := some b }
      | none => .error (notBool key json)
    | .object _, "properties" => .error (notObject key json)
    | _, _ => .error (unexpected key d.property.typeName)

/-- Opens or closes an object type, where the definition says so. -/
def settleOpen (d : Draft) : Property :=
  match d.isOpen, d.property.shape with
  | some isOpen, .object ⟨type, _⟩ => { d.property with shape := .object (.own (ObjectType.setOpen type isOpen)) }
  | _, _ => d.property

end Draft

/-- Refuses limits that no value meets, and arrays without a type of items. -/
def Property.checkShape (p : Property) : Except Fault Unit :=
  match p.shape with
  | .integer range => range.checkLimits
  | .number range => range.checkLimits
  | .string lengths => Length.checkLimits lengths
  | .array none => .error noItemType
  | .boolean | .object _ | .array (some _) => .ok ()

/-- Reads the allowed values, which replace those of the base. -/
def Property.readAllowed (p : Property) : Option Json → Except Fault Property
  | none => .ok p
  | some (.array []) => .error allowedEmpty
  | some (.array list) => do
    let values ← (list.mapM { p with allowed := none }.convert).mapError (invalidOwnValue "enum")
    return { p with allowed := some (.own values) }
  | some json => .error (allowedNotArray json)

/-- Reads the default. -/
def Property.readDefault (p : Property) : Option Json → Except Fault Property
  | none => .ok p
  | some json => do
    let value ← (p.convert json).mapError (invalidOwnValue "default")
    return { p with default := some (.own value) }

/-- The definition once all attributes are read. -/
def Draft.finish (d : Draft) : Except Fault Property := do
  let p := d.settleOpen
  p.checkShape
  let p ← p.readAllowed d.allowed
  p.readDefault d.default

/-- The type of a definition with attributes: the one it names, or the one that shows. -/
def Definition.typeOf (base : Option Property) (fields : Fields Json) : Except Fault TypeName :=
  match fields.get? "type" with
  | some (.string name) => TypeName.ofText name
  | some json => .error (typeNotString json)
  | none =>
    match Inference.ofFields? base fields with
    | some name => .ok name
    | none => .error noType

/-! ## Reading -/

mutual
/-- The type that a definition gives, over a base if there is one. -/
def Property.ofJson (base : Option Property) : Json → Except Fault Property
  | .string name => do (← Draft.start (← TypeName.ofText name) base).finish
  | .array values =>
    match Inference.ofAllowed? base values with
    | some name => do
      let d ← Draft.start name base
      { d with allowed := some (.array values) }.finish
    | none => .error noAllowedType
  | .object fields => do
    let d ← Draft.start (← Definition.typeOf base fields) base
    (← Draft.readAll base d fields).finish
  | json => .error (notDefinition json)
termination_by structural json => json

/-- Reads the attributes of a definition in order. -/
def Draft.readAll (base : Option Property) (d : Draft) : List (String × Json) → Except Fault Draft
  | [] => .ok d
  | (key, json) :: rest => do
    let d ←
      match d.property.shape, key, json with
      | .array _, "items", json => do
        let items ← Property.ofJson (base.bind Property.items?) json
        pure (d.setShape (.array (some (.own items))))
      | .object _, "properties", .object fields => do
        let type := base.bind Property.object?
        let properties ← ObjectType.ofMembers type fields
        pure (d.setShape (.object (.own ⟨properties, type.any (·.isOpen)⟩)))
      | _, _, json => d.readAttribute key json
    Draft.readAll base d rest
termination_by structural fields => fields

/-- The types of the members that a list of definitions gives, each over the member of that name in the base. -/
def ObjectType.ofMembers (base : Option ObjectType) : List (String × Json) → Except Fault (List (String × Property))
  | [] => .ok []
  | (name, json) :: rest => do
    let p ← (Property.ofJson (base.bind (·.get? name)) json).mapError (invalidMember name)
    return (name, p) :: (← ObjectType.ofMembers base rest)
termination_by structural fields => fields
end

/-- The object type that a list of definitions gives. It is open if its base is; members of the base that are not
mentioned are left out. -/
def ObjectType.ofFields (base : Option ObjectType) (fields : Fields Json) : Except Fault ObjectType := do
  return ⟨← ObjectType.ofMembers base fields, base.any (·.isOpen)⟩

end Capability
