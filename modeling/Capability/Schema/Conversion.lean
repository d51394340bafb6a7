import Capability.Schema.Property

/-!
# Taking JSON for values of a type

`Property.convert` takes a JSON value for a value of a type, or says why it is none. Integers are accepted for numbers,
and doubles without a fractional part for integers. In an object, missing members get their default, and members
outside an open type are taken by themselves (`Value.ofJson?`).

The members that the type names are looked at first, in the order of their names, then the others.
-/

namespace Capability

/-! ## Faults -/

namespace Conversion

/-- The value is of another kind. -/
def mismatch (json : Json) (type : TypeName) : Fault :=
  .ofCommands .typeMismatch s!"Unable to convert value {json.text} into {type.text}"

/-- The value is not among the allowed ones. -/
def notAllowed (json : Json) (allowed : List Value) : Fault :=
  let list := ",".intercalate (allowed.map fun v => v.toJson.text)
  .ofCommands .invalidValue s!"Value {json.text} is invalid. Expected one of [{list}]"

/-- The type of the items is unknown. -/
def noItemType : Fault :=
  .ofCommands .noTypeInfo "Array item type is not specified"

/-- The value of a member is refused. -/
def invalidMember (name : String) (cause : Fault) : Fault :=
  cause.inCommands .invalidValue s!"Invalid value for property '{name}'"

/-- A required member is missing. -/
def missing (name : String) : Fault :=
  .ofCommands .propertyMissing s!"Required parameter missing: {name}"

/-- A closed type has no such member. -/
def unknownMember (name : String) : Fault :=
  .ofCommands .unknownProperty s!"Unrecognized parameter '{name}'"

/-- A member outside the type has a value that cannot be taken by itself. -/
def unsupported (name : String) (json : Json) : Fault :=
  .ofCommands .typeMismatch s!"Unsupported value for property '{name}': {json.text}"

/-! ## Parts of the conversion -/

/-- Refuses a value that is not among the allowed ones. -/
def checkAllowed (allowed : Option (Attribute (List Value))) (json : Json) (value : Value) : Except Fault Value :=
  match allowed with
  | none => .ok value
  | some ⟨list, _⟩ => if list.any (· == value) then .ok value else .error (notAllowed json list)

/-- The members outside the type, taken by themselves. -/
def otherMembers (known : List (String × Property)) (isOpen : Bool) :
    List (String × Json) → Except Fault (List (String × Value))
  | [] => .ok []
  | (name, json) :: rest =>
    if Fields.has known name then otherMembers known isOpen rest
    else if isOpen = false then .error (unknownMember name)
    else
      match Value.ofJson? json with
      | some value => do return (name, value) :: (← otherMembers known isOpen rest)
      | none => .error (unsupported name json)

end Conversion

open Conversion

/-! ## The conversion -/

mutual
/-- The value of the type that a JSON value stands for. -/
def Property.convert : Property → Json → Except Fault Value
  | ⟨shape, allowed, _, _, _⟩, json => do
    let value ←
      match shape with
      | .integer range =>
        match json.toInt64? with
        | some n => do range.check n; pure (Value.integer n)
        | none => .error (mismatch json (.plain .integer))
      | .number range =>
        match json.toDouble? with
        | some d => do range.check d; pure (Value.number d)
        | none => .error (mismatch json (.plain .number))
      | .boolean =>
        match json.toBool? with
        | some b => pure (Value.boolean b)
        | none => .error (mismatch json (.plain .boolean))
      | .string lengths =>
        match json.toString? with
        | some s => do Length.check lengths s; pure (Value.string s)
        | none => .error (mismatch json (.plain .string))
      | .object ⟨type, _⟩ => do pure (Value.object (← convertObject type json))
      | .array none =>
        match json with
        | .array _ => .error noItemType
        | _ => .error (mismatch json (.plain .array))
      | .array (some ⟨items, _⟩) =>
        match json with
        | .array list => do pure (Value.array (← list.mapM items.convert))
        | _ => .error (mismatch json (.arrayOf items.typeName))
    checkAllowed allowed json value
termination_by structural p => p

/-- The members that a JSON object stands for. -/
def convertObject : ObjectOf Property → Json → Except Fault (List (String × Value))
  | ⟨properties, isOpen⟩, json =>
    match json with
    | .object fields => do
      let declared ← convertMembers fields properties
      let others ← otherMembers properties isOpen fields
      return Fields.merge declared others
    | _ => .error (mismatch json (.plain .object))
termination_by structural o => o

/-- The members that a type names: given, by default, or left out. -/
def convertMembers (given : List (String × Json)) : List (String × Property) → Except Fault (List (String × Value))
  | [] => .ok []
  | (name, p) :: rest =>
    match Fields.get? given name, p.default with
    | some json, _ => do
      let value ← (p.convert json).mapError (invalidMember name)
      return (name, value) :: (← convertMembers given rest)
    | none, some ⟨value, _⟩ => do return (name, value) :: (← convertMembers given rest)
    | none, none => if p.required.value then .error (missing name) else convertMembers given rest
termination_by structural properties => properties
end

/-- The members that a JSON object stands for under an object type. -/
def ObjectType.convert (o : ObjectType) (json : Json) : Except Fault (Fields Value) :=
  convertObject o json

end Capability
