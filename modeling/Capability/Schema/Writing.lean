import Capability.Schema.Inference

/-!
# Writing definitions

The full form of a definition lists its type and every attribute. The minimal form lists only what the definition gave
itself, and is shorter still where nothing or only the allowed values are left: `{}` over a base, the name of the type,
or the bare list of values. It names the type only where the other attributes do not show it.
-/

namespace Capability

/-! ## Attributes in order -/

/-- The attributes of a written definition. -/
structure Outline where
  isOpen : Option Json := none
  default : Option Json := none
  allowed : Option Json := none
  items : Option Json := none
  maxLength : Option Json := none
  maximum : Option Json := none
  minLength : Option Json := none
  minimum : Option Json := none
  properties : Option Json := none
  required : Option Json := none
  type : Option Json := none

/-- The attributes that are there, in the order of their keys. -/
def Outline.fields (o : Outline) : Fields Json :=
  [("additionalProperties", o.isOpen), ("default", o.default), ("enum", o.allowed), ("items", o.items),
    ("maxLength", o.maxLength), ("maximum", o.maximum), ("minLength", o.minLength), ("minimum", o.minimum),
    ("properties", o.properties), ("required", o.required), ("type", o.type)].filterMap
    fun entry => entry.2.map fun json => (entry.1, json)

/-- The JSON form of an optional attribute, where it is written. -/
def Attribute.entry {α : Type} (form : Form) (toJson : α → Json) (a? : Option (Attribute α)) : Option Json :=
  (a?.bind (Attribute.written? form)).map toJson

/-- The limits of a shape, its nested types being written already. -/
def Shape.outline (form : Form) : Shape Json → Outline
  | .integer range =>
    { minimum := Attribute.entry form Numeral.toJson range.lower
      maximum := Attribute.entry form Numeral.toJson range.upper }
  | .number range =>
    { minimum := Attribute.entry form Numeral.toJson range.lower
      maximum := Attribute.entry form Numeral.toJson range.upper }
  | .boolean => {}
  | .string lengths =>
    { minLength := Attribute.entry form Length.toJson lengths.lower
      maxLength := Attribute.entry form Length.toJson lengths.upper }
  | .object type =>
    { properties := (type.written? form).map fun o => .object o.properties
      isOpen := (type.written? form).bind fun o => if o.isOpen then some (.bool true) else none }
  | .array items => { items := Attribute.entry form id items }

/-! ## Whole definitions -/

namespace Property

/-- The JSON form of a list of allowed values. -/
def allowedToJson (values : List Value) : Json :=
  .array (values.map Value.toJson)

/-- The attributes of a definition without its type, the shape being written already. -/
def outline (form : Form) (p : Property) (shape : Shape Json) : Outline :=
  { shape.outline form with
    allowed := Attribute.entry form allowedToJson p.allowed
    default := Attribute.entry form Value.toJson p.default
    required :=
      match form with
      | .full => if p.required.value then some (.bool true) else none
      | .minimal => if p.required.inherited then none else some (.bool p.required.value) }

/-- The definition in a form, the shape being written already. -/
def write (form : Form) (p : Property) (name : TypeName) (shape : Shape Json) : Json :=
  let outline := p.outline form shape
  let named := Json.object { outline with type := some (.string p.kind.text) }.fields
  match form with
  | .full => named
  | .minimal =>
    if !p.hasOwn then if p.derived then .object [] else .string name.text
    else if p.hasOwnAllowedOnly then allowedToJson (p.allowed?.getD [])
    else if p.derived || (Inference.ofFields? none outline.fields).map (·.kind) == some p.kind then
      .object outline.fields
    else named

mutual
/-- The JSON form of a definition. -/
def toJson (form : Form) : Property → Json
  | ⟨shape, allowed, default, required, derived⟩ =>
    let p : Property := ⟨shape, allowed, default, required, derived⟩
    let written : Shape Json :=
      match shape with
      | .integer range => .integer range
      | .number range => .number range
      | .boolean => .boolean
      | .string lengths => .string lengths
      | .object ⟨⟨properties, isOpen⟩, inherited⟩ =>
        .object ⟨⟨membersToJson form properties, isOpen⟩, inherited⟩
      | .array none => .array none
      | .array (some ⟨items, inherited⟩) => .array (some ⟨items.toJson form, inherited⟩)
    p.write form p.typeName written
termination_by structural p => p

/-- The JSON forms of all members. -/
def membersToJson (form : Form) : List (String × Property) → List (String × Json)
  | [] => []
  | (name, p) :: rest => (name, p.toJson form) :: membersToJson form rest
termination_by structural properties => properties
end

end Property

/-- The JSON form of the members of an object type. -/
def ObjectType.toJson (form : Form) (o : ObjectType) : Json :=
  .object (Property.membersToJson form o.properties)

end Capability
