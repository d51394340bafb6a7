import Capability.Schema.Property

/-!
# The type of a definition that names none

A definition without a `type` shows it in its other attributes. The first rule that applies decides:

1. a range over a base of numbers is a range of numbers;
2. a range with a limit written as a double is a range of numbers, any other of integers;
3. lengths belong to strings, `properties` to objects and `items` to arrays;
4. a list of allowed values has the type of the base, or else of its first value;
5. a default has its own type;
6. without any of these the type is that of the base.
-/

namespace Capability.Inference

/-- The type of the items of an array, as the first one shows it. -/
def ofItems? : List Json → Option TypeName
  | [] => none
  | .array _ :: _ => none
  | item :: _ => (Kind.ofJson? item).map .plain

/-- The type of a value by itself: of arrays, the type of their items as well. -/
def ofValue? : Json → Option TypeName
  | .array items => (ofItems? items).map .arrayOf
  | json => (Kind.ofJson? json).map .plain

/-- The type of a list of allowed values. -/
def ofAllowed? (base : Option Property) (values : List Json) : Option TypeName :=
  match base with
  | some base => some base.typeName
  | none => values.head?.bind ofValue?

/-- The type that the attributes of a definition show. -/
def ofFields? (base : Option Property) (fields : Fields Json) : Option TypeName :=
  let hasRange := fields.has "minimum" || fields.has "maximum"
  let hasDouble := (fields.get? "minimum").any Json.isDouble || (fields.get? "maximum").any Json.isDouble
  if hasRange then
    if base.any (·.kind == .number) || hasDouble then some (.plain .number) else some (.plain .integer)
  else if fields.has "minLength" || fields.has "maxLength" then some (.plain .string)
  else if fields.has "properties" then some (.plain .object)
  else if fields.has "items" then some (.plain .array)
  else
    match fields.get? "enum", fields.get? "default" with
    | some (.array values), _ => ofAllowed? base values
    | _, some json => ofValue? json
    | _, none => base.map (·.typeName)

end Capability.Inference
