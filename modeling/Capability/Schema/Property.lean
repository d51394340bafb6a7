import Capability.Schema.Bounds
import Capability.Schema.TypeName
import Capability.Schema.Value

/-!
# Types of properties

A `Property` says which values a property may have: the shape of its kind with the limits on it, the allowed values if
they are listed, the default, and whether a value must be given. Objects have named properties of their own
(`ObjectType`) and arrays have one type for all items, so that the types are trees.

Two types are the same (`Property.same`) when these parts agree, wherever each attribute came from.
-/

namespace Capability

/-- Named members, and whether other names are accepted beside them. -/
structure ObjectOf (τ : Type) where
  properties : List (String × τ)
  isOpen : Bool

/-- The kind of a property with the limits that only this kind has. -/
inductive Shape (τ : Type) where
  | integer (range : Bounds Int64)
  | number (range : Bounds Double)
  | boolean
  | string (lengths : Bounds Length)
  | object (type : Attribute (ObjectOf τ))
  /-- The type of the items is missing only while a definition is being read. -/
  | array (items : Option (Attribute τ))

/-- The type of a property. -/
structure Property where
  shape : Shape Property
  /-- The only values allowed, if they are listed. -/
  allowed : Option (Attribute (List Value))
  /-- The value of the property where none is given. -/
  default : Option (Attribute Value)
  /-- Whether a value must be given if there is no default. -/
  required : Attribute Bool
  /-- Whether the definition rests on a base. -/
  derived : Bool

/-- The type of an object: the types of its members by name. -/
abbrev ObjectType := ObjectOf Property

/-! ## Shapes -/

namespace Shape

variable {τ : Type}

/-- The kind of the shape. -/
def kind : Shape τ → Kind
  | .integer _ => .integer
  | .number _ => .number
  | .boolean => .boolean
  | .string _ => .string
  | .object _ => .object
  | .array _ => .array

/-- The shape of a kind without limits: objects accept any member. -/
def ofKind : Kind → Shape τ
  | .integer => .integer .unlimited
  | .number => .number .unlimited
  | .boolean => .boolean
  | .string => .string .unlimited
  | .object => .object ⟨⟨[], true⟩, true⟩
  | .array => .array none

/-- The shape as a derived definition takes it over. -/
def inherit : Shape τ → Shape τ
  | .integer range => .integer range.inherit
  | .number range => .number range.inherit
  | .boolean => .boolean
  | .string lengths => .string lengths.inherit
  | .object type => .object type.inherit
  | .array items => .array (items.map Attribute.inherit)

/-- Whether the definition gives a limit of the shape itself. -/
def hasOwn : Shape τ → Bool
  | .integer range => range.hasOwn
  | .number range => range.hasOwn
  | .boolean => false
  | .string lengths => lengths.hasOwn
  | .object type => !type.inherited
  | .array items => Attribute.isOwn items

/-- The type of an object. -/
def object? : Shape τ → Option (ObjectOf τ)
  | .object type => some type.value
  | _ => none

/-- The type of the items of an array. -/
def items? : Shape τ → Option τ
  | .array items => items.map (·.value)
  | _ => none

@[simp] theorem kind_ofKind (k : Kind) : (ofKind k : Shape τ).kind = k := by
  cases k <;> rfl

@[simp] theorem kind_inherit (s : Shape τ) : s.inherit.kind = s.kind := by
  cases s <;> rfl

@[simp] theorem hasOwn_inherit (s : Shape τ) : s.inherit.hasOwn = false := by
  cases s <;> simp [inherit, hasOwn, Bounds.inherit, Bounds.hasOwn, Attribute.inherit]

@[simp] theorem object?_inherit (s : Shape τ) : s.inherit.object? = s.object? := by
  cases s <;> rfl

@[simp] theorem items?_inherit (s : Shape τ) : s.inherit.items? = s.items? := by
  cases s with
  | array items => cases items <;> rfl
  | _ => rfl

end Shape

/-! ## Property types -/

namespace Property

/-- The kind of the values. -/
def kind (p : Property) : Kind :=
  p.shape.kind

/-- The type of an object property. -/
def object? (p : Property) : Option ObjectType :=
  p.shape.object?

/-- The type of the items of an array property. -/
def items? (p : Property) : Option Property :=
  p.shape.items?

/-- The allowed values, if they are listed. -/
def allowed? (p : Property) : Option (List Value) :=
  p.allowed.map (·.value)

/-- The default, if there is one. -/
def default? (p : Property) : Option Value :=
  p.default.map (·.value)

/-- Whether the definition gives any attribute itself. -/
def hasOwn (p : Property) : Bool :=
  p.shape.hasOwn || Attribute.isOwn p.allowed || Attribute.isOwn p.default || !p.required.inherited

/-- Whether the list of allowed values is all that the definition gives itself. -/
def hasOwnAllowedOnly (p : Property) : Bool :=
  Attribute.isOwn p.allowed && !p.shape.hasOwn && !Attribute.isOwn p.default && p.required.inherited

/-- The property with a `required` of its own. -/
def setRequired (p : Property) (required : Bool) : Property :=
  { p with required := .own required }

/-- The type that a type name stands for, without limits. -/
def ofTypeName : TypeName → Property
  | .plain kind => ⟨.ofKind kind, none, none, ⟨false, true⟩, false⟩
  | .arrayOf items => ⟨.array (some (.own (ofTypeName items))), none, none, ⟨false, true⟩, false⟩

/-- The full name of the type. -/
def typeName : Property → TypeName
  | ⟨.array (some ⟨items, _⟩), _, _, _, _⟩ => .arrayOf items.typeName
  | ⟨shape, _, _, _, _⟩ => .plain shape.kind

/-! ## Sameness -/

mutual
/-- Whether two types allow the same values with the same default. -/
def same : Property → Property → Bool
  | ⟨shape, allowed, default, required, _⟩, p =>
    (match shape, p.shape with
      | .integer a, .integer b => a.same b
      | .number a, .number b => a.same b
      | .boolean, .boolean => true
      | .string a, .string b => a.same b
      | .object ⟨a, _⟩, .object ⟨b, _⟩ => sameObject a b
      | .array none, .array none => true
      | .array (some ⟨a, _⟩), .array (some ⟨b, _⟩) => a.same b
      | _, _ => false) &&
    Attribute.same? (· == ·) allowed p.allowed && Attribute.same? (· == ·) default p.default &&
    required.same (· == ·) p.required

/-- Whether two object types have the same members and are both open or both closed. -/
def sameObject : ObjectOf Property → ObjectOf Property → Bool
  | ⟨ps, isOpen⟩, o => sameMembers ps o.properties && isOpen == o.isOpen

/-- Whether two lists have the same types under the same names. -/
def sameMembers : List (String × Property) → List (String × Property) → Bool
  | [], [] => true
  | (n, a) :: as, (m, b) :: bs => n == m && a.same b && sameMembers as bs
  | _, _ => false
end

instance : BEq Property := ⟨same⟩

/-! ## Initial values -/

mutual
/-- The value of a property that was never set: its default, or the empty value of its kind. An object starts with the
initial values of its members. -/
def initial : Property → Value
  | ⟨_, _, some ⟨value, _⟩, _, _⟩ => value
  | ⟨.integer _, _, none, _, _⟩ => .integer 0
  | ⟨.number _, _, none, _, _⟩ => .number (.zero false)
  | ⟨.boolean, _, none, _, _⟩ => .boolean false
  | ⟨.string _, _, none, _, _⟩ => .string ""
  | ⟨.array _, _, none, _, _⟩ => .array []
  | ⟨.object ⟨⟨ps, _⟩, _⟩, _, none, _, _⟩ => .object (initialMembers ps)

/-- The initial values of all members. -/
def initialMembers : List (String × Property) → List (String × Value)
  | [] => []
  | (name, p) :: ps => (name, p.initial) :: initialMembers ps
end

end Property

/-! ## Object types -/

namespace ObjectType

/-- No members, and none accepted. -/
def empty : ObjectType := ⟨[], false⟩

/-- No members, and all accepted. -/
def any : ObjectType := ⟨[], true⟩

/-- The members by name. -/
def members (o : ObjectType) : Fields Property :=
  o.properties

/-- The type of a member. -/
def get? (o : ObjectType) (name : String) : Option Property :=
  o.members.get? name

/-- Adds a member, in place of the member of that name. -/
def put (o : ObjectType) (name : String) (p : Property) : ObjectType :=
  { o with properties := o.members.put name p }

/-- The type with other names accepted or not. -/
def setOpen (o : ObjectType) (isOpen : Bool) : ObjectType :=
  { o with isOpen := isOpen }

/-- Makes a member required. -/
def require (o : ObjectType) (name : String) : Except Fault ObjectType :=
  match o.get? name with
  | some p => .ok (o.put name (p.setRequired true))
  | none => .error (.ofCommands .unknownProperty s!"Unknown property '{name}'")

instance : BEq ObjectType := ⟨Property.sameObject⟩

end ObjectType

end Capability
