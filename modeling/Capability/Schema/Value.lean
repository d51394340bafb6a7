import Capability.Schema.Kind

/-!
# Typed values

A `Value` is what a JSON value becomes when it is taken for a value of a property. It has no nulls, and integers are
64 bits wide. `Value.ofJson?` takes a JSON value by itself, without a type, and refuses nulls at any depth.
`Value.same` compares numbers by value, so that the two zeros are the same number.
-/

namespace Capability

/-- A typed value. -/
inductive Value where
  | integer (n : Int64)
  | number (d : Double)
  | boolean (b : Bool)
  | string (s : String)
  | object (members : List (String × Value))
  | array (items : List Value)

namespace Value

/-- The kind of a value. -/
def kind : Value → Kind
  | .integer _ => .integer
  | .number _ => .number
  | .boolean _ => .boolean
  | .string _ => .string
  | .object _ => .object
  | .array _ => .array

/-! ## Sameness -/

mutual
/-- Whether two values are the same: of one kind, with the same content at every depth. -/
def same : Value → Value → Bool
  | .integer a, .integer b => a == b
  | .number a, .number b => a == b
  | .boolean a, .boolean b => a == b
  | .string a, .string b => a == b
  | .object a, .object b => sameMembers a b
  | .array a, .array b => sameItems a b
  | _, _ => false

/-- Whether two lists have the same members under the same names. -/
def sameMembers : List (String × Value) → List (String × Value) → Bool
  | [], [] => true
  | (n, a) :: as, (m, b) :: bs => n == m && a.same b && sameMembers as bs
  | _, _ => false

/-- Whether two lists have the same items. -/
def sameItems : List Value → List Value → Bool
  | [], [] => true
  | a :: as, b :: bs => a.same b && sameItems as bs
  | _, _ => false
end

instance : BEq Value := ⟨same⟩

/-! ## To JSON and back -/

mutual
/-- The JSON form of a value. -/
def toJson : Value → Json
  | .integer n => .integer n.toInt
  | .number d => .double d
  | .boolean b => .bool b
  | .string s => .string s
  | .object members => .object (membersToJson members)
  | .array items => .array (itemsToJson items)

/-- The JSON form of each member. -/
def membersToJson : List (String × Value) → List (String × Json)
  | [] => []
  | (name, value) :: members => (name, value.toJson) :: membersToJson members

/-- The JSON form of each item. -/
def itemsToJson : List Value → List Json
  | [] => []
  | value :: items => value.toJson :: itemsToJson items
end

mutual
/-- The value that a JSON value is by itself. An integer beyond 64 signed bits becomes the nearest double. -/
def ofJson? : Json → Option Value
  | .null => none
  | .bool b => some (.boolean b)
  | .number (.double d) => some (.number d)
  | .number (.integer n) =>
    match (Json.integer n).toInt64? with
    | some i => some (.integer i)
    | none => some (.number (.ofInt n))
  | .string s => some (.string s)
  | .array items => (itemsOfJson? items).map .array
  | .object fields => (membersOfJson? fields).map .object

/-- The values of all items; none if one has none. -/
def itemsOfJson? : List Json → Option (List Value)
  | [] => some []
  | item :: items => do return (← ofJson? item) :: (← itemsOfJson? items)

/-- The values of all fields; none if one has none. -/
def membersOfJson? : List (String × Json) → Option (List (String × Value))
  | [] => some []
  | (name, json) :: fields => do return (name, ← ofJson? json) :: (← membersOfJson? fields)
end

/-! ## Contents -/

/-- The integer. -/
def toInt64? : Value → Option Int64
  | .integer n => some n
  | _ => none

/-- The numeric value as a double, of integers and of doubles. -/
def toDouble? : Value → Option Double
  | .integer n => some (.ofInt n.toInt)
  | .number d => some d
  | _ => none

/-- The truth value. -/
def toBool? : Value → Option Bool
  | .boolean b => some b
  | _ => none

/-- The text. -/
def toText? : Value → Option String
  | .string s => some s
  | _ => none

/-- The members of an object. -/
def toMembers? : Value → Option (Fields Value)
  | .object members => some members
  | _ => none

/-- The items of an array. -/
def toItems? : Value → Option (List Value)
  | .array items => some items
  | _ => none

@[simp] theorem membersToJson_eq_map (members : List (String × Value)) :
    membersToJson members = Fields.mapValues toJson members := by
  induction members with
  | nil => rfl
  | cons p members ih => simp [membersToJson, Fields.mapValues, ih]

@[simp] theorem itemsToJson_eq_map (items : List Value) : itemsToJson items = items.map toJson := by
  induction items with
  | nil => rfl
  | cons v items ih => simp [itemsToJson, ih]

end Value

end Capability
