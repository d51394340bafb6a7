import Capability.Proofs.Json
import Capability.Schema.Value

/-!
# Values and their JSON form

A JSON value stands for a value by itself exactly when nothing in it is null (`isSome_ofJson?_iff`). A value is found
again in its JSON form, without a type (`ofJson?_toJson`): integers stay integers and doubles stay doubles, and nothing
in it is null (`nullFree_toJson`). Every value is the same as itself (`same_refl`).
-/

namespace Capability.Value

mutual
/-- **The JSON form of a value is taken for that value.** -/
@[simp] theorem ofJson?_toJson : ∀ v : Value, ofJson? v.toJson = some v
  | .integer n => by
    show (match (Json.integer n.toInt).toInt64? with
      | some i => some (Value.integer i)
      | none => some (Value.number (.ofInt n.toInt))) = _
    rw [Json.toInt64?_integer]
  | .number _ => rfl
  | .boolean _ => rfl
  | .string _ => rfl
  | .object members => by
    show (membersOfJson? (membersToJson members)).map Value.object = _
    rw [membersOfJson?_toJson members]
    rfl
  | .array items => by
    show (itemsOfJson? (itemsToJson items)).map Value.array = _
    rw [itemsOfJson?_toJson items]
    rfl

theorem membersOfJson?_toJson : ∀ members, membersOfJson? (membersToJson members) = some members
  | [] => rfl
  | (name, v) :: members => by
    rw [membersToJson, membersOfJson?, ofJson?_toJson v, membersOfJson?_toJson members]
    rfl

theorem itemsOfJson?_toJson : ∀ items, itemsOfJson? (itemsToJson items) = some items
  | [] => rfl
  | v :: items => by
    rw [itemsToJson, itemsOfJson?, ofJson?_toJson v, itemsOfJson?_toJson items]
    rfl
end

mutual
/-- There is no null in the JSON form of a value. -/
theorem nullFree_toJson : ∀ v : Value, v.toJson.NullFree
  | .integer _ | .number _ | .boolean _ | .string _ => trivial
  | .object members => nullFree_membersToJson members
  | .array items => nullFree_itemsToJson items

theorem nullFree_membersToJson : ∀ members, Json.NullFreeFields (membersToJson members)
  | [] => trivial
  | (_, v) :: members => ⟨nullFree_toJson v, nullFree_membersToJson members⟩

theorem nullFree_itemsToJson : ∀ items, Json.NullFreeItems (itemsToJson items)
  | [] => trivial
  | v :: items => ⟨nullFree_toJson v, nullFree_itemsToJson items⟩
end

mutual
/-- **A JSON value stands for a value by itself exactly when there is no null in it.** -/
theorem isSome_ofJson?_iff : ∀ json : Json, (ofJson? json).isSome = true ↔ json.NullFree
  | .null => ⟨fun h => (by cases h), False.elim⟩
  | .bool _ | .string _ | .number (.double _) => ⟨fun _ => trivial, fun _ => rfl⟩
  | .number (.integer n) => by
    refine ⟨fun _ => trivial, fun _ => ?_⟩
    rw [ofJson?]
    split <;> rfl
  | .array items => by
    rw [ofJson?, Option.isSome_map]
    exact isSome_itemsOfJson?_iff items
  | .object fields => by
    rw [ofJson?, Option.isSome_map]
    exact isSome_membersOfJson?_iff fields

theorem isSome_itemsOfJson?_iff : ∀ items, (itemsOfJson? items).isSome = true ↔ Json.NullFreeItems items
  | [] => ⟨fun _ => trivial, fun _ => rfl⟩
  | item :: items => by
    rw [itemsOfJson?, Json.NullFreeItems, ← isSome_ofJson?_iff item, ← isSome_itemsOfJson?_iff items]
    cases ofJson? item <;> cases itemsOfJson? items <;> simp

theorem isSome_membersOfJson?_iff : ∀ fields, (membersOfJson? fields).isSome = true ↔ Json.NullFreeFields fields
  | [] => ⟨fun _ => trivial, fun _ => rfl⟩
  | (name, json) :: fields => by
    rw [membersOfJson?, Json.NullFreeFields, ← isSome_ofJson?_iff json, ← isSome_membersOfJson?_iff fields]
    cases ofJson? json <;> cases membersOfJson? fields <;> simp
end

/-- The values of fields, field by field. -/
theorem membersOfJson?_eq_some_iff {fields : Fields Json} {values : Fields Value} :
    membersOfJson? fields = some values ↔ fields.mapValues ofJson? = values.mapValues some := by
  induction fields generalizing values with
  | nil =>
    cases values with
    | nil => exact ⟨fun _ => rfl, fun _ => rfl⟩
    | cons v vs => exact ⟨fun h => (by cases h), fun h => (by cases h)⟩
  | cons f rest ih =>
    obtain ⟨name, json⟩ := f
    rw [membersOfJson?]
    constructor
    · intro h
      obtain ⟨v, hv, h⟩ := Option.bind_eq_some_iff.1 h
      obtain ⟨vs, hvs, h⟩ := Option.bind_eq_some_iff.1 h
      obtain rfl := Option.some.inj h
      exact List.cons_eq_cons.2 ⟨congrArg (Prod.mk name) hv, ih.1 hvs⟩
    · intro h
      cases values with
      | nil => cases h
      | cons m vs =>
        obtain ⟨hm, hvs⟩ := List.cons_eq_cons.1 h
        obtain ⟨rfl, hv⟩ := Prod.mk.inj hm
        rw [hv, ih.2 hvs]
        rfl

mutual
theorem same_refl : ∀ v : Value, v.same v = true
  | .integer n => beq_self_eq_true n
  | .number _ => Double.beq_iff.2 rfl
  | .boolean b => beq_self_eq_true b
  | .string s => beq_self_eq_true s
  | .object members => sameMembers_refl members
  | .array items => sameItems_refl items

theorem sameMembers_refl : ∀ members, sameMembers members members = true
  | [] => rfl
  | (name, v) :: members => by
    rw [sameMembers, beq_self_eq_true, same_refl v, sameMembers_refl members]
    rfl

theorem sameItems_refl : ∀ items, sameItems items items = true
  | [] => rfl
  | v :: items => by
    rw [sameItems, same_refl v, sameItems_refl items]
    rfl
end

instance : ReflBEq Value := ⟨@same_refl⟩

end Capability.Value
