import Capability.Proofs.Schema.Reading
import Capability.Proofs.Schema.Values

/-!
# Values without a type

A JSON value without nulls stands for a value by itself. The JSON form of this value is the same again, but for the
integers that 64 signed bits do not hold: these become the nearest doubles, at whatever depth they are
(`Value.untyped_spec`). No literal is read as an integer below that range (`Token.Literal.value?`), so that they are the
ones above it.

A definition that gives nothing but a default has the kind that the default shows by itself. It is accepted with this
default, unless the default is an array, whose type shows in its items, or such an integer, which shows the kind of
integers and stands for a number (`Property.default_spec`). Inside of an object these integers do no harm.

* `Value.toJson_of_ofJson?`: the induction is on the JSON value, with its items and fields.
* `Value.kind_of_ofJson?`: the kind that a JSON value shows is that of what it stands for.
* `Property.convert_ofKind`: a type that is nothing but a kind takes a value for what it stands for by itself.
-/

namespace Capability

/-! ## Rounded integers -/

namespace Json

/-- Whether 64 signed bits hold the integer. -/
def IsSigned (n : Int) : Prop :=
  Int64.minValue.toInt ≤ n ∧ n ≤ Int64.maxValue.toInt

instance (n : Int) : Decidable (IsSigned n) :=
  inferInstanceAs (Decidable (_ ∧ _))

/-- The number as a value holds it: an integer that 64 signed bits do not hold is the double that it converts to. -/
def Number.rounded : Number → Number
  | .integer n => if IsSigned n then .integer n else .double (Number.integer n).toDouble
  | .double d => .double d

mutual
/-- The value with all its numbers as values hold them. -/
def rounded : Json → Json
  | .number n => .number n.rounded
  | .array items => .array (roundedItems items)
  | .object fields => .object (roundedFields fields)
  | .null => .null
  | .bool b => .bool b
  | .string s => .string s

/-- The items with all their numbers as values hold them. -/
def roundedItems : List Json → List Json
  | [] => []
  | item :: items => item.rounded :: roundedItems items

/-- The fields with all their numbers as values hold them. -/
def roundedFields : List (String × Json) → List (String × Json)
  | [] => []
  | (name, value) :: fields => (name, value.rounded) :: roundedFields fields
end

theorem toInt64?_of_isSigned {n : Int} (h : IsSigned n) : (integer n).toInt64? = some (Int64.ofInt n) :=
  if_pos h

theorem toInt64?_of_not_isSigned {n : Int} (h : ¬IsSigned n) : (integer n).toInt64? = none := by
  refine Option.eq_none_iff_forall_ne_some.2 fun i hi => h ?_
  obtain rfl : n = i.toInt := Number.units_integer_iff.1 (Number.toInt64?_eq_some_iff.1 hi)
  exact ⟨i.minValue_le_toInt, i.toInt_le⟩

end Json

open Json

namespace Value

theorem ofJson?_of_isSigned {n : Int} (h : IsSigned n) : ofJson? (.integer n) = some (.integer (Int64.ofInt n)) := by
  rw [ofJson?, toInt64?_of_isSigned h]

theorem ofJson?_of_not_isSigned {n : Int} (h : ¬IsSigned n) : ofJson? (.integer n) = some (.number (Double.ofInt n)) := by
  rw [ofJson?, toInt64?_of_not_isSigned h]

mutual
/-- **The JSON form of what a JSON value stands for is this value with its integers rounded.** -/
theorem toJson_of_ofJson? : ∀ {json : Json} {v : Value}, ofJson? json = some v → v.toJson = json.rounded
  | .null, _, h => by cases h
  | .bool _, _, h => by
    obtain rfl := Option.some.inj h
    rfl
  | .string _, _, h => by
    obtain rfl := Option.some.inj h
    rfl
  | .number (.double _), _, h => by
    obtain rfl := Option.some.inj h
    rfl
  | .number (.integer n), _, h => by
    by_cases hn : IsSigned n
    · rw [ofJson?_of_isSigned hn] at h
      obtain rfl := Option.some.inj h
      rw [toJson, rounded, Number.rounded, if_pos hn, Int64.toInt_ofInt_of_le hn.1 (Int.lt_of_le_sub_one hn.2)]
    · rw [ofJson?_of_not_isSigned hn] at h
      obtain rfl := Option.some.inj h
      rw [toJson, rounded, Number.rounded, if_neg hn]
      rfl
  | .array items, _, h => by
    obtain ⟨values, hvalues, rfl⟩ := Option.map_eq_some_iff.1 h
    exact congrArg Json.array (itemsToJson_of_itemsOfJson? hvalues)
  | .object fields, _, h => by
    obtain ⟨members, hmembers, rfl⟩ := Option.map_eq_some_iff.1 h
    exact congrArg Json.object (membersToJson_of_membersOfJson? hmembers)

theorem itemsToJson_of_itemsOfJson? : ∀ {items : List Json} {values : List Value},
    itemsOfJson? items = some values → itemsToJson values = roundedItems items
  | [], _, h => by
    obtain rfl := Option.some.inj h
    rfl
  | item :: items, _, h => by
    obtain ⟨v, hv, h⟩ := Option.bind_eq_some_iff.1 h
    obtain ⟨values, hvalues, h⟩ := Option.bind_eq_some_iff.1 h
    obtain rfl := Option.some.inj h
    rw [itemsToJson, roundedItems, toJson_of_ofJson? hv, itemsToJson_of_itemsOfJson? hvalues]

theorem membersToJson_of_membersOfJson? : ∀ {fields : List (String × Json)} {members : List (String × Value)},
    membersOfJson? fields = some members → membersToJson members = roundedFields fields
  | [], _, h => by
    obtain rfl := Option.some.inj h
    rfl
  | (name, json) :: fields, _, h => by
    obtain ⟨v, hv, h⟩ := Option.bind_eq_some_iff.1 h
    obtain ⟨members, hmembers, h⟩ := Option.bind_eq_some_iff.1 h
    obtain rfl := Option.some.inj h
    rw [membersToJson, roundedFields, toJson_of_ofJson? hv, membersToJson_of_membersOfJson? hmembers]
end

/-- **A JSON value stands for a value exactly if there is no null in it**, and the JSON form of this value is the same
again but for the integers that 64 signed bits do not hold. The JSON form of every value stands for that value. -/
theorem untyped_spec (json : Json) :
    ((∃ v, ofJson? json = some v) ↔ json.NullFree) ∧
    (∀ v, ofJson? json = some v → v.toJson = json.rounded) ∧
    ∀ v, ofJson? (toJson v) = some v :=
  ⟨Option.isSome_iff_exists.symm.trans (isSome_ofJson?_iff json), fun _ => toJson_of_ofJson?, ofJson?_toJson⟩

end Value

/-! ## Kinds -/

/-- The value is by itself an integer that 64 signed bits do not hold. -/
def Json.IsBeyond (json : Json) : Prop :=
  ∃ n, json = .integer n ∧ ¬IsSigned n

theorem Json.isSigned_of_not_isBeyond {n : Int} (h : ¬(Json.integer n).IsBeyond) : IsSigned n :=
  Decidable.byContradiction fun hn => h ⟨n, rfl, hn⟩

/-- **A JSON value and what it stands for are of one kind**, but for an integer that 64 signed bits do not hold. -/
theorem Value.kind_of_ofJson? {json : Json} {v : Value} (h : ofJson? json = some v) (hbeyond : ¬json.IsBeyond) :
    Kind.ofJson? json = some v.kind := by
  cases json with
  | null => cases h
  | array items =>
    obtain ⟨values, _, rfl⟩ := Option.map_eq_some_iff.1 h
    rfl
  | object fields =>
    obtain ⟨members, _, rfl⟩ := Option.map_eq_some_iff.1 h
    rfl
  | number n =>
    cases n with
    | double d =>
      obtain rfl := Option.some.inj h
      rfl
    | integer n =>
      rw [ofJson?_of_isSigned (isSigned_of_not_isBeyond hbeyond)] at h
      obtain rfl := Option.some.inj h
      rfl
  | _ =>
    obtain rfl := Option.some.inj h
    rfl

namespace Property

open Definition Conversion

/-- A definition that gives a default and nothing else has the kind that the default has by itself. -/
theorem ofJson_default {json : Json} {kind : Kind} (hkind : Kind.ofJson? json = some kind) (harray : kind ≠ .array) :
    Property.ofJson none (.object [("default", json)]) =
      (((ofTypeName (.plain kind)).convert json).mapError (invalidOwnValue "default") >>= fun v =>
        .ok { ofTypeName (.plain kind) with default := some (.own v) }) := by
  cases json with
  | null => cases hkind
  | array items => exact absurd (Option.some.inj hkind).symm harray
  | number n => cases n <;> obtain rfl := Option.some.inj hkind <;> rfl
  | _ =>
    obtain rfl := Option.some.inj hkind
    rfl

/-- The type of all objects takes fields for what they stand for by themselves. -/
theorem convert_any {fields : Fields Json} {members : Fields Value} (hsorted : fields.Sorted)
    (h : Value.membersOfJson? fields = some members) : ObjectType.any.convert (.object fields) = .ok members := by
  have hmembers : fields.mapValues Value.ofJson? = members.mapValues some := Value.membersOfJson?_eq_some_iff.1 h
  refine (ObjectType.convert_object_iff Fields.sorted_nil hsorted).2 ⟨?_, ?_, fun name _ => ⟨?_, ?_⟩⟩
  · exact hsorted.of_names (names_of_membersOfJson? h)
  · simp [ObjectType.any]
  · simp [ObjectType.any]
  · rw [← Fields.get?_mapValues, ← Fields.get?_mapValues, hmembers]

/-- A type that is nothing but a kind takes a value of this kind for what it stands for by itself. -/
theorem convert_ofKind {json : Json} {kind : Kind} {v : Value} (hsorted : json.Sorted)
    (hkind : Kind.ofJson? json = some kind) (harray : kind ≠ .array) (h : Value.ofJson? json = some v)
    (hbeyond : ¬json.IsBeyond) : (ofTypeName (.plain kind)).convert json = .ok v := by
  cases json with
  | null => cases hkind
  | array items => exact absurd (Option.some.inj hkind).symm harray
  | object fields =>
    obtain rfl := Option.some.inj hkind
    obtain ⟨members, hmembers, rfl⟩ := Option.map_eq_some_iff.1 h
    have hconvert := convert_any hsorted.1 hmembers
    rw [Property.convert_eq]
    show (ObjectType.any.convert (.object fields) >>= fun m => Except.ok (Value.object m)) >>= _ = _
    rw [hconvert]
    rfl
  | number n =>
    cases n with
    | double d =>
      obtain rfl := Option.some.inj hkind
      obtain rfl := Option.some.inj h
      rfl
    | integer n =>
      have hn : IsSigned n := isSigned_of_not_isBeyond hbeyond
      obtain rfl := Option.some.inj hkind
      rw [Value.ofJson?_of_isSigned hn] at h
      obtain rfl := Option.some.inj h
      rw [Property.convert_eq]
      show Shape.convert (.integer .unlimited) (.integer n) >>= _ = _
      rw [Shape.convert, toInt64?_of_isSigned hn]
      rfl
  | _ =>
    obtain rfl := Option.some.inj hkind
    obtain rfl := Option.some.inj h
    rfl

/-- No integer is taken for one that 64 signed bits do not hold. -/
theorem convert_beyond {n : Int} (hn : ¬IsSigned n) :
    (ofTypeName (.plain .integer)).convert (.integer n) = .error (mismatch (.integer n) (.plain .integer)) := by
  rw [Property.convert_eq]
  show Shape.convert (.integer .unlimited) (.integer n) >>= _ = _
  rw [Shape.convert, toInt64?_of_not_isSigned hn]
  rfl

/-- **The kind that a JSON value without nulls shows is the kind of what it stands for, and a definition that gives
nothing but a default, which is not an array, has this kind and this default.** An integer that 64 signed bits do not
hold shows the kind of integers and stands for a number, and as a default it is refused. -/
theorem default_spec {json : Json} (hsorted : json.Sorted) (hnull : json.NullFree) :
    ∃ kind v, Kind.ofJson? json = some kind ∧ Value.ofJson? json = some v ∧
      (¬json.IsBeyond → kind = v.kind ∧ (kind ≠ .array →
        Property.ofJson none (.object [("default", json)]) =
          .ok { ofTypeName (.plain kind) with default := some (.own v) })) ∧
      ∀ n, json = .integer n → ¬IsSigned n → kind = .integer ∧ v = .number (Double.ofInt n) ∧
        Property.ofJson none (.object [("default", json)]) =
          .error (invalidOwnValue "default" (mismatch json (.plain .integer))) := by
  obtain ⟨v, hv⟩ := Option.isSome_iff_exists.1 ((Value.isSome_ofJson?_iff json).2 hnull)
  by_cases hbeyond : json.IsBeyond
  · obtain ⟨n, rfl, hn⟩ := hbeyond
    refine ⟨.integer, v, rfl, hv, fun h => absurd ⟨n, rfl, hn⟩ h, ?_⟩
    rintro m hm -
    obtain rfl : n = m := by simpa using hm
    rw [Value.ofJson?_of_not_isSigned hn] at hv
    refine ⟨rfl, (Option.some.inj hv).symm, ?_⟩
    rw [ofJson_default rfl (by decide), convert_beyond hn]
    rfl
  · have hkind : Kind.ofJson? json = some v.kind := Value.kind_of_ofJson? hv hbeyond
    refine ⟨v.kind, v, hkind, hv, fun _ => ⟨rfl, fun harray => ?_⟩, fun n hn hs => absurd ⟨n, hn, hs⟩ hbeyond⟩
    rw [ofJson_default hkind harray, convert_ofKind hsorted hkind harray hv hbeyond]
    rfl

/-- An integer that 64 signed bits do not hold does no harm inside of a default. -/
theorem default_spec_nested : ∃ v,
    (Json.object [("limits", .array [.integer 9223372036854775808])]).Sorted ∧
      (Json.object [("limits", .array [.integer 9223372036854775808])]).NullFree ∧
      Value.ofJson? (.object [("limits", .array [.integer 9223372036854775808])]) = some v ∧ v.kind = .object ∧
      Property.ofJson none (.object [("default", .object [("limits", .array [.integer 9223372036854775808])])]) =
        .ok { ofTypeName (.plain .object) with default := some (.own v) } := by
  have hsorted : (Json.object [("limits", .array [.integer 9223372036854775808])]).Sorted :=
    ⟨List.pairwise_singleton _ _, ⟨trivial, trivial⟩, trivial⟩
  have hnull : (Json.object [("limits", .array [.integer 9223372036854775808])]).NullFree :=
    ⟨⟨trivial, trivial⟩, trivial⟩
  obtain ⟨kind, v, hkind, hv, hfits, _⟩ := default_spec hsorted hnull
  obtain rfl := Option.some.inj hkind
  obtain ⟨hk, hdefault⟩ := hfits fun ⟨_, h, _⟩ => by cases h
  exact ⟨v, hsorted, hnull, hv, hk.symm, hdefault (by decide)⟩

/-- **An integer just above those that 64 signed bits hold counts as an integer and stands for a number, so that it is
refused as a default although it is no null.** -/
theorem default_refused_beyond :
    (Json.integer 9223372036854775808).NullFree ∧ Kind.ofJson? (.integer 9223372036854775808) = some .integer ∧
      (Value.ofJson? (.integer 9223372036854775808)).map Value.kind = some .number ∧
      ∀ p, Property.ofJson none (.object [("default", .integer 9223372036854775808)]) ≠ .ok p := by
  have hbeyond : ¬IsSigned 9223372036854775808 := by decide
  have hkind : Kind.ofJson? (.integer 9223372036854775808) = some .integer := rfl
  refine ⟨trivial, hkind, ?_, fun p h => ?_⟩
  · rw [Value.ofJson?_of_not_isSigned hbeyond]
    rfl
  · rw [ofJson_default hkind (by decide), convert_beyond hbeyond] at h
    cases h

end Property

end Capability
