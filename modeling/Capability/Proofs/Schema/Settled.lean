import Capability.Proofs.Schema.Shaped

/-!
# Converting what was converted

What a type without a base makes of a JSON value, it makes of the JSON form of the result again, although the two JSON
values may differ: whole doubles have become integers, and missing members have their defaults.

An object type may be changed after it was read: members can be made required, and the type can be opened or closed
(`ObjectType.Edit`). A member that is required converts as before (`Property.convert_setRequired`), so no change makes
a type forget the values that it answers afterwards (`ObjectType.Steady.edits`).

* `twice_spec`: converting twice is converting once, for types without a base and for object types after any changes.
-/

namespace Capability

open Property

/-- Whether a value must be given does not matter for a value that is given. -/
theorem Property.convert_setRequired (p : Property) (required : Bool) (json : Json) :
    (p.setRequired required).convert json = p.convert json := by
  rw [convert_eq, convert_eq]
  rfl

/-! ## Changes of an object type -/

namespace ObjectType

/-- A change of an object type. -/
inductive Edit where
  | require (name : String)
  | setOpen (isOpen : Bool)

/-- Makes a change. One that is refused leaves the type as it was. -/
def edit (o : ObjectType) : Edit → ObjectType
  | .require name => (o.require name).toOption.getD o
  | .setOpen isOpen => o.setOpen isOpen

/-- Makes changes one after the other. -/
def edits (o : ObjectType) (changes : List Edit) : ObjectType :=
  changes.foldl edit o

/-- The members are in order, and each of them settles its values and accepts its default. -/
structure Steady (o : ObjectType) : Prop where
  sorted : Fields.Sorted o.properties
  settles : ∀ name p, (name, p) ∈ o.properties → p.Settles
  default : ∀ name p, (name, p) ∈ o.properties → p.AcceptsDefault

namespace Steady

variable {o : ObjectType}

/-- **A steady type takes what it answered for the same members again.** -/
theorem convert (h : o.Steady) {json : Json} {values : Fields Value} (hv : o.convert json = .ok values) :
    o.convert (.object (Value.membersToJson values)) = .ok values :=
  convert_settled h.sorted h.settles h.default hv

theorem put (h : o.Steady) {p : Property} (hs : p.Settles) (hd : p.AcceptsDefault) (name : String) :
    (o.put name p).Steady := by
  refine ⟨h.sorted.put name p, fun n q hq => ?_, fun n q hq => ?_⟩
  · rcases Fields.mem_put hq with he | hq
    · obtain ⟨rfl, rfl⟩ := Prod.mk.inj he
      exact hs
    · exact h.settles n q hq
  · rcases Fields.mem_put hq with he | hq
    · obtain ⟨rfl, rfl⟩ := Prod.mk.inj he
      exact hd
    · exact h.default n q hq

theorem require (h : o.Steady) {name : String} {o' : ObjectType} (hr : o.require name = .ok o') : o'.Steady := by
  unfold ObjectType.require at hr
  split at hr
  · rename_i p hp
    obtain rfl := Except.ok.inj hr
    have hm : (name, p) ∈ o.properties := Fields.mem_of_get? hp
    refine h.put (fun json v hv => ?_) (fun v hv => ?_) name
    · rw [convert_setRequired] at hv
      exact (convert_setRequired p true _).trans (h.settles name p hm json v hv)
    · exact (convert_setRequired p true _).trans (h.default name p hm v hv)
  · cases hr

/-- **A change keeps a type steady.** -/
theorem edit (h : o.Steady) (change : Edit) : (o.edit change).Steady := by
  cases change with
  | require name =>
    show ((o.require name).toOption.getD o).Steady
    cases hr : o.require name with
    | error e => exact h
    | ok o' => exact h.require hr
  | setOpen isOpen => exact ⟨h.sorted, h.settles, h.default⟩

theorem edits (h : o.Steady) (changes : List Edit) : (o.edits changes).Steady := by
  induction changes generalizing o with
  | nil => exact h
  | cons change rest ih => exact ih (h.edit change)

end Steady

/-- An object type that is read without a base is steady. -/
theorem steady_ofFields {fields : Fields Json} {o : ObjectType} (hs : (Json.object fields).Sorted)
    (h : ObjectType.ofFields none fields = .ok o) : o.Steady := by
  obtain ⟨properties, hproperties, ho⟩ := Fault.bind_ok_iff.1 h
  obtain rfl := Except.ok.inj ho
  obtain ⟨hnames, hmembers⟩ := ofMembers_spec fields hs.2 (fun _ he => by cases he) hproperties
  refine ⟨hs.1.of_names hnames, fun name p hp json v hv => ?_, fun name p hp => ?_⟩
  · obtain ⟨hrests, hw⟩ := hmembers name p hp
    exact (hrests.value_of_none hw).2 json v hv |>.2
  · obtain ⟨hrests, hw⟩ := hmembers name p hp
    exact (RestsOn.fits_of_none hrests hw (.refl p)).default

end ObjectType

/-! ## Converting twice -/

/-- **Converting twice is converting once.** A type that is read without a base takes the JSON form of each value that
it answers for that value again. So does an object type that is read without a base, whatever members were made
required since and however often it was opened and closed. -/
theorem Property.twice_spec :
    (∀ definition p, definition.Sorted → Property.ofJson none definition = .ok p →
      ∀ json v, p.convert json = .ok v → p.convert v.toJson = .ok v) ∧
    ∀ definitions o, (Json.object definitions).Sorted → ObjectType.ofFields none definitions = .ok o →
      ∀ changes json values, (o.edits changes).convert json = .ok values →
        (o.edits changes).convert (.object (Value.membersToJson values)) = .ok values := by
  refine ⟨fun definition p hs h json v hv => ?_, fun definitions o hs h changes json values hv => ?_⟩
  · obtain ⟨hrests, hw⟩ := restsOn_ofJson definition hs (fun _ he => by cases he) h
    exact ((hrests.value_of_none hw).2 json v hv).2
  · exact ((ObjectType.steady_ofFields hs h).edits changes).convert hv

/-- A whole double is taken for an integer, and then the integer for itself. Of an object, a missing member gets its
default, an integer becomes a double, and so does one beyond 64 bits under a name that the opened type does not
have; the result is taken as it is. -/
theorem Property.twice_spec_levels : ∃ (p : Property) (o : ObjectType) (values : Fields Value),
    Property.ofJson none (.string "integer") = .ok p ∧ p.convert (.double (.ofInt 10)) = .ok (.integer 10) ∧
    p.convert (.integer 10) = .ok (.integer 10) ∧
    ObjectType.ofFields none [("count", .object [("default", .integer 3)]), ("ratio", .string "number")] = .ok o ∧
    values = [("count", .integer 3), ("far", .number (.ofInt 9223372036854775808)), ("ratio", .number (.ofInt 1))] ∧
    (o.edits [.require "ratio", .setOpen true, .require "size"]).convert
      (.object [("far", .integer 9223372036854775808), ("ratio", .integer 1)]) = .ok values ∧
    (o.edits [.require "ratio", .setOpen true, .require "size"]).convert
      (.object (Value.membersToJson values)) = .ok values := by
  let count : Property := ⟨.integer .unlimited, none, some (.own (.integer 3)), ⟨false, true⟩, false⟩
  have hp : Property.ofJson none (.string "integer") = .ok (.ofTypeName (.plain .integer)) := rfl
  have hten : (Json.double (.ofInt 10)).toInt64? = some 10 := by decide +kernel
  have hv : (Property.ofTypeName (.plain .integer)).convert (.double (.ofInt 10)) = .ok (.integer 10) :=
    convert_ok_iff.2 ⟨Shape.convert_ok_iff.2 (.integer hten rfl), nofun⟩
  have ho : ObjectType.ofFields none [("count", .object [("default", .integer 3)]), ("ratio", .string "number")] =
      .ok ⟨[("count", count), ("ratio", .ofTypeName (.plain .number))], false⟩ := rfl
  have hs : (Json.object [("count", .object [("default", .integer 3)]), ("ratio", .string "number")]).Sorted :=
    ⟨List.pairwise_pair.2 (by decide), ⟨List.pairwise_singleton _ _, trivial, trivial⟩, trivial, trivial⟩
  have hfar : Value.ofJson? (.integer 9223372036854775808) = some (.number (.ofInt 9223372036854775808)) := by
    have hbeyond : (Json.integer 9223372036854775808).toInt64? = none := by decide +kernel
    rw [Value.ofJson?, hbeyond]
  have hothers : Value.membersOfJson? [("far", .integer 9223372036854775808)] =
      some [("far", .number (.ofInt 9223372036854775808))] := by
    rw [Value.membersOfJson?, hfar]
    rfl
  have hvalues : (ObjectType.edits ⟨[("count", count), ("ratio", .ofTypeName (.plain .number))], false⟩
      [.require "ratio", .setOpen true, .require "size"]).convert
        (.object [("far", .integer 9223372036854775808), ("ratio", .integer 1)]) =
          .ok [("count", .integer 3), ("far", .number (.ofInt 9223372036854775808)), ("ratio", .number (.ofInt 1))] :=
    ObjectType.convert_ok_iff.2 ⟨_, [("count", .integer 3), ("ratio", .number (.ofInt 1))], _, rfl, rfl,
      otherMembers_ok_iff.2 ⟨nofun, hothers⟩, rfl⟩
  exact ⟨_, _, _, hp, hv, twice_spec.1 (.string "integer") _ trivial hp _ _ hv, ho, rfl, hvalues,
    twice_spec.2 _ _ hs ho _ _ _ hvalues⟩

end Capability
