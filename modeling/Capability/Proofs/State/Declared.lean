import Capability.Proofs.Fault
import Capability.Proofs.Schema.Parts
import Capability.State.Store

/-!
# Declared properties

A property of the state is a pair of names, that of its package and its own. A store is *sound* when the pairs with a
value are those that are declared, and every operation keeps it so.

* `Store.load_spec`: a load that is accepted leaves what is declared as it is, types and values.
* `Store.Sound.load`, `Store.Sound.preset`: loads and initial values keep a store sound.
* `Store.Formed.load`, `Store.Formed.preset`: they keep the packages in order, and none gets an empty name.
-/

namespace Capability

/-! ## Packages -/

namespace Package

variable {p q r : Package}

/-- The properties with a value are those that are declared. -/
def Sound (p : Package) : Prop :=
  ∀ name, (p.get? name).isSome = (p.type.get? name).isSome

/-- What one package declares stands in the other with the same type and the same value. -/
def Within (p q : Package) : Prop :=
  ∀ name, (p.type.get? name).isSome = true → q.type.get? name = p.type.get? name ∧ q.get? name = p.get? name

theorem Within.refl (p : Package) : p.Within p := fun _ _ => ⟨rfl, rfl⟩

theorem Within.trans (h : p.Within q) (h' : q.Within r) : p.Within r := by
  intro name hn
  obtain ⟨ht, hv⟩ := h name hn
  obtain ⟨ht', hv'⟩ := h' name (by rwa [ht])
  exact ⟨ht'.trans ht, hv'.trans hv⟩

theorem sound_empty (name : String) : (empty name).Sound := fun _ => rfl

theorem type_extend (p : Package) (properties : Fields Property) (name : String) :
    (p.extend properties).type.get? name = (Fields.get? properties.reverse name).or (p.type.get? name) :=
  Fields.get?_merge _ _ _

theorem get?_extend (p : Package) (properties : Fields Property) (name : String) :
    (p.extend properties).get? name =
      ((Fields.get? properties.reverse name).map Property.initial).or (p.get? name) := by
  have hreverse : (Fields.mapValues Property.initial properties).reverse =
      Fields.mapValues Property.initial properties.reverse := List.map_reverse.symm
  show (Fields.merge p.values (Property.initialMembers properties)).get? name = _
  rw [Property.initialMembers_eq_mapValues, Fields.get?_merge, hreverse, Fields.get?_mapValues]
  rfl

theorem Sound.extend (h : p.Sound) (properties : Fields Property) : (p.extend properties).Sound := by
  intro name
  rw [type_extend, get?_extend, Option.isSome_or, Option.isSome_or, Option.isSome_map, h name]

theorem declare_ok_iff {definitions : Fields Json} :
    p.declare definitions = .ok q ↔ ∃ type, ObjectType.ofFields none definitions = .ok type ∧
      (∀ member ∈ type.properties, p.type.get? member.1 = none) ∧ q = p.extend type.members := by
  unfold declare
  rw [Fault.bind_ok_iff]
  refine exists_congr fun type => and_congr_right fun _ => ?_
  split
  · rename_i name t he
    have hsome : (p.type.get? name).isSome = true := by simpa using List.find?_some he
    have hm : (name, t) ∈ type.properties := List.mem_of_find?_eq_some he
    refine ⟨fun h => (by cases h), fun ⟨hnew, _⟩ => ?_⟩
    rw [hnew _ hm] at hsome
    cases hsome
  · rename_i he
    have hnew : ∀ member ∈ type.properties, p.type.get? member.1 = none := by
      simpa [ObjectType.members] using he
    exact ⟨fun h => ⟨hnew, (Except.ok.inj h).symm⟩, fun h => congrArg Except.ok h.2.symm⟩

/-- A declaration leaves what is declared already as it is. -/
theorem within_declare {definitions : Fields Json} (h : p.declare definitions = .ok q) : p.Within q := by
  obtain ⟨type, _, hnew, rfl⟩ := declare_ok_iff.1 h
  intro name hn
  have hnone : Fields.get? type.members.reverse name = none := by
    refine Fields.get?_eq_none_iff.2 fun member hm he => ?_
    have hmember := hnew member (List.mem_reverse.1 hm)
    rw [he] at hmember
    rw [hmember] at hn
    cases hn
  rw [type_extend, get?_extend, hnone]
  exact ⟨Option.none_or .., Option.none_or ..⟩

theorem Sound.declare {definitions : Fields Json} (hp : p.Sound) (h : p.declare definitions = .ok q) : q.Sound := by
  obtain ⟨type, _, _, rfl⟩ := declare_ok_iff.1 h
  exact hp.extend _

@[simp] theorem type_store (p : Package) (name : String) (value : Value) : (p.store name value).type = p.type := rfl

theorem get?_store (p : Package) (name other : String) (value : Value) :
    (p.store name value).get? other = if other = name then some value else p.get? other :=
  Fields.get?_put ..

/-- A value of a declared property may be stored. -/
theorem Sound.store (h : p.Sound) {name : String} (hn : (p.type.get? name).isSome = true) (value : Value) :
    (p.store name value).Sound := by
  intro other
  rw [get?_store, type_store]
  split
  · rename_i he
    rw [he, hn]
    rfl
  · exact h other

theorem check_ok_iff {name : String} {json : Json} {value : Value} :
    p.check name json = .ok value ↔ ∃ type, p.type.get? name = some type ∧ type.convert json = .ok value := by
  unfold check
  cases p.type.get? name with
  | none => simp
  | some type => simp

theorem checkAll_ok_iff {given : List (String × Json)} {values : List (String × Value)} :
    p.checkAll given = .ok values ↔
      List.Forall₂ (fun g v => v.1 = g.1 ∧ p.check g.1 g.2 = .ok v.2) given values := by
  induction given generalizing values with
  | nil =>
    rw [List.forall₂_nil_left_iff]
    exact ⟨fun h => (Except.ok.inj h).symm, fun h => h ▸ rfl⟩
  | cons g rest ih =>
    obtain ⟨name, json⟩ := g
    rw [checkAll, Fault.bind_ok_iff, List.forall₂_cons_left_iff]
    constructor
    · rintro ⟨v, hv, h⟩
      obtain ⟨vs, hvs, h⟩ := Fault.bind_ok_iff.1 h
      exact ⟨(name, v), vs, ⟨rfl, hv⟩, ih.1 hvs, (Except.ok.inj h).symm⟩
    · rintro ⟨⟨name', v⟩, vs, ⟨rfl, hv⟩, hvs, rfl⟩
      exact ⟨v, hv, Fault.bind_ok_iff.2 ⟨vs, ih.2 hvs, rfl⟩⟩

/-- Values that are checked are made of what is given, as values of declared properties. -/
theorem typed_of_checkAll {given : List (String × Json)} {values : List (String × Value)}
    (h : p.checkAll given = .ok values) :
    ∀ v ∈ values, ∃ type json, (v.1, json) ∈ given ∧ p.type.get? v.1 = some type ∧ type.convert json = .ok v.2 := by
  intro v hv
  induction checkAll_ok_iff.1 h with
  | nil => cases hv
  | @cons g w gs ws hw hrest ih =>
    rcases List.mem_cons.1 hv with rfl | hv
    · obtain ⟨type, htype, hconvert⟩ := check_ok_iff.1 hw.2
      exact ⟨type, g.2, by rw [hw.1]; exact List.mem_cons_self, by rw [hw.1, htype], hconvert⟩
    · obtain ⟨type, json, hm, htype, hconvert⟩ := ih (checkAll_ok_iff.2 hrest) hv
      exact ⟨type, json, List.mem_cons_of_mem _ hm, htype, hconvert⟩

theorem Sound.storeAll (h : p.Sound) {values : List (String × Value)}
    (hv : ∀ v ∈ values, (p.type.get? v.1).isSome = true) : (p.storeAll values).Sound := by
  induction values generalizing p with
  | nil => exact h
  | cons v rest ih =>
    exact ih (h.store (hv v List.mem_cons_self) v.2) fun w hw => hv w (List.mem_cons_of_mem _ hw)

end Package

/-! ## Stores -/

namespace Store

variable {s s' : Store}

/-- The type of a property. -/
def property? (s : Store) (package property : String) : Option Property :=
  (s.packages.get? package).bind (·.type.get? property)

/-- The value of a property. -/
def value? (s : Store) (package property : String) : Option Value :=
  (s.packages.get? package).bind (·.get? property)

/-- A property is declared. -/
def Declares (s : Store) (package property : String) : Prop :=
  (s.property? package property).isSome = true

/-- The properties with a value are those that are declared. -/
def Sound (s : Store) : Prop :=
  ∀ name p, s.packages.get? name = some p → p.Sound

theorem sound_empty : empty.Sound := fun _ _ h => by cases h

theorem Sound.isSome_value? (h : s.Sound) (package property : String) :
    (s.value? package property).isSome = (s.property? package property).isSome := by
  unfold value? property?
  cases hp : s.packages.get? package with
  | none => rfl
  | some p => exact h package p hp property

/-- The packages stand in order, and none of them has an empty name. -/
structure Formed (packages : Fields Package) : Prop where
  sorted : packages.Sorted
  named : packages.get? "" = none

section Formed

variable {packages packages' : Fields Package}

theorem formed_empty : Formed empty.packages := ⟨Fields.sorted_nil, rfl⟩

theorem Formed.ne_empty (h : Formed packages) {name : String} {p : Package} (hp : packages.get? name = some p) :
    name ≠ "" := by
  rintro rfl
  rw [h.named] at hp
  cases hp

theorem Formed.put_package (h : Formed packages) {name : String} (hname : name ≠ "") (p : Package) :
    Formed (packages.put name p) := by
  constructor
  · exact h.sorted.put name p
  · rw [Fields.get?_put_of_ne hname.symm, h.named]

end Formed

/-! ## Loads -/

theorem propertiesOf_spec {name : String} {json : Json} {fields : Fields Json}
    (h : propertiesOf name json = .ok fields) : name ≠ "" ∧ json = .object fields := by
  unfold propertiesOf at h
  split at h
  · cases h
  · rename_i hname
    cases json with
    | object properties =>
      obtain rfl := Except.ok.inj h
      exact ⟨hname, rfl⟩
    | _ => cases h

theorem packagesOf_ok_iff {json : Json} {packages : Fields Json} :
    packagesOf json = .ok packages ↔ json = .object packages := by
  cases json with
  | object fields => exact ⟨fun h => by rw [Except.ok.inj h], fun h => by rw [Json.object.inj h]; rfl⟩
  | _ =>
    refine ⟨fun h => ?_, fun h => ?_⟩
    · cases h
    · cases h

/-- Packages are changed one after the other, each into what `act` makes of it, if it is there, and of what is given
for it. -/
inductive Walk (act : String → Option Package → Json → Package → Prop) :
    Fields Package → List (String × Json) → Fields Package → Prop
  | nil {packages : Fields Package} : Walk act packages [] packages
  | cons {packages packages' : Fields Package} {name : String} {json : Json} {p : Package}
      {rest : List (String × Json)} (h : act name (packages.get? name) json p)
      (hrest : Walk act (packages.put name p) rest packages') : Walk act packages ((name, json) :: rest) packages'

section Walk

variable {act : String → Option Package → Json → Package → Prop} {packages packages' : Fields Package}
  {given : List (String × Json)}

/-- What every change of a package keeps, all packages keep. -/
theorem Walk.forall_package {I : String → Package → Prop} (h : Walk act packages given packages')
    (hact : ∀ name p? json q, act name p? json q → (∀ p, p? = some p → I name p) → I name q)
    (hI : ∀ name p, packages.get? name = some p → I name p) : ∀ name p, packages'.get? name = some p → I name p := by
  induction h with
  | nil => exact hI
  | @cons packages packages' n json q rest hq hrest ih =>
    refine ih fun name p hp => ?_
    rw [Fields.get?_put] at hp
    split at hp
    · rename_i he
      obtain rfl := Option.some.inj hp
      obtain rfl := he
      exact hact _ _ json _ hq fun p hp => hI _ p hp
    · exact hI name p hp

theorem Walk.formed (h : Walk act packages given packages') (hact : ∀ name p? json q, act name p? json q → name ≠ "")
    (hp : Formed packages) : Formed packages' := by
  induction h with
  | nil => exact hp
  | @cons packages packages' n json q rest hq hrest ih => exact ih (hp.put_package (hact n _ json q hq) q)

/-- Of names in order each is changed once, and the others not at all. -/
theorem Walk.get? (h : Walk act packages given packages') (hs : Fields.Sorted given) (name : String) :
    (Fields.get? given name = none → packages'.get? name = packages.get? name) ∧
      ∀ json, Fields.get? given name = some json →
        ∃ q, act name (packages.get? name) json q ∧ packages'.get? name = some q := by
  induction h with
  | nil => exact ⟨fun _ => rfl, fun json hj => by cases hj⟩
  | @cons packages packages' n json q rest hq hrest ih =>
    obtain ⟨hkept, hchanged⟩ := ih hs.tail
    rw [Fields.get?_cons]
    by_cases he : name = n
    · obtain rfl := he
      refine ⟨fun hn => ?_, fun json' hj => ?_⟩
      · rw [if_pos rfl] at hn
        cases hn
      · rw [if_pos rfl] at hj
        obtain rfl := Option.some.inj hj
        refine ⟨q, hq, ?_⟩
        rw [hkept hs.get?_tail, Fields.get?_put_self]
    · rw [if_neg he]
      rw [Fields.get?_put_of_ne he] at hkept hchanged
      exact ⟨hkept, hchanged⟩

end Walk

/-- A package declares what is given for it; it may be new. -/
def DeclaresIn (name : String) (p? : Option Package) (json : Json) (q : Package) : Prop :=
  ∃ fields, name ≠ "" ∧ json = .object fields ∧ (p?.getD (.empty name)).declare fields = .ok q

theorem walk_declareAll {definitions : List (String × Json)} {packages packages' : Fields Package}
    (h : declareAll packages definitions = .ok packages') : Walk DeclaresIn packages definitions packages' := by
  induction definitions generalizing packages with
  | nil =>
    obtain rfl := Except.ok.inj h
    exact .nil
  | cons d rest ih =>
    obtain ⟨name, json⟩ := d
    rw [declareAll] at h
    obtain ⟨fields, hfields, h⟩ := Fault.bind_ok_iff.1 h
    obtain ⟨q, hq, h⟩ := Fault.bind_ok_iff.1 h
    obtain ⟨hname, hjson⟩ := propertiesOf_spec hfields
    exact .cons ⟨fields, hname, hjson, hq⟩ (ih h)

/-- A package stays within what it becomes. -/
theorem Walk.within {definitions : List (String × Json)} {packages packages' : Fields Package}
    (h : Walk DeclaresIn packages definitions packages') {name : String} {p : Package}
    (hp : packages.get? name = some p) : ∃ q, packages'.get? name = some q ∧ p.Within q := by
  induction h generalizing p with
  | nil => exact ⟨p, hp, .refl p⟩
  | @cons packages packages' n json q rest hq hrest ih =>
    by_cases he : name = n
    · obtain rfl := he
      obtain ⟨r, hr, hqr⟩ := ih (Fields.get?_put_self ..)
      obtain ⟨fields, _, _, hdeclare⟩ := hq
      rw [hp] at hdeclare
      exact ⟨r, hr, (Package.within_declare hdeclare).trans hqr⟩
    · exact ih ((Fields.get?_put_of_ne he ..).trans hp)

theorem load_ok_iff {json : Json} {category : String} :
    s.load json category = .ok s' ↔ category ≠ "" ∧ ∃ definitions, packagesOf json = .ok definitions ∧
      declareAll s.packages definitions = .ok s'.packages ∧ s'.categories = s.categories.put category () := by
  unfold load
  split
  · rename_i he
    exact ⟨fun h => (by cases h), fun h => absurd he h.1⟩
  · rename_i hne
    rw [Fault.bind_ok_iff]
    refine ⟨fun ⟨definitions, hd, h⟩ => ?_, fun ⟨_, definitions, hd, hp, hc⟩ => ⟨definitions, hd, ?_⟩⟩
    · obtain ⟨packages, hp, h⟩ := Fault.bind_ok_iff.1 h
      obtain rfl := Except.ok.inj h
      exact ⟨hne, definitions, hd, hp, rfl⟩
    · refine Fault.bind_ok_iff.2 ⟨s'.packages, hp, ?_⟩
      rw [← hc]
      rfl

/-- **A load that is accepted leaves every declared property its type and its value.** -/
theorem load_spec {json : Json} {category : String} (h : s.load json category = .ok s') {package property : String}
    (hd : s.Declares package property) :
    s'.property? package property = s.property? package property ∧
      s'.value? package property = s.value? package property := by
  obtain ⟨_, definitions, _, hall, _⟩ := load_ok_iff.1 h
  unfold Declares property? at hd
  unfold property? value?
  cases hp : s.packages.get? package with
  | none =>
    rw [hp] at hd
    cases hd
  | some p =>
    rw [hp] at hd
    obtain ⟨q, hq, hwithin⟩ := (walk_declareAll hall).within hp
    rw [hq]
    exact hwithin property hd

theorem Sound.load {json : Json} {category : String} (hs : s.Sound) (h : s.load json category = .ok s') : s'.Sound := by
  obtain ⟨_, definitions, _, hall, _⟩ := load_ok_iff.1 h
  refine (walk_declareAll hall).forall_package (fun name p? json q hq hp => ?_) hs
  obtain ⟨fields, _, _, hdeclare⟩ := hq
  refine Package.Sound.declare ?_ hdeclare
  cases p? with
  | none => exact Package.sound_empty name
  | some p => exact hp p rfl

theorem Formed.load {json : Json} {category : String} (hs : Formed s.packages)
    (h : s.load json category = .ok s') : Formed s'.packages := by
  obtain ⟨_, definitions, _, hall, _⟩ := load_ok_iff.1 h
  exact (walk_declareAll hall).formed (fun _ _ _ _ ⟨_, hname, _⟩ => hname) hs

/-! ## Initial values -/

/-- A package that is there stores what is given for it. -/
def StoresIn (name : String) (p? : Option Package) (json : Json) (q : Package) : Prop :=
  ∃ fields p, name ≠ "" ∧ json = .object fields ∧ p? = some p ∧ p.setAll fields = .ok q

theorem walk_presetAll {given : List (String × Json)} {packages packages' : Fields Package}
    (h : presetAll packages given = .ok packages') : Walk StoresIn packages given packages' := by
  induction given generalizing packages with
  | nil =>
    obtain rfl := Except.ok.inj h
    exact .nil
  | cons g rest ih =>
    obtain ⟨name, json⟩ := g
    rw [presetAll] at h
    obtain ⟨fields, hfields, h⟩ := Fault.bind_ok_iff.1 h
    obtain ⟨hname, hjson⟩ := propertiesOf_spec hfields
    cases hp : packages.get? name with
    | none =>
      rw [hp] at h
      cases h
    | some p =>
      rw [hp] at h
      obtain ⟨q, hq, h⟩ := Fault.bind_ok_iff.1 h
      exact .cons ⟨fields, p, hname, hjson, hp, hq⟩ (ih h)

theorem walk_preset {json : Json} (h : s.preset json = .ok s') :
    ∃ given, json = .object given ∧ Walk StoresIn s.packages given s'.packages ∧ s'.categories = s.categories := by
  obtain ⟨given, hgiven, h⟩ := Fault.bind_ok_iff.1 h
  obtain ⟨packages, hp, h⟩ := Fault.bind_ok_iff.1 h
  obtain rfl := Except.ok.inj h
  exact ⟨given, packagesOf_ok_iff.1 hgiven, walk_presetAll hp, rfl⟩

theorem Sound.preset {json : Json} (hs : s.Sound) (h : s.preset json = .ok s') : s'.Sound := by
  obtain ⟨given, _, hwalk, _⟩ := walk_preset h
  refine hwalk.forall_package (fun name p? json q hq hp => ?_) hs
  obtain ⟨fields, p, _, _, hsome, hset⟩ := hq
  obtain ⟨values, hvalues, hset⟩ := Fault.bind_ok_iff.1 hset
  obtain rfl := Except.ok.inj hset
  refine (hp p hsome).storeAll fun v hv => ?_
  obtain ⟨type, _, _, htype, _⟩ := Package.typed_of_checkAll hvalues v hv
  rw [htype]
  rfl

theorem Formed.preset {json : Json} (hs : Formed s.packages) (h : s.preset json = .ok s') :
    Formed s'.packages := by
  obtain ⟨given, _, hwalk, _⟩ := walk_preset h
  exact hwalk.formed (fun _ _ _ _ ⟨_, _, hname, _⟩ => hname) hs

end Store

end Capability
