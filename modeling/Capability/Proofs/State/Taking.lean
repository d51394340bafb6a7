import Capability.Proofs.Schema.Reading
import Capability.Proofs.State.Names

/-!
# What the store takes from a tree

An accepted load declares the properties that its tree defines, each of the type of its definition and with the initial
value of that type (`Store.gains_load`). Setting values gives each property that is named the value that its type makes
of the JSON value given for it, whether one property is set (`Store.takes_set`), several (`Store.takes_setAll`), or
several that are not recorded as a change (`Store.takes_preset`). All other properties stay as they are.

* `Call.store_of_accepted`: an accepted call of live state does one or the other.
-/

namespace Capability

/-! ## Packages -/

namespace Package

variable {p q : Package}

/-- The second package has the properties of the first one and those that are defined, which are new. -/
structure Gains (p : Package) (definitions : Fields Json) (q : Package) : Prop where
  kept : ∀ name, definitions.get? name = none → q.type.get? name = p.type.get? name ∧ q.get? name = p.get? name
  new : ∀ name json, definitions.get? name = some json → p.type.get? name = none ∧
    ∃ type, Property.ofJson none json = .ok type ∧ q.type.get? name = some type ∧ q.get? name = some type.initial

/-- The second package has the types of the first one, and the values that these make of what is given. -/
structure Takes (p : Package) (given : Fields Json) (q : Package) : Prop where
  type : q.type = p.type
  kept : ∀ name, given.get? name = none → q.get? name = p.get? name
  taken : ∀ name json, given.get? name = some json →
    ∃ type value, p.type.get? name = some type ∧ type.convert json = .ok value ∧ q.get? name = some value

theorem gains_declare {definitions : Fields Json} (hs : definitions.Sorted) (h : p.declare definitions = .ok q) :
    p.Gains definitions q := by
  obtain ⟨type, htype, hnew, rfl⟩ := declare_ok_iff.1 h
  have hnames := ObjectType.names_ofFields htype
  obtain ⟨properties, hproperties, htype⟩ := Fault.bind_ok_iff.1 htype
  obtain rfl := Except.ok.inj htype
  have hread := ObjectType.ofMembers_ok_iff.1 hproperties
  have hsorted : Fields.Sorted properties := hs.of_names hnames
  have hfound := Fields.rel_get?
    (R := fun name json member => Property.ofJson ((none : Option ObjectType).bind (·.get? name)) json = .ok member)
    hread
  have htypes := type_extend p properties
  have hvalues := get?_extend p properties
  simp only [hsorted.get?_reverse] at htypes hvalues
  constructor
  · intro name hn
    have hname := hfound name
    rw [hn] at hname
    rw [ObjectType.members, htypes, hvalues]
    cases hget : Fields.get? properties name with
    | none => exact ⟨Option.none_or .., Option.none_or ..⟩
    | some member =>
      rw [hget] at hname
      cases hname
  · intro name json hj
    have hname := hfound name
    rw [hj] at hname
    rw [ObjectType.members, htypes, hvalues]
    cases hget : Fields.get? properties name with
    | none =>
      rw [hget] at hname
      cases hname
    | some member =>
      rw [hget] at hname
      cases hname with
      | some hmember => exact ⟨hnew _ (Fields.mem_of_get? hget), member, hmember, rfl, rfl⟩

theorem takes_setAll {given : Fields Json} (hs : given.Sorted) (h : p.setAll given = .ok q) : p.Takes given q := by
  obtain ⟨values, hvalues, h⟩ := Fault.bind_ok_iff.1 h
  obtain rfl := Except.ok.inj h
  have hchecked := checkAll_ok_iff.1 hvalues
  have hsorted : Fields.Sorted values :=
    hs.of_names (Fields.names_of_forall₂ (R := fun name json v => p.check name json = .ok v) hchecked)
  have hfound := Fields.rel_get? (R := fun name json v => p.check name json = .ok v) hchecked
  have hget : ∀ name, (p.storeAll values).get? name = (Fields.get? values name).or (p.get? name) :=
    fun name => hsorted.get?_merge p.values name
  constructor
  · rfl
  · intro name hn
    have hname := hfound name
    rw [hn] at hname
    rw [hget]
    cases hv : Fields.get? values name with
    | none => exact Option.none_or ..
    | some v =>
      rw [hv] at hname
      cases hname
  · intro name json hj
    have hname := hfound name
    rw [hj] at hname
    rw [hget]
    cases hv : Fields.get? values name with
    | none =>
      rw [hv] at hname
      cases hname
    | some v =>
      rw [hv] at hname
      cases hname with
      | some hcheck =>
        obtain ⟨type, htype, hconvert⟩ := check_ok_iff.1 hcheck
        exact ⟨type, v, htype, hconvert, rfl⟩

end Package

/-! ## Stores -/

namespace Store

variable {s s' : Store}

/-- The second store has the properties of the first one and those that are defined, which are new. -/
structure Gains (s : Store) (definition? : String → String → Option Json) (s' : Store) : Prop where
  kept : ∀ package property, definition? package property = none →
    s'.property? package property = s.property? package property ∧
      s'.value? package property = s.value? package property
  new : ∀ package property json, definition? package property = some json → s.property? package property = none ∧
    ∃ type, Property.ofJson none json = .ok type ∧ s'.property? package property = some type ∧
      s'.value? package property = some type.initial

/-- The second store has the types of the first one, and the values that these make of what is given. -/
structure Takes (s : Store) (given? : String → String → Option Json) (s' : Store) : Prop where
  property? : ∀ package property, s'.property? package property = s.property? package property
  kept : ∀ package property, given? package property = none →
    s'.value? package property = s.value? package property
  taken : ∀ package property json, given? package property = some json →
    ∃ type value, s.property? package property = some type ∧ type.convert json = .ok value ∧
      s'.value? package property = some value

/-! ## Loads -/

theorem property?_eq_getD (s : Store) (package property : String) :
    s.property? package property = ((s.packages.get? package).getD (.empty package)).type.get? property := by
  unfold property?
  cases s.packages.get? package <;> rfl

theorem value?_eq_getD (s : Store) (package property : String) :
    s.value? package property = ((s.packages.get? package).getD (.empty package)).get? property := by
  unfold value?
  cases s.packages.get? package <;> rfl

/-- **An accepted load declares the properties that its tree defines**, and leaves all others as they are. -/
theorem gains_load {json : Json} {category : String} (hs : json.Sorted) (h : s.load json category = .ok s') :
    s.Gains json.property? s' := by
  obtain ⟨_, definitions, hdefinitions, hall, _⟩ := load_ok_iff.1 h
  obtain rfl := packagesOf_ok_iff.1 hdefinitions
  have hwalk := (walk_declareAll hall).get? hs.1
  -- a package with definitions gains them, whether it is new or not
  have hgains : ∀ package fields, Fields.get? definitions package = some (.object fields) →
      ((s.packages.get? package).getD (.empty package)).Gains fields
        ((s'.packages.get? package).getD (.empty package)) := by
    intro package fields hfields
    obtain ⟨q, ⟨fields', _, he, hdeclare⟩, hq⟩ := (hwalk package).2 _ hfields
    obtain rfl := Json.object.inj he
    have hsorted : (Json.object fields).Sorted := Json.sortedFields_iff.1 hs.2 _ (Fields.mem_of_get? hfields)
    rw [hq]
    exact Package.gains_declare hsorted.1 hdeclare
  constructor
  · intro package property hn
    rw [property?_eq_getD, property?_eq_getD, value?_eq_getD, value?_eq_getD]
    cases hd : Fields.get? definitions package with
    | none => rw [(hwalk package).1 hd]; exact ⟨rfl, rfl⟩
    | some json =>
      obtain ⟨q, ⟨fields, _, rfl, _⟩, _⟩ := (hwalk package).2 json hd
      rw [Json.property?_of_get? hd] at hn
      exact (hgains package fields hd).kept property hn
  · intro package property json hj
    obtain ⟨_, fields, he, hpackage, hproperty⟩ := Json.property?_eq_some_iff.1 hj
    obtain rfl := Json.object.inj he
    rw [property?_eq_getD, property?_eq_getD, value?_eq_getD]
    exact (hgains package fields hpackage).new property json hproperty

/-! ## Values -/

/-- **Values that are set without a change are taken from the tree**, and all others stay. -/
theorem takes_preset {json : Json} (hs : json.Sorted) (h : s.preset json = .ok s') : s.Takes json.property? s' := by
  obtain ⟨given, rfl, hpresets, _⟩ := walk_preset h
  have hwalk := hpresets.get? hs.1
  have htakes : ∀ package json, Fields.get? given package = some json → ∃ fields p q, json = .object fields ∧
      s.packages.get? package = some p ∧ s'.packages.get? package = some q ∧ p.Takes fields q := by
    intro package json hjson
    obtain ⟨q, ⟨fields, p, _, rfl, hp, hset⟩, hq⟩ := (hwalk package).2 json hjson
    have hsorted : (Json.object fields).Sorted := Json.sortedFields_iff.1 hs.2 _ (Fields.mem_of_get? hjson)
    exact ⟨fields, p, q, rfl, hp, hq, Package.takes_setAll hsorted.1 hset⟩
  constructor
  · intro package property
    unfold Store.property?
    cases hg : Fields.get? given package with
    | none => rw [(hwalk package).1 hg]
    | some json =>
      obtain ⟨fields, p, q, _, hp, hq, htake⟩ := htakes package json hg
      rw [hp, hq, Option.bind_some, Option.bind_some, htake.type]
  · intro package property hn
    unfold value?
    cases hg : Fields.get? given package with
    | none => rw [(hwalk package).1 hg]
    | some json =>
      obtain ⟨fields, p, q, rfl, hp, hq, htake⟩ := htakes package json hg
      rw [Json.property?_of_get? hg] at hn
      rw [hp, hq, Option.bind_some, Option.bind_some, htake.kept property hn]
  · intro package property json hj
    obtain ⟨_, fields, he, hpackage, hproperty⟩ := Json.property?_eq_some_iff.1 hj
    obtain rfl := Json.object.inj he
    obtain ⟨fields', p, q, he, hp, hq, htake⟩ := htakes package _ hpackage
    obtain rfl := Json.object.inj he
    unfold Store.property? value?
    rw [hp, hq]
    exact htake.taken property json hproperty

/-- Stored values are taken, if exactly the given ones are stored and each for one property. -/
theorem takes_putAll {given? : String → String → Option Json} {writes : List ((String × String) × Value)}
    (htyped : ∀ w ∈ writes, ∃ json type, given? w.1.1 w.1.2 = some json ∧ s.property? w.1.1 w.1.2 = some type ∧
      type.convert json = .ok w.2) (hnodup : (writes.map (·.1)).Nodup)
    (hall : ∀ package property json, given? package property = some json → (package, property) ∈ writes.map (·.1)) :
    s.Takes given? (s.putAll writes) := by
  have hwrites : Update.Writes ⟨s.putAll writes, Fields.ofPairs (writes.map fun w => (qualify w.1.1 w.1.2, w.2.toJson))⟩
      s writes := by
    refine ⟨fun w hw => ?_, rfl, rfl⟩
    obtain ⟨json, type, _, htype, hconvert⟩ := htyped w hw
    exact ⟨type, json, htype, hconvert⟩
  constructor
  · exact property?_putAll s writes
  · intro package property hn
    refine value?_putAll_of_not_mem hwrites.declared fun w hw he => ?_
    obtain ⟨json, _, hgiven, _⟩ := htyped w hw
    rw [he, hn] at hgiven
    cases hgiven
  · intro package property json hj
    obtain ⟨⟨_, value⟩, hw, rfl⟩ := List.mem_map.1 (hall package property json hj)
    obtain ⟨json', type, hgiven, htype, hconvert⟩ := htyped _ hw
    obtain rfl := Option.some.inj (hj.symm.trans hgiven)
    exact ⟨type, value, htype, hconvert, hwrites.value?_of_mem hnodup _ hw⟩

/-- What a qualified name and a JSON value give a property. -/
def given? (name : String) (json : Json) (package property : String) : Option Json :=
  match splitName name with
  | .ok address => if address = (package, property) then some json else none
  | .error _ => none

theorem given?_of_splitName {name : String} {address : String × String} (h : splitName name = .ok address) (json : Json)
    (package property : String) :
    given? name json package property = if address = (package, property) then some json else none := by
  unfold given?
  rw [h]

/-- **A value that is set is taken for the property of its name**, and all others stay. -/
theorem takes_set {name : String} {json : Json} {u : Update} (h : s.set name json = .ok u) :
    s.Takes (given? name json) u.store := by
  obtain ⟨package, property, type, value, hsplit, htype, hconvert, hwrites⟩ := set_spec h
  rw [hwrites.store]
  refine takes_putAll (fun w hw => ?_) (List.nodup_singleton _) fun package' property' json' hj => ?_
  · obtain rfl := List.mem_singleton.1 hw
    refine ⟨json, type, ?_, htype, hconvert⟩
    rw [given?_of_splitName hsplit, if_pos rfl]
  · rw [given?_of_splitName hsplit] at hj
    by_cases he : (package, property) = (package', property')
    · exact List.mem_singleton.2 he.symm
    · rw [if_neg he] at hj
      cases hj

theorem mem_pairs {json value : Json} {package property : String} (h : json.property? package property = some value) :
    (package, property) ∈ pairs json := by
  obtain ⟨packages, properties, rfl, hpackage, hproperty⟩ := Json.property?_eq_some_iff.1 h
  refine List.mem_flatMap.2 ⟨_, Fields.mem_of_get? hpackage, ?_⟩
  exact List.mem_map.2 ⟨_, Fields.mem_of_get? hproperty, rfl⟩

/-- The pairs of a tree in order are the properties that are found in it. -/
theorem mem_pairs_iff {json : Json} (h : json.Sorted) {package property : String} :
    (package, property) ∈ pairs json ↔ (json.property? package property).isSome = true := by
  constructor
  · intro hm
    cases json with
    | object packages =>
      obtain ⟨⟨name, properties⟩, hp, hm⟩ := List.mem_flatMap.1 hm
      obtain ⟨⟨name', value⟩, hf, he⟩ := List.mem_map.1 hm
      obtain ⟨rfl, rfl⟩ := Prod.mk.inj he
      cases properties with
      | object fields =>
        have hfields : (Json.object fields).Sorted := Json.sortedFields_iff.1 h.2 _ hp
        rw [Json.property?_of_get? (h.1.get?_of_mem hp), hfields.1.get?_of_mem hf]
        rfl
      | _ => cases hf
    | _ => cases hm
  · intro hsome
    obtain ⟨value, hvalue⟩ := Option.isSome_iff_exists.1 hsome
    exact mem_pairs hvalue

theorem takes_checkAll {given : Fields Json} {writes : List ((String × String) × Value)}
    (hs : (Json.object given).Sorted) (h : s.checkAll given = .ok writes) :
    s.Takes (Json.object given).property? (s.putAll writes) := by
  have hpairs : writes.map (·.1) = pairs (.object given) := pairs_of_checkAll h
  refine takes_putAll (fun w hw => ?_) ?_ fun package property json hj => ?_
  · obtain ⟨fields, json, type, hpackage, hproperty, htype, hconvert⟩ := checkAll_spec h w hw
    have hfields : (Json.object fields).Sorted := Json.sortedFields_iff.1 hs.2 _ hpackage
    refine ⟨json, type, ?_, htype, hconvert⟩
    rw [Json.property?_of_get? (hs.1.get?_of_mem hpackage), hfields.1.get?_of_mem hproperty]
  · rw [hpairs]
    exact nodup_pairs hs
  · rw [hpairs]
    exact mem_pairs hj

/-- **Several values that are set are taken from the tree**, and all others stay. -/
theorem takes_setAll {json : Json} {u? : Option Update} (hs : json.Sorted) (h : s.setAll json = .ok u?) :
    s.Takes json.property? ((u?.map Update.store).getD s) := by
  obtain ⟨given, writes, rfl, hwrites, ⟨rfl, rfl⟩ | ⟨_, rfl⟩⟩ := setAll_cases h
  · exact takes_checkAll hs hwrites
  · exact takes_checkAll hs hwrites

end Store

/-! ## Calls -/

namespace Call

variable {κ ω : Type}

/-- In the trees that the call gives to the store the names are in order. -/
def Sorted : Call κ → Prop
  | .load json _ | .preset json | .set _ _ json | .setAll _ json => json.Sorted
  | _ => True

/-- The definition that the call gives a property. -/
def definition? (c : Call κ) (package property : String) : Option Json :=
  match c with
  | .load json _ => json.property? package property
  | _ => none

/-- The JSON value that the call gives a property. -/
def given? (c : Call κ) (package property : String) : Option Json :=
  match c with
  | .preset json | .setAll _ json => json.property? package property
  | .set _ name json => Store.given? name json package property
  | _ => none

/-- Whether the call is accepted. -/
def accepted (onChange : Reaction κ ω) (s : Session κ ω) : Call κ → Bool
  | .load json category => (s.live.load json category).isOk
  | .preset json => (s.live.preset json).isOk
  | .set time name json => (s.live.set onChange time name json s.world).isOk
  | .setAll time json => (s.live.setAll onChange time json s.world).isOk
  | _ => true

section Perform

variable {onChange : Reaction κ ω} {onAcknowledged : Nat → Reaction κ ω} {s : Session κ ω} {c : Call κ}

theorem perform_of_refused (h : c.accepted onChange s = false) : c.perform onChange onAcknowledged s = s := by
  cases c with
  | load json category =>
    obtain ⟨e, he⟩ := Fault.isOk_eq_false_iff.1 h
    rw [perform, he]
  | preset json =>
    obtain ⟨e, he⟩ := Fault.isOk_eq_false_iff.1 h
    rw [perform, he]
  | set time name json =>
    obtain ⟨e, he⟩ := Fault.isOk_eq_false_iff.1 h
    rw [perform, he]
  | setAll time json =>
    obtain ⟨e, he⟩ := Fault.isOk_eq_false_iff.1 h
    rw [perform, he]
  | _ => cases h

/-- **An accepted call declares the properties that it defines, or stores what it gives.** -/
theorem store_of_accepted (onAcknowledged : Nat → Reaction κ ω) (hs : c.Sorted) (h : c.accepted onChange s = true) :
    (s.live.store.Gains c.definition? (c.perform onChange onAcknowledged s).live.store ∧
        ∀ package property, c.given? package property = none) ∨
      (s.live.store.Takes c.given? (c.perform onChange onAcknowledged s).live.store ∧
        ∀ package property, c.definition? package property = none) := by
  -- a call that names no property leaves the store as it is
  have hnone : (c.perform onChange onAcknowledged s).live.store = s.live.store →
      (∀ package property, c.given? package property = none) →
        s.live.store.Takes c.given? (c.perform onChange onAcknowledged s).live.store := by
    intro hstore hgiven
    rw [hstore]
    refine ⟨fun _ _ => rfl, fun _ _ _ => rfl, fun package property json hj => ?_⟩
    rw [hgiven] at hj
    cases hj
  cases c with
  | load json category =>
    obtain ⟨live, hload⟩ := Fault.isOk_iff.1 h
    rw [perform, hload]
    obtain ⟨store, hstore, hload⟩ := Fault.bind_ok_iff.1 hload
    obtain rfl := Except.ok.inj hload
    exact .inl ⟨Store.gains_load hs hstore, fun _ _ => rfl⟩
  | preset json =>
    obtain ⟨live, hpreset⟩ := Fault.isOk_iff.1 h
    rw [perform, hpreset]
    obtain ⟨store, hstore, hpreset⟩ := Fault.bind_ok_iff.1 hpreset
    obtain rfl := Except.ok.inj hpreset
    exact .inr ⟨Store.takes_preset hs hstore, fun _ _ => rfl⟩
  | set time name json =>
    obtain ⟨run, hset⟩ := Fault.isOk_iff.1 h
    rw [perform, hset]
    obtain ⟨u, hu, hset⟩ := Fault.bind_ok_iff.1 hset
    obtain rfl := Except.ok.inj hset
    refine .inr ⟨?_, fun _ _ => rfl⟩
    show s.live.store.Takes _ (s.live.commit onChange time u s.world).1.store
    rw [LiveState.store_commit]
    exact Store.takes_set hu
  | setAll time json =>
    obtain ⟨run?, hset⟩ := Fault.isOk_iff.1 h
    rw [perform, hset]
    obtain ⟨u?, hu, hset⟩ := Fault.bind_ok_iff.1 hset
    obtain rfl := Except.ok.inj hset
    refine .inr ⟨?_, fun _ _ => rfl⟩
    have htakes := Store.takes_setAll hs hu
    cases u? with
    | none => exact htakes
    | some u =>
      show s.live.store.Takes _ (s.live.commit onChange time u s.world).1.store
      rw [LiveState.store_commit]
      exact htakes
  | acknowledge id => exact .inr ⟨hnone (LiveState.each_call ..).1 fun _ _ => rfl, fun _ _ => rfl⟩
  | _ => exact .inr ⟨hnone rfl fun _ _ => rfl, fun _ _ => rfl⟩

end Perform

end Call

end Capability
