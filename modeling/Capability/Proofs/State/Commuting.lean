import Capability.Proofs.State.Taking

/-!
# Loads in either order

A load declares the properties of a tree one package after the other. What one package of definitions declares is there
for the next only to be refused a second time, so two of them may change places (`Store.Declaring.exchange`) and the
definitions of a load may come in any order (`Store.declareAll_perm`). Those of two loads are together the definitions
of one.

* `Store.accepts_append_iff`: the definitions of two loads are accepted together just if they are accepted apart and no
  property is defined in both.
* `Session.Reachable.load_comm`: two loads of a session may change places.
-/

namespace Capability

/-! ## Packages -/

namespace Package

variable {p q r : Package} {definitions others : Fields Json}

/-- The properties and their values stand in order. -/
structure Ordered (p : Package) : Prop where
  members : p.type.members.Sorted
  values : p.values.Sorted

theorem ordered_empty (name : String) : (empty name).Ordered :=
  ⟨Fields.sorted_nil, Fields.sorted_nil⟩

theorem Ordered.extend (h : p.Ordered) (properties : Fields Property) : (p.extend properties).Ordered :=
  ⟨h.members.merge _, h.values.merge _⟩

theorem Ordered.declare (hp : p.Ordered) (h : p.declare definitions = .ok q) : q.Ordered := by
  obtain ⟨type, _, _, rfl⟩ := declare_ok_iff.1 h
  exact hp.extend _

theorem Ordered.store (h : p.Ordered) (name : String) (value : Value) : (p.store name value).Ordered :=
  ⟨h.members, h.values.put name value⟩

theorem Ordered.setAll {given : Fields Json} (hp : p.Ordered) (h : p.setAll given = .ok q) : q.Ordered := by
  obtain ⟨values, _, h⟩ := Fault.bind_ok_iff.1 h
  obtain rfl := Except.ok.inj h
  exact ⟨hp.members, hp.values.merge values⟩

/-- Properties under different names may be added in either order. -/
theorem Ordered.extend_comm (h : p.Ordered) {a b : Fields Property} (hab : a.names.Disjoint b.names) :
    (p.extend a).extend b = (p.extend b).extend a := by
  have hmembers : (p.type.members.merge a).merge b = (p.type.members.merge b).merge a := h.members.merge_comm hab
  have hvalues : (p.values.merge (a.mapValues Property.initial)).merge (b.mapValues Property.initial) =
      (p.values.merge (b.mapValues Property.initial)).merge (a.mapValues Property.initial) := by
    refine h.values.merge_comm ?_
    rw [Fields.names_mapValues, Fields.names_mapValues]
    exact hab
  unfold Package.extend
  simp only [Property.initialMembers_eq_mapValues]
  rw [hvalues]
  exact congrArg (fun members => Package.mk p.name ⟨members, p.type.isOpen⟩ _) hmembers

/-- Definitions are accepted of new properties alone, and make these no longer new. -/
theorem new_declare (h : p.declare definitions = .ok q) :
    (∀ name ∈ definitions.names, p.type.get? name = none) ∧
      ∀ name, q.type.get? name = none ↔ p.type.get? name = none ∧ name ∉ definitions.names := by
  obtain ⟨type, htype, hnew, rfl⟩ := declare_ok_iff.1 h
  rw [← ObjectType.names_ofFields htype]
  refine ⟨fun name hname => ?_, fun name => ?_⟩
  · obtain ⟨member, hmember, rfl⟩ := List.mem_map.1 hname
    exact hnew member hmember
  · rw [type_extend, Option.or_eq_none_iff, Fields.get?_reverse_eq_none_iff, and_comm]

/-- Definitions that one package accepts are accepted by another where their properties are new. -/
theorem exists_declare (h : p.declare definitions = .ok q)
    (hnew : ∀ name ∈ definitions.names, r.type.get? name = none) : ∃ q', r.declare definitions = .ok q' := by
  obtain ⟨type, htype, _, rfl⟩ := declare_ok_iff.1 h
  rw [← ObjectType.names_ofFields htype] at hnew
  exact ⟨r.extend type.members, declare_ok_iff.2
    ⟨type, htype, fun member hmember => hnew member.1 (List.mem_map_of_mem hmember), rfl⟩⟩

/-- **What is declared later may be declared first.** -/
theorem Ordered.declare_comm (hp : p.Ordered) (hq : p.declare definitions = .ok q) (hr : q.declare others = .ok r) :
    ∃ q', p.declare others = .ok q' ∧ q'.declare definitions = .ok r := by
  obtain ⟨hnew, hkept⟩ := new_declare hq
  have hfresh : ∀ name ∈ others.names, p.type.get? name = none ∧ name ∉ definitions.names :=
    fun name hname => (hkept name).1 ((new_declare hr).1 name hname)
  obtain ⟨q', hq'⟩ := exists_declare hr fun name hname => (hfresh name hname).1
  obtain ⟨r', hr'⟩ := exists_declare hq fun name hname =>
    ((new_declare hq').2 name).2 ⟨hnew name hname, fun hother => (hfresh name hother).2 hname⟩
  refine ⟨q', hq', ?_⟩
  rw [hr']
  -- both orders add the same properties
  obtain ⟨type, htype, _, rfl⟩ := declare_ok_iff.1 hq
  obtain ⟨type', htype', _, rfl⟩ := declare_ok_iff.1 hr
  obtain ⟨_, ht', _, rfl⟩ := declare_ok_iff.1 hq'
  obtain ⟨_, ht, _, rfl⟩ := declare_ok_iff.1 hr'
  obtain rfl := Except.ok.inj (htype.symm.trans ht)
  obtain rfl := Except.ok.inj (htype'.symm.trans ht')
  refine congrArg Except.ok (hp.extend_comm ?_)
  rw [ObjectType.names_ofFields htype, ObjectType.names_ofFields htype']
  exact fun name hname hdef => (hfresh name hname).2 hdef

end Package

/-! ## Packages of definitions -/

namespace Store

variable {packages packages' next : Fields Package}

/-- The packages stand in order, and so do their properties. -/
structure Ordered (packages : Fields Package) : Prop where
  sorted : packages.Sorted
  package : ∀ name p, packages.get? name = some p → p.Ordered

/-- The package with a name, which may be new. -/
def packageOf (packages : Fields Package) (name : String) : Package :=
  (packages.get? name).getD (.empty name)

theorem packageOf_put_self (packages : Fields Package) (name : String) (p : Package) :
    packageOf (packages.put name p) name = p := by
  rw [packageOf, Fields.get?_put_self]
  rfl

theorem packageOf_put_of_ne (packages : Fields Package) {name other : String} (hne : other ≠ name) (p : Package) :
    packageOf (packages.put name p) other = packageOf packages other := by
  rw [packageOf, Fields.get?_put_of_ne hne]
  rfl

theorem Ordered.packageOf (h : Ordered packages) (name : String) : (packageOf packages name).Ordered := by
  unfold Store.packageOf
  cases hp : packages.get? name with
  | none => exact Package.ordered_empty name
  | some p => exact h.package name p hp

theorem Ordered.put (h : Ordered packages) (name : String) {p : Package} (hp : p.Ordered) :
    Ordered (packages.put name p) := by
  refine ⟨h.sorted.put name p, fun other q hq => ?_⟩
  rw [Fields.get?_put] at hq
  split at hq
  · obtain rfl := Option.some.inj hq
    exact hp
  · exact h.package other q hq

/-- What one package of definitions does to the packages. -/
def Declaring (packages : Fields Package) (d : String × Json) (next : Fields Package) : Prop :=
  ∃ fields p, d.1 ≠ "" ∧ d.2 = .object fields ∧ (packageOf packages d.1).declare fields = .ok p ∧
    next = packages.put d.1 p

theorem declareAll_cons_iff {d : String × Json} {rest : List (String × Json)} :
    declareAll packages (d :: rest) = .ok packages' ↔
      ∃ next, Declaring packages d next ∧ declareAll next rest = .ok packages' := by
  obtain ⟨name, json⟩ := d
  rw [declareAll, Fault.bind_ok_iff]
  constructor
  · rintro ⟨fields, hfields, h⟩
    obtain ⟨p, hp, h⟩ := Fault.bind_ok_iff.1 h
    obtain ⟨hname, hjson⟩ := propertiesOf_spec hfields
    exact ⟨_, ⟨fields, p, hname, hjson, hp, rfl⟩, h⟩
  · rintro ⟨_, ⟨fields, p, hname, rfl, hp, rfl⟩, h⟩
    exact ⟨fields, if_neg hname, Fault.bind_ok_iff.2 ⟨p, hp, h⟩⟩

theorem Ordered.declaring {d : String × Json} (h : Ordered packages) (hd : Declaring packages d next) :
    Ordered next := by
  obtain ⟨fields, p, _, _, hp, rfl⟩ := hd
  exact h.put d.1 ((h.packageOf d.1).declare hp)

/-- **Two packages of definitions may change places.** -/
theorem Declaring.exchange (h : Ordered packages) {d e : String × Json} (hd : Declaring packages d next)
    (he : Declaring next e packages') : ∃ next', Declaring packages e next' ∧ Declaring next' d packages' := by
  obtain ⟨name, _⟩ := d
  obtain ⟨other, _⟩ := e
  obtain ⟨fields, p, hname, rfl, hp, rfl⟩ := hd
  obtain ⟨fields', q, hother, rfl, hq, rfl⟩ := he
  by_cases hne : name = other
  · obtain rfl := hne
    rw [packageOf_put_self] at hq
    obtain ⟨p', hp', hq'⟩ := (h.packageOf name).declare_comm hp hq
    refine ⟨_, ⟨fields', p', hname, rfl, hp', rfl⟩, fields, q, hname, rfl, ?_, ?_⟩
    · rw [packageOf_put_self]
      exact hq'
    · rw [h.sorted.put_put, h.sorted.put_put]
  · rw [packageOf_put_of_ne packages (Ne.symm hne)] at hq
    refine ⟨_, ⟨fields', q, hother, rfl, hq, rfl⟩, fields, p, hname, rfl, ?_, h.sorted.put_comm hne p q⟩
    rw [packageOf_put_of_ne packages hne]
    exact hp

/-- **The definitions of a load may come in any order.** -/
theorem declareAll_perm {definitions others : List (String × Json)} (h : definitions.Perm others)
    (hp : Ordered packages) (hall : declareAll packages definitions = .ok packages') :
    declareAll packages others = .ok packages' := by
  induction h generalizing packages with
  | nil => exact hall
  | cons d _ ih =>
    obtain ⟨next, hd, hrest⟩ := declareAll_cons_iff.1 hall
    exact declareAll_cons_iff.2 ⟨next, hd, ih (hp.declaring hd) hrest⟩
  | swap e d rest =>
    obtain ⟨next, hd, hall⟩ := declareAll_cons_iff.1 hall
    obtain ⟨_, he, hrest⟩ := declareAll_cons_iff.1 hall
    obtain ⟨next', he', hd'⟩ := hd.exchange hp he
    exact declareAll_cons_iff.2 ⟨next', he', declareAll_cons_iff.2 ⟨_, hd', hrest⟩⟩
  | trans _ _ ih ih' => exact ih' hp (ih hp hall)

/-- Definitions that follow others are declared over what these made. -/
theorem declareAll_append_iff {definitions others : List (String × Json)} :
    declareAll packages (definitions ++ others) = .ok packages' ↔
      ∃ next, declareAll packages definitions = .ok next ∧ declareAll next others = .ok packages' := by
  induction definitions generalizing packages with
  | nil => exact ⟨fun h => ⟨packages, rfl, h⟩, fun ⟨_, hnext, h⟩ => Except.ok.inj hnext ▸ h⟩
  | cons d rest ih =>
    rw [List.cons_append, declareAll_cons_iff]
    constructor
    · rintro ⟨middle, hd, h⟩
      obtain ⟨next, hrest, hothers⟩ := ih.1 h
      exact ⟨next, declareAll_cons_iff.2 ⟨middle, hd, hrest⟩, hothers⟩
    · rintro ⟨next, h, hothers⟩
      obtain ⟨middle, hd, hrest⟩ := declareAll_cons_iff.1 h
      exact ⟨middle, hd, ih.2 ⟨next, hrest, hothers⟩⟩

/-! ## What is accepted -/

/-- A property is not declared yet. -/
def New (packages : Fields Package) (address : String × String) : Prop :=
  (packageOf packages address.1).type.get? address.2 = none

theorem pairs_cons (d : String × Json) (rest : List (String × Json)) :
    pairs (.object (d :: rest)) = pairs (.object [d]) ++ pairs (.object rest) :=
  congrArg (· ++ _) (List.append_nil _).symm

theorem mem_pairs_single_iff {name : String} {fields : Fields Json} {address : String × String} :
    address ∈ pairs (.object [(name, .object fields)]) ↔ address.1 = name ∧ address.2 ∈ fields.names := by
  have hpairs : pairs (.object [(name, .object fields)]) = fields.map fun f => (name, f.1) := List.append_nil _
  rw [hpairs]
  constructor
  · intro hm
    obtain ⟨f, hf, rfl⟩ := List.mem_map.1 hm
    exact ⟨rfl, List.mem_map_of_mem hf⟩
  · rintro ⟨rfl, hproperty⟩
    obtain ⟨f, hf, he⟩ := List.mem_map.1 hproperty
    exact List.mem_map.2 ⟨f, hf, congrArg (Prod.mk address.1) he⟩

/-- A package of definitions is accepted of new properties alone, and makes these no longer new. -/
theorem Declaring.new {d : String × Json} (h : Declaring packages d next) :
    (∀ address ∈ pairs (.object [d]), New packages address) ∧
      ∀ address, New next address ↔ New packages address ∧ address ∉ pairs (.object [d]) := by
  obtain ⟨name, _⟩ := d
  obtain ⟨fields, p, _, rfl, hp, rfl⟩ := h
  obtain ⟨hnew, hkept⟩ := Package.new_declare hp
  refine ⟨fun address ha => ?_, fun address => ?_⟩
  · obtain ⟨hname, hproperty⟩ := mem_pairs_single_iff.1 ha
    rw [New, hname]
    exact hnew address.2 hproperty
  · rw [mem_pairs_single_iff, New, New]
    by_cases hname : address.1 = name
    · rw [hname, packageOf_put_self, hkept, and_iff_right rfl]
    · rw [packageOf_put_of_ne packages hname]
      exact ⟨fun hn => ⟨hn, fun hm => hname hm.1⟩, fun hn => hn.1⟩

theorem exists_declaring {others : Fields Package} {d : String × Json} (h : Declaring packages d next)
    (hnew : ∀ address ∈ pairs (.object [d]), New others address) : ∃ next', Declaring others d next' := by
  obtain ⟨name, _⟩ := d
  obtain ⟨fields, p, hname, rfl, hp, rfl⟩ := h
  obtain ⟨q, hq⟩ := Package.exists_declare (r := packageOf others name) hp fun property hproperty =>
    hnew (name, property) (mem_pairs_single_iff.2 ⟨rfl, hproperty⟩)
  exact ⟨_, fields, q, hname, rfl, hq, rfl⟩

/-- Definitions are accepted of new properties alone, and make these no longer new. -/
theorem new_declareAll {definitions : List (String × Json)} (h : declareAll packages definitions = .ok packages') :
    (∀ address ∈ pairs (.object definitions), New packages address) ∧
      ∀ address, New packages' address ↔ New packages address ∧ address ∉ pairs (.object definitions) := by
  induction definitions generalizing packages with
  | nil =>
    obtain rfl := Except.ok.inj h
    exact ⟨fun _ ha => absurd ha List.not_mem_nil, fun _ => (and_iff_left List.not_mem_nil).symm⟩
  | cons d rest ih =>
    obtain ⟨next, hd, hrest⟩ := declareAll_cons_iff.1 h
    obtain ⟨hnew, hkept⟩ := hd.new
    obtain ⟨hnewRest, hkeptRest⟩ := ih hrest
    rw [pairs_cons]
    refine ⟨fun address ha => ?_, fun address => ?_⟩
    · rcases List.mem_append.1 ha with ha | ha
      · exact hnew address ha
      · exact ((hkept address).1 (hnewRest address ha)).1
    · rw [hkeptRest, hkept, List.mem_append, not_or, and_assoc]

/-- Definitions that are accepted once are accepted wherever their properties are new. -/
theorem exists_declareAll {definitions : List (String × Json)} (h : declareAll packages definitions = .ok packages')
    {others : Fields Package} (hnew : ∀ address ∈ pairs (.object definitions), New others address) :
    ∃ others', declareAll others definitions = .ok others' := by
  induction definitions generalizing packages others with
  | nil => exact ⟨others, rfl⟩
  | cons d rest ih =>
    obtain ⟨next, hd, hrest⟩ := declareAll_cons_iff.1 h
    rw [pairs_cons] at hnew
    obtain ⟨next', hd'⟩ := exists_declaring hd fun address ha => hnew address (List.mem_append_left _ ha)
    have hnewRest : ∀ address ∈ pairs (.object rest), New next' address := by
      intro address ha
      -- what follows was accepted after `d`, so it names nothing that `d` declares
      obtain ⟨_, hd⟩ := (hd.new.2 address).1 ((new_declareAll hrest).1 address ha)
      exact (hd'.new.2 address).2 ⟨hnew address (List.mem_append_right _ ha), hd⟩
    obtain ⟨others', hothers⟩ := ih hrest hnewRest
    exact ⟨others', declareAll_cons_iff.2 ⟨next', hd', hothers⟩⟩

/-- **Definitions are accepted together just if they are accepted apart and no property is defined in both.** -/
theorem accepts_append_iff {definitions others : List (String × Json)} :
    (∃ packages', declareAll packages (definitions ++ others) = .ok packages') ↔
      (∃ packages', declareAll packages definitions = .ok packages') ∧
        (∃ packages', declareAll packages others = .ok packages') ∧
          (pairs (.object definitions)).Disjoint (pairs (.object others)) := by
  constructor
  · rintro ⟨packages', h⟩
    obtain ⟨next, hfirst, hsecond⟩ := declareAll_append_iff.1 h
    have hnew : ∀ address ∈ pairs (.object others), New packages address ∧ address ∉ pairs (.object definitions) :=
      fun address ha => ((new_declareAll hfirst).2 address).1 ((new_declareAll hsecond).1 address ha)
    exact ⟨⟨next, hfirst⟩, exists_declareAll hsecond fun address ha => (hnew address ha).1,
      fun address hd ho => (hnew address ho).2 hd⟩
  · rintro ⟨⟨next, hfirst⟩, ⟨packages', hsecond⟩, hdisjoint⟩
    have hnew : ∀ address ∈ pairs (.object others), New next address := fun address ha =>
      ((new_declareAll hfirst).2 address).2 ⟨(new_declareAll hsecond).1 address ha, fun hd => hdisjoint hd ha⟩
    obtain ⟨others', h⟩ := exists_declareAll hsecond hnew
    exact ⟨others', declareAll_append_iff.2 ⟨next, hfirst, h⟩⟩

/-! ## Loads -/

variable {s t : Store} {A B : Json} {c c' : String}

/-- Two loads together declare the definitions of both trees. -/
theorem load_load_ok_iff : (s.load A c >>= fun t => t.load B c') = .ok t ↔ c ≠ "" ∧ c' ≠ "" ∧
    ∃ a b, A = .object a ∧ B = .object b ∧ declareAll s.packages (a ++ b) = .ok t.packages ∧
      t.categories = (s.categories.put c ()).put c' () := by
  rw [Fault.bind_ok_iff]
  constructor
  · rintro ⟨next, hnext, h⟩
    obtain ⟨hc, a, ha, hall, hcategories⟩ := load_ok_iff.1 hnext
    obtain ⟨hc', b, hb, hall', hcategories'⟩ := load_ok_iff.1 h
    rw [hcategories] at hcategories'
    exact ⟨hc, hc', a, b, packagesOf_ok_iff.1 ha, packagesOf_ok_iff.1 hb, declareAll_append_iff.2 ⟨_, hall, hall'⟩,
      hcategories'⟩
  · rintro ⟨hc, hc', a, b, rfl, rfl, h, hcategories⟩
    obtain ⟨next, hall, hall'⟩ := declareAll_append_iff.1 h
    exact ⟨⟨next, s.categories.put c ()⟩, load_ok_iff.2 ⟨hc, a, rfl, hall, rfl⟩,
      load_ok_iff.2 ⟨hc', b, rfl, hall', hcategories⟩⟩

/-- Two loads may change places where the store is in order. -/
theorem load_load_comm (hp : Ordered s.packages) (hc : s.categories.Sorted)
    (h : (s.load A c >>= fun t => t.load B c') = .ok t) : (s.load B c' >>= fun t => t.load A c) = .ok t := by
  obtain ⟨hne, hne', a, b, hA, hB, hall, hcategories⟩ := load_load_ok_iff.1 h
  refine load_load_ok_iff.2 ⟨hne', hne, b, a, hB, hA, declareAll_perm List.perm_append_comm hp hall, ?_⟩
  rw [hcategories]
  by_cases heq : c = c'
  · rw [heq]
  · exact hc.put_comm heq () ()

theorem load_isOk_iff : (s.load A c).isOk = true ↔
    c ≠ "" ∧ ∃ a, A = .object a ∧ ∃ packages', declareAll s.packages a = .ok packages' := by
  rw [Fault.isOk_iff]
  constructor
  · rintro ⟨t, h⟩
    obtain ⟨hc, a, ha, hall, _⟩ := load_ok_iff.1 h
    exact ⟨hc, a, packagesOf_ok_iff.1 ha, t.packages, hall⟩
  · rintro ⟨hc, a, rfl, packages', hall⟩
    exact ⟨⟨packages', s.categories.put c ()⟩, load_ok_iff.2 ⟨hc, a, rfl, hall, rfl⟩⟩

/-- Two loads are accepted just if each is accepted alone and no property is defined by both. -/
theorem load_load_isOk_iff : (s.load A c >>= fun t => t.load B c').isOk = true ↔
    (s.load A c).isOk = true ∧ (s.load B c').isOk = true ∧ (pairs A).Disjoint (pairs B) := by
  rw [load_isOk_iff, load_isOk_iff, Fault.isOk_iff]
  constructor
  · rintro ⟨t, h⟩
    obtain ⟨hc, hc', a, b, rfl, rfl, hall, _⟩ := load_load_ok_iff.1 h
    obtain ⟨ha, hb, hdisjoint⟩ := accepts_append_iff.1 ⟨_, hall⟩
    exact ⟨⟨hc, a, rfl, ha⟩, ⟨hc', b, rfl, hb⟩, hdisjoint⟩
  · rintro ⟨⟨hc, a, rfl, ha⟩, ⟨hc', b, rfl, hb⟩, hdisjoint⟩
    obtain ⟨packages', hall⟩ := accepts_append_iff.2 ⟨ha, hb, hdisjoint⟩
    exact ⟨⟨packages', _⟩, load_load_ok_iff.2 ⟨hc, hc', a, b, rfl, rfl, hall, rfl⟩⟩

/-! ## Stores in order -/

theorem ordered_empty : Ordered empty.packages :=
  ⟨Fields.sorted_nil, fun _ _ h => by cases h⟩

theorem Walk.ordered {act : String → Option Package → Json → Package → Prop} {given : List (String × Json)}
    (h : Walk act packages given packages')
    (hact : ∀ name p? json q, act name p? json q → (∀ p, p? = some p → p.Ordered) → q.Ordered)
    (hp : Ordered packages) : Ordered packages' := by
  induction h with
  | nil => exact hp
  | @cons packages packages' n json q rest hq hrest ih =>
    exact ih (hp.put n (hact n _ json q hq fun p hget => hp.package n p hget))

theorem Ordered.load (h : Ordered s.packages) (hload : s.load A c = .ok t) : Ordered t.packages := by
  obtain ⟨_, definitions, _, hall, _⟩ := load_ok_iff.1 hload
  refine (walk_declareAll hall).ordered (fun name p? json q hq hp => ?_) h
  obtain ⟨fields, _, _, hdeclare⟩ := hq
  refine Package.Ordered.declare ?_ hdeclare
  cases p? with
  | none => exact Package.ordered_empty name
  | some p => exact hp p rfl

theorem Ordered.preset (h : Ordered s.packages) (hpreset : s.preset A = .ok t) : Ordered t.packages := by
  obtain ⟨given, _, hwalk, _⟩ := walk_preset hpreset
  refine hwalk.ordered (fun name p? json q hq hp => ?_) h
  obtain ⟨fields, p, _, _, hsome, hset⟩ := hq
  exact (hp p hsome).setAll hset

theorem Ordered.putAll (h : Ordered s.packages) (writes : List ((String × String) × Value)) :
    Ordered (s.putAll writes).packages := by
  induction writes generalizing s with
  | nil => exact h
  | cons w rest ih =>
    refine ih (s := s.put w.1.1 w.1.2 w.2) ?_
    unfold Store.put
    cases hp : s.packages.get? w.1.1 with
    | none => exact h
    | some p => exact h.put w.1.1 ((h.package _ p hp).store w.1.2 w.2)

theorem categories_putAll (s : Store) (writes : List ((String × String) × Value)) :
    (s.putAll writes).categories = s.categories := by
  induction writes generalizing s with
  | nil => rfl
  | cons w rest ih =>
    refine (ih (s.put w.1.1 w.1.2 w.2)).trans ?_
    unfold Store.put
    split <;> rfl

end Store

/-! ## Sessions -/

variable {κ ω : Type} {onChange : Reaction κ ω} {onAcknowledged : Nat → Reaction κ ω}

theorem Call.Effect.ordered {s s' : Session κ ω} {c : Call κ} (h : c.Effect s s')
    (hs : Store.Ordered s.live.store.packages ∧ s.live.store.categories.Sorted) :
    Store.Ordered s'.live.store.packages ∧ s'.live.store.categories.Sorted := by
  obtain ⟨hp, hc⟩ := hs
  cases h with
  | none store => exact store ▸ ⟨hp, hc⟩
  | @loaded json category store =>
    obtain ⟨_, _, _, _, hcategories⟩ := Store.load_ok_iff.1 store
    exact ⟨hp.load store, hcategories ▸ hc.put category ()⟩
  | preset store =>
    obtain ⟨_, _, _, hcategories⟩ := Store.walk_preset store
    exact ⟨hp.preset store, hcategories ▸ hc⟩
  | updated writes store =>
    rw [store, writes.store, Store.categories_putAll]
    exact ⟨hp.putAll _, hc⟩
  | recorded store => exact store ▸ ⟨hp, hc⟩
  | drained store => exact store ▸ ⟨hp, hc⟩

namespace Session

variable {s : Session κ ω}

/-- Packages, properties and categories stand in order, whatever calls were made. -/
theorem Reachable.ordered (h : s.Reachable onChange onAcknowledged) :
    Store.Ordered s.live.store.packages ∧ s.live.store.categories.Sorted :=
  h.invariant (I := fun store => Store.Ordered store.packages ∧ store.categories.Sorted)
    ⟨Store.ordered_empty, Fields.sorted_nil⟩ fun heffect hs => heffect.ordered hs

end Session

/-- Loads of live state are those of its store. -/
theorem LiveState.load_load_ok_iff {s live : LiveState κ} {A B : Json} {c c' : String} :
    (s.load A c >>= fun t => t.load B c') = .ok live ↔
      ∃ store, (s.store.load A c >>= fun t => t.load B c') = .ok store ∧ live = { s with store := store } := by
  rw [Fault.bind_ok_iff]
  constructor
  · rintro ⟨next, hnext, h⟩
    obtain ⟨middle, hmiddle, hnext⟩ := Fault.bind_ok_iff.1 hnext
    obtain rfl := Except.ok.inj hnext
    obtain ⟨store, hstore, h⟩ := Fault.bind_ok_iff.1 h
    exact ⟨store, Fault.bind_ok_iff.2 ⟨middle, hmiddle, hstore⟩, (Except.ok.inj h).symm⟩
  · rintro ⟨store, h, rfl⟩
    obtain ⟨middle, hmiddle, hstore⟩ := Fault.bind_ok_iff.1 h
    exact ⟨{ s with store := middle }, Fault.bind_ok_iff.2 ⟨middle, hmiddle, rfl⟩,
      Fault.bind_ok_iff.2 ⟨store, hstore, rfl⟩⟩

/-- Live state loads what its store loads. -/
theorem LiveState.load_isOk (s : LiveState κ) (A : Json) (c : String) :
    (s.load A c).isOk = (s.store.load A c).isOk := by
  unfold LiveState.load
  cases s.store.load A c <;> rfl

/-- **Two loads may change places**, whatever calls were made before: they are accepted one after the other just if they
are accepted in the other order, and the same live state comes out. This is so just if each is accepted alone and no
property is defined by both. The log and the callbacks stay as they are. -/
theorem Session.Reachable.load_comm {s : Session κ ω} (hs : s.Reachable onChange onAcknowledged) (A B : Json)
    (c c' : String) :
    let first := s.live.load A c >>= fun live => live.load B c'
    let second := s.live.load B c' >>= fun live => live.load A c
    (∀ live, first = .ok live ↔ second = .ok live) ∧
      (first.isOk = true ↔ (s.live.load A c).isOk = true ∧ (s.live.load B c').isOk = true ∧
        (Store.pairs A).Disjoint (Store.pairs B)) ∧
      ∀ live, first = .ok live → live.log = s.live.log ∧ live.observers = s.live.observers := by
  intro first second
  obtain ⟨hp, hc⟩ := hs.ordered
  refine ⟨fun live => ?_, ?_, fun live h => ?_⟩
  · rw [LiveState.load_load_ok_iff, LiveState.load_load_ok_iff]
    refine exists_congr fun store => and_congr_left fun _ => ?_
    exact ⟨Store.load_load_comm hp hc, Store.load_load_comm hp hc⟩
  · rw [LiveState.load_isOk, LiveState.load_isOk, ← Store.load_load_isOk_iff, Fault.isOk_iff, Fault.isOk_iff]
    constructor
    · rintro ⟨live, h⟩
      obtain ⟨store, hstore, _⟩ := LiveState.load_load_ok_iff.1 h
      exact ⟨store, hstore⟩
    · rintro ⟨store, hstore⟩
      exact ⟨_, LiveState.load_load_ok_iff.2 ⟨store, hstore, rfl⟩⟩
  · obtain ⟨store, _, rfl⟩ := LiveState.load_load_ok_iff.1 h
    exact ⟨rfl, rfl⟩

/-- Two trees that extend a lamp which has been switched on before; the change is still in the log. -/
theorem Session.Reachable.load_comm_lamp : ∃ (s : Session Unit Unit) (A B : Json) (live : LiveState Unit),
    s.Reachable Session.ignore (fun _ => Session.ignore) ∧ s.live.log.pending.length = 1 ∧
    A = .object [("lamp", .object [("color", .string "string")])] ∧
    B = .object [("fan", .object [("speed", .string "integer")]), ("lamp", .object [("level", .string "integer")])] ∧
    (s.live.load A "light" >>= fun live => live.load B "air") = .ok live ∧
    (s.live.load B "air" >>= fun live => live.load A "light") = .ok live ∧
    live.store.toJson = .object [("fan", .object [("speed", .integer 0)]),
      ("lamp", .object [("color", .string ""), ("level", .integer 0), ("on", .bool true)])] ∧
    live.store.categories.names = ["air", "base", "light"] ∧ live.log = s.live.log := by
  let s : Session Unit Unit := (Session.fresh 2 ()).run Session.ignore (fun _ => Session.ignore)
    [.load (.object [("lamp", .object [("on", .string "boolean")])]) "base", .set ⟨0, 0⟩ "lamp.on" (.bool true)]
  have hs : s.Reachable Session.ignore (fun _ => Session.ignore) := ⟨2, (), _, rfl⟩
  let A : Json := .object [("lamp", .object [("color", .string "string")])]
  let B : Json :=
    .object [("fan", .object [("speed", .string "integer")]), ("lamp", .object [("level", .string "integer")])]
  obtain ⟨hcomm, _, hkept⟩ := hs.load_comm A B "light" "air"
  have hsummary : (s.live.load A "light" >>= fun live => live.load B "air").map
      (fun live => (live.store.toJson, live.store.categories.names)) =
    .ok (.object [("fan", .object [("speed", .integer 0)]),
      ("lamp", .object [("color", .string ""), ("level", .integer 0), ("on", .bool true)])],
        ["air", "base", "light"]) := by
    unfold s A B
    rfl
  cases hlive : s.live.load A "light" >>= fun live => live.load B "air" with
  | error e =>
    rw [hlive] at hsummary
    cases hsummary
  | ok live =>
    rw [hlive] at hsummary
    obtain ⟨hjson, hcategories⟩ := Prod.mk.inj (Except.ok.inj hsummary)
    exact ⟨s, A, B, live, hs, rfl, rfl, rfl, hlive, (hcomm live).1 hlive, hjson, hcategories, (hkept live hlive).1⟩

end Capability
