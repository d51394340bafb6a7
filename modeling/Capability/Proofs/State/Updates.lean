import Capability.Proofs.State.Declared

/-!
# Updates of the state

An update stores values of declared properties and answers what it stored, by the qualified names of the properties
(`Store.Update.Writes`). So it is for one property (`Store.set_spec`) as well as for several (`Store.setAll_spec`).

* `Store.value?_of_writes`: the value of a property after an update is the one that the answer gives under its name,
  or else its old value, if no other property that is written goes by that name.
-/

namespace Capability

namespace Store

variable {s s' : Store}

/-! ## Storing one value -/

@[simp] theorem property?_put (s : Store) (package property : String) (value : Value) (package' property' : String) :
    (s.put package property value).property? package' property' = s.property? package' property' := by
  unfold put property?
  split
  · rename_i p hp
    show ((Fields.put package _ s.packages).get? package').bind _ = _
    rw [Fields.get?_put]
    split
    · rename_i he
      rw [he, hp]
      rfl
    · rfl
  · rfl

theorem declares_put_iff {package property package' property' : String} {value : Value} :
    (s.put package property value).Declares package' property' ↔ s.Declares package' property' := by
  unfold Declares
  rw [property?_put]

/-- The package of a declared property. -/
theorem Declares.exists_package {package property : String} (h : s.Declares package property) :
    ∃ p, s.packages.get? package = some p ∧ (p.type.get? property).isSome = true := by
  unfold Declares property? at h
  cases hp : s.packages.get? package with
  | none =>
    rw [hp] at h
    cases h
  | some p =>
    rw [hp] at h
    exact ⟨p, rfl, h⟩

theorem value?_put {package property : String} (h : s.Declares package property) (value : Value)
    (package' property' : String) : (s.put package property value).value? package' property' =
      if package' = package ∧ property' = property then some value else s.value? package' property' := by
  obtain ⟨p, hp, _⟩ := h.exists_package
  unfold put value?
  rw [hp]
  show ((Fields.put package _ s.packages).get? package').bind _ = _
  rw [Fields.get?_put]
  by_cases hpackage : package' = package
  · rw [if_pos hpackage, Option.bind_some, Package.get?_store, hpackage, hp, Option.bind_some]
    by_cases hproperty : property' = property
    · rw [if_pos hproperty, if_pos ⟨rfl, hproperty⟩]
    · rw [if_neg hproperty, if_neg fun hand => hproperty hand.2]
  · rw [if_neg hpackage, if_neg fun hand => hpackage hand.1]

theorem Sound.put (hs : s.Sound) {package property : String} (h : s.Declares package property) (value : Value) :
    (s.put package property value).Sound := by
  obtain ⟨p, hp, hproperty⟩ := h.exists_package
  intro name q hq
  unfold Store.put at hq
  rw [hp] at hq
  change (Fields.put package _ s.packages).get? name = some q at hq
  rw [Fields.get?_put] at hq
  split at hq
  · obtain rfl := Option.some.inj hq
    exact (hs package p hp).store hproperty value
  · exact hs name q hq

theorem Formed.put (hs : Formed s.packages) (package property : String) (value : Value) :
    Formed (s.put package property value).packages := by
  unfold Store.put
  cases hp : s.packages.get? package with
  | none => exact hs
  | some p => exact Formed.put_package hs (hs.ne_empty hp) _

/-! ## Storing several values -/

/-- The store after several values were stored. -/
def putAll (s : Store) (writes : List ((String × String) × Value)) : Store :=
  writes.foldl (fun s w => s.put w.1.1 w.1.2 w.2) s

@[simp] theorem property?_putAll (s : Store) (writes : List ((String × String) × Value)) (package property : String) :
    (s.putAll writes).property? package property = s.property? package property := by
  induction writes generalizing s with
  | nil => rfl
  | cons w rest ih => exact (ih _).trans (property?_put ..)

theorem Sound.putAll (hs : s.Sound) {writes : List ((String × String) × Value)}
    (h : ∀ w ∈ writes, s.Declares w.1.1 w.1.2) : (s.putAll writes).Sound := by
  induction writes generalizing s with
  | nil => exact hs
  | cons w rest ih =>
    refine ih (hs.put (h w List.mem_cons_self) w.2) fun v hv => ?_
    exact declares_put_iff.2 (h v (List.mem_cons_of_mem _ hv))

theorem Formed.putAll (hs : Formed s.packages) (writes : List ((String × String) × Value)) :
    Formed (s.putAll writes).packages := by
  induction writes generalizing s with
  | nil => exact hs
  | cons w rest ih => exact ih (hs.put w.1.1 w.1.2 w.2)

/-! ## Updates -/

/-- The update stores values of declared properties, and lists them under their qualified names. -/
structure Update.Writes (u : Update) (s : Store) (writes : List ((String × String) × Value)) : Prop where
  typed : ∀ w ∈ writes, ∃ type json, s.property? w.1.1 w.1.2 = some type ∧ type.convert json = .ok w.2
  store : u.store = s.putAll writes
  changed : u.changed = Fields.ofPairs (writes.map fun w => (qualify w.1.1 w.1.2, w.2.toJson))

section Writes

variable {u : Update} {writes : List ((String × String) × Value)}

theorem Update.Writes.declared (h : u.Writes s writes) : ∀ w ∈ writes, s.Declares w.1.1 w.1.2 := by
  intro w hw
  obtain ⟨type, _, htype, _⟩ := h.typed w hw
  unfold Declares
  rw [htype]
  rfl

theorem Update.Writes.property? (h : u.Writes s writes) (package property : String) :
    u.store.property? package property = s.property? package property := by
  rw [h.store, property?_putAll]

theorem Update.Writes.sorted (h : u.Writes s writes) : Fields.Sorted u.changed :=
  h.changed ▸ Fields.Sorted.ofPairs _

theorem Sound.update (hs : s.Sound) (h : u.Writes s writes) : u.store.Sound :=
  h.store ▸ hs.putAll h.declared

/-- **The value of a property after an update is the one that the update lists under its name**, or else its old one,
if no other property that is written goes by that name. -/
theorem value?_of_writes (h : u.Writes s writes) {package property : String}
    (hunique : ∀ w ∈ writes, qualify w.1.1 w.1.2 = qualify package property → w.1 = (package, property)) :
    (u.store.value? package property).map Value.toJson =
      (u.changed.get? (qualify package property)).or ((s.value? package property).map Value.toJson) := by
  have hdeclared := h.declared
  rw [h.store, h.changed, Fields.ofPairs, putAll, List.foldl_map]
  clear h
  -- the two folds go side by side: what the list has so far stands over the old value
  suffices hfold : ∀ (t : Store) (listed : Fields Json), (∀ w ∈ writes, t.Declares w.1.1 w.1.2) →
      (t.value? package property).map Value.toJson =
        (listed.get? (qualify package property)).or ((s.value? package property).map Value.toJson) →
      ((writes.foldl (fun t w => t.put w.1.1 w.1.2 w.2) t).value? package property).map Value.toJson =
        ((writes.foldl (fun listed w => Fields.put (qualify w.1.1 w.1.2) w.2.toJson listed) listed).get?
          (qualify package property)).or ((s.value? package property).map Value.toJson) from
    hfold s [] hdeclared rfl
  clear hdeclared
  induction writes with
  | nil => exact fun _ _ _ h => h
  | cons w rest ih =>
    intro t listed hdeclared h
    refine ih (fun v hv => hunique v (List.mem_cons_of_mem _ hv)) _ _ (fun v hv => ?_) ?_
    · exact declares_put_iff.2 (hdeclared v (List.mem_cons_of_mem _ hv))
    · rw [value?_put (hdeclared w List.mem_cons_self), Fields.get?_put]
      by_cases hname : qualify package property = qualify w.1.1 w.1.2
      · have hw := hunique w List.mem_cons_self hname.symm
        rw [if_pos hname, if_pos (by rw [hw]; exact ⟨rfl, rfl⟩)]
        rfl
      · rw [if_neg hname, if_neg fun hand => hname (by rw [hand.1, hand.2]), h]

end Writes

/-! ## Setting one property -/

theorem qualify_of_splitName {name package property : String} (h : splitName name = .ok (package, property)) :
    qualify package property = name := by
  unfold splitName at h
  split at h
  · rename_i package' property' hfirst
    obtain ⟨_, rfl⟩ := Text.first?_eq_some_iff.1 hfirst
    split at h
    · cases h
    · split at h
      · cases h
      · obtain ⟨rfl, rfl⟩ := Prod.mk.inj (Except.ok.inj h)
        rfl
  · split at h
    · cases h
    · cases h

theorem package_ok_iff {name : String} {p : Package} : s.package name = .ok p ↔ s.packages.get? name = some p := by
  unfold Store.package
  cases s.packages.get? name with
  | none => simp
  | some q => simp

/-- Setting one property writes the value that its type makes of what is given. -/
theorem set_spec {name : String} {json : Json} {u : Update} (h : s.set name json = .ok u) :
    ∃ package property type value, splitName name = .ok (package, property) ∧
      s.property? package property = some type ∧ type.convert json = .ok value ∧
        u.Writes s [((package, property), value)] := by
  obtain ⟨⟨package, property⟩, hsplit, h⟩ := Fault.bind_ok_iff.1 h
  obtain ⟨p, hp, h⟩ := Fault.bind_ok_iff.1 h
  obtain ⟨⟨q, value⟩, hq, h⟩ := Fault.bind_ok_iff.1 h
  obtain ⟨value', hvalue, hq⟩ := Fault.bind_ok_iff.1 hq
  obtain ⟨rfl, rfl⟩ := Prod.mk.inj (Except.ok.inj hq)
  obtain rfl := Except.ok.inj h
  replace hp := package_ok_iff.1 hp
  obtain ⟨type, htype, hvalue⟩ := Package.check_ok_iff.1 hvalue
  have hproperty : s.property? package property = some type := by
    rw [property?, hp]
    exact htype
  refine ⟨package, property, type, value', hsplit, hproperty, hvalue, fun w hw => ?_, ?_, ?_⟩
  · obtain rfl := List.mem_singleton.1 hw
    exact ⟨type, json, hproperty, hvalue⟩
  · show _ = s.put package property value'
    unfold put
    rw [hp]
  · show [(name, value'.toJson)] = [(qualify package property, value'.toJson)]
    rw [qualify_of_splitName hsplit]

/-! ## Setting several properties -/

/-- What several given values are checked to are values of declared properties, each made of what is given for it. -/
theorem checkAll_spec {given : List (String × Json)} {writes : List ((String × String) × Value)}
    (h : s.checkAll given = .ok writes) :
    ∀ w ∈ writes, ∃ fields json type, (w.1.1, Json.object fields) ∈ given ∧ (w.1.2, json) ∈ fields ∧
      s.property? w.1.1 w.1.2 = some type ∧ type.convert json = .ok w.2 := by
  induction given generalizing writes with
  | nil =>
    obtain rfl := Except.ok.inj h
    exact fun _ hw => absurd hw List.not_mem_nil
  | cons g rest ih =>
    obtain ⟨name, json⟩ := g
    rw [checkAll] at h
    obtain ⟨fields, hfields, h⟩ := Fault.bind_ok_iff.1 h
    obtain ⟨p, hp, h⟩ := Fault.bind_ok_iff.1 h
    obtain ⟨values, hvalues, h⟩ := Fault.bind_ok_iff.1 h
    obtain ⟨writes', hwrites, h⟩ := Fault.bind_ok_iff.1 h
    obtain rfl := Except.ok.inj h
    obtain ⟨_, rfl⟩ := propertiesOf_spec hfields
    intro w hw
    rcases List.mem_append.1 hw with hw | hw
    · obtain ⟨v, hv, rfl⟩ := List.mem_map.1 hw
      obtain ⟨type, json, hjson, htype, hconvert⟩ := Package.typed_of_checkAll hvalues v hv
      refine ⟨fields, json, type, List.mem_cons_self, hjson, ?_, hconvert⟩
      rw [property?, package_ok_iff.1 hp]
      exact htype
    · obtain ⟨fields', json, type, hpackage, hjson, htype, hconvert⟩ := ih hwrites w hw
      exact ⟨fields', json, type, List.mem_cons_of_mem _ hpackage, hjson, htype, hconvert⟩

/-- The properties that a tree of packages names. -/
def pairs : Json → List (String × String)
  | .object packages => packages.flatMap fun g => ((g.2.toFields?.getD []).map fun f => (g.1, f.1))
  | _ => []

theorem names_of_checkAll {p : Package} {given : List (String × Json)} {values : List (String × Value)}
    (h : p.checkAll given = .ok values) : values.map (·.1) = given.map (·.1) :=
  Fields.names_of_forall₂ (R := fun name json v => p.check name json = .ok v) (Package.checkAll_ok_iff.1 h)

theorem pairs_of_checkAll {given : List (String × Json)} {writes : List ((String × String) × Value)}
    (h : s.checkAll given = .ok writes) : writes.map (·.1) = pairs (.object given) := by
  induction given generalizing writes with
  | nil =>
    obtain rfl := Except.ok.inj h
    rfl
  | cons g rest ih =>
    obtain ⟨name, json⟩ := g
    rw [checkAll] at h
    obtain ⟨fields, hfields, h⟩ := Fault.bind_ok_iff.1 h
    obtain ⟨p, _, h⟩ := Fault.bind_ok_iff.1 h
    obtain ⟨values, hvalues, h⟩ := Fault.bind_ok_iff.1 h
    obtain ⟨writes', hwrites, h⟩ := Fault.bind_ok_iff.1 h
    obtain rfl := Except.ok.inj h
    obtain ⟨_, rfl⟩ := propertiesOf_spec hfields
    have hfirst : (values.map fun v => ((name, v.1), v.2)).map (·.1) = fields.map fun f => (name, f.1) := by
      have hnames := congrArg (List.map fun n => (name, n)) (names_of_checkAll hvalues)
      rw [List.map_map, List.map_map] at hnames
      rw [List.map_map]
      exact hnames
    rw [List.map_append, hfirst, ih hwrites]
    rfl

/-- Setting several properties stores what the values of a tree are checked to, and is an update unless this is
nothing. -/
theorem setAll_cases {json : Json} {u? : Option Update} (h : s.setAll json = .ok u?) :
    ∃ given writes, json = .object given ∧ s.checkAll given = .ok writes ∧
      (writes = [] ∧ u? = none ∨ writes ≠ [] ∧ u? = some
        ⟨s.putAll writes, Fields.ofPairs (writes.map fun w => (qualify w.1.1 w.1.2, w.2.toJson))⟩) := by
  obtain ⟨given, hgiven, h⟩ := Fault.bind_ok_iff.1 h
  obtain ⟨writes, hwrites, h⟩ := Fault.bind_ok_iff.1 h
  refine ⟨given, writes, packagesOf_ok_iff.1 hgiven, hwrites, ?_⟩
  cases writes with
  | nil => exact .inl ⟨rfl, (Except.ok.inj h).symm⟩
  | cons w rest => exact .inr ⟨List.cons_ne_nil _ _, (Except.ok.inj h).symm⟩

/-- Setting several properties writes a value of each that the tree names, and at least one. -/
theorem setAll_spec {json : Json} {u : Update} (h : s.setAll json = .ok (some u)) :
    ∃ writes, writes ≠ [] ∧ writes.map (·.1) = pairs json ∧ u.Writes s writes := by
  obtain ⟨given, writes, rfl, hwrites, ⟨_, hu⟩ | ⟨hne, hu⟩⟩ := setAll_cases h
  · cases hu
  · obtain rfl := Option.some.inj hu
    refine ⟨writes, hne, pairs_of_checkAll hwrites, fun w hw => ?_, rfl, rfl⟩
    obtain ⟨_, json, type, _, _, htype, hconvert⟩ := checkAll_spec hwrites w hw
    exact ⟨type, json, htype, hconvert⟩

end Store

end Capability
