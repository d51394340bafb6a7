import Capability.Proofs.Json
import Capability.Proofs.State.Following

/-!
# Qualified names as addresses

A property is listed under its package and its own name, and goes by the two with a dot between them. The qualified
name leads back to the property if the name of the package has no dot and that of the property is not empty
(`Store.splitName_qualify_iff`). Packages may have dots in their names and properties may have empty names, so not
every property that is listed is found under its qualified name, and several properties may be recorded as one
(`Session.names_taken`).

* `Store.Update.Writes.length_changed_iff`: an update lists as many entries as it stores properties, exactly if these go
  by different qualified names. Then each entry has the value of its own property.
* `Session.Reachable.names_spec`: both for the store of every session and every call of it.
-/

namespace Capability

open Change

namespace Store

variable {s s' : Store}

/-! ## From names to properties -/

theorem first?_qualify_iff {package property : String} :
    Text.first? '.' (qualify package property) = some (package, property) ↔ '.' ∉ package.toList := by
  rw [Text.first?_eq_some_iff]
  exact ⟨fun h => h.1, fun h => ⟨h, rfl⟩⟩

/-- **The qualified name of a property leads back to it, exactly if the name of its package has no dot and neither name
is empty.** -/
theorem splitName_qualify_iff {package property : String} :
    splitName (qualify package property) = .ok (package, property) ↔
      '.' ∉ package.toList ∧ package ≠ "" ∧ property ≠ "" := by
  constructor
  · intro h
    unfold splitName at h
    split at h
    · rename_i package' property' hfirst
      split at h
      · cases h
      · rename_i hproperty
        split at h
        · cases h
        · rename_i hpackage
          obtain ⟨rfl, rfl⟩ := Prod.mk.inj (Except.ok.inj h)
          exact ⟨first?_qualify_iff.1 hfirst, hpackage, hproperty⟩
    · split at h <;> cases h
  · rintro ⟨hdot, hpackage, hproperty⟩
    unfold splitName
    rw [first?_qualify_iff.2 hdot]
    show (if property = "" then _ else if package = "" then _ else _) = _
    rw [if_neg hproperty, if_neg hpackage]

/-- Where the names of packages have no dots, different properties go by different qualified names. -/
theorem qualify_inj {p q : String × String} (hp : '.' ∉ p.1.toList) (hq : '.' ∉ q.1.toList)
    (h : qualify p.1 p.2 = qualify q.1 q.2) : p = q := by
  have hfirst : Text.first? '.' (qualify p.1 p.2) = some p := first?_qualify_iff.2 hp
  rw [h, first?_qualify_iff.2 hq] at hfirst
  exact (Option.some.inj hfirst).symm

theorem get_ok_iff {name : String} {value : Value} :
    s.get name = .ok value ↔
      ∃ package property, splitName name = .ok (package, property) ∧ s.value? package property = some value := by
  unfold get value?
  rw [Fault.bind_ok_iff]
  constructor
  · rintro ⟨⟨package, property⟩, hsplit, h⟩
    obtain ⟨p, hp, h⟩ := Fault.bind_ok_iff.1 h
    refine ⟨package, property, hsplit, ?_⟩
    rw [package_ok_iff.1 hp, Option.bind_some]
    cases hget : p.get? property with
    | none =>
      rw [hget] at h
      cases h
    | some v =>
      rw [hget] at h
      rw [Except.ok.inj h]
  · rintro ⟨package, property, hsplit, h⟩
    obtain ⟨p, hp, hget⟩ := Option.bind_eq_some_iff.1 h
    refine ⟨(package, property), hsplit, Fault.bind_ok_iff.2 ⟨p, package_ok_iff.2 hp, ?_⟩⟩
    rw [hget]

/-! ## The properties of an update -/

theorem nodup_pairs {json : Json} (h : json.Sorted) : (pairs json).Nodup := by
  cases json with
  | object packages =>
    refine List.nodup_flatMap.2 ⟨fun g hg => ?_, ?_⟩
    · have hsorted : g.2.Sorted := Json.sortedFields_iff.1 h.2 g hg
      cases hjson : g.2 with
      | object fields =>
        rw [hjson] at hsorted
        have hnames : (Fields.names fields).Nodup := hsorted.1.nodup_names
        have hmap : (fields.map fun f => (g.1, f.1)) = (Fields.names fields).map fun n => (g.1, n) :=
          List.map_map.symm
        show (fields.map fun f => (g.1, f.1)).Nodup
        rw [hmap]
        exact hnames.map fun a b he => (Prod.mk.inj he).2
      | _ => exact List.nodup_nil
    · -- the pairs of different packages differ in their first names
      refine List.Pairwise.imp ?_ h.1
      intro g g' hlt
      refine List.disjoint_left.2 fun p hp hp' => ?_
      obtain ⟨f, _, rfl⟩ := List.mem_map.1 hp
      obtain ⟨f', _, he⟩ := List.mem_map.1 hp'
      have he : g'.1 = g.1 := (Prod.mk.inj he).1
      rw [he] at hlt
      exact String.lt_irrefl _ hlt
  | _ => exact List.nodup_nil

section Writes

variable {u : Update} {writes : List ((String × String) × Value)}

theorem value?_putAll_of_not_mem {package property : String} (hdeclared : ∀ w ∈ writes, s.Declares w.1.1 w.1.2)
    (h : ∀ w ∈ writes, w.1 ≠ (package, property)) :
    (s.putAll writes).value? package property = s.value? package property := by
  induction writes generalizing s with
  | nil => rfl
  | cons w rest ih =>
    have hne : ¬(package = w.1.1 ∧ property = w.1.2) := by
      rintro ⟨rfl, rfl⟩
      exact h w List.mem_cons_self rfl
    have hrest : ∀ v ∈ rest, (s.put w.1.1 w.1.2 w.2).Declares v.1.1 v.1.2 := fun v hv =>
      declares_put_iff.2 (hdeclared v (List.mem_cons_of_mem _ hv))
    have htail := ih hrest fun v hv => h v (List.mem_cons_of_mem _ hv)
    rw [value?_put (hdeclared w List.mem_cons_self), if_neg hne] at htail
    exact htail

/-- Each property that is written once has the value that was written, whatever its qualified name. -/
theorem Update.Writes.value?_of_mem (h : u.Writes s writes) (hnodup : (writes.map (·.1)).Nodup) :
    ∀ w ∈ writes, u.store.value? w.1.1 w.1.2 = some w.2 := by
  have hdeclared := h.declared
  rw [h.store]
  clear h
  induction writes generalizing s with
  | nil => exact fun w hw => absurd hw List.not_mem_nil
  | cons v rest ih =>
    obtain ⟨hv, hrest⟩ := List.nodup_cons.1 hnodup
    have hput : ∀ w ∈ rest, (s.put v.1.1 v.1.2 v.2).Declares w.1.1 w.1.2 := fun w hw =>
      declares_put_iff.2 (hdeclared w (List.mem_cons_of_mem _ hw))
    intro w hw
    rcases List.mem_cons.1 hw with rfl | hw
    · have hlast : ∀ v ∈ rest, v.1 ≠ (w.1.1, w.1.2) := by
        intro v hmem he
        exact hv (List.mem_map.2 ⟨v, hmem, he⟩)
      have hself := value?_putAll_of_not_mem hput hlast
      rw [value?_put (hdeclared w List.mem_cons_self), if_pos ⟨rfl, rfl⟩] at hself
      exact hself
    · exact ih hrest hput w hw

/-- **An update lists as many entries as it writes properties, exactly if these go by different qualified names.** -/
theorem Update.Writes.length_changed_iff (h : u.Writes s writes) :
    u.changed.length = writes.length ↔ ((writes.map (·.1)).map fun p => qualify p.1 p.2).Nodup := by
  have hlength : writes.length = (writes.map fun w => (qualify w.1.1 w.1.2, w.2.toJson)).length :=
    (List.length_map _).symm
  rw [h.changed, hlength, Fields.length_ofPairs_eq_iff, List.map_map, List.map_map]
  rfl

/-- Then each entry has the value of its own property. -/
theorem Update.Writes.get?_changed (h : u.Writes s writes)
    (hnodup : ((writes.map (·.1)).map fun p => qualify p.1 p.2).Nodup) :
    ∀ w ∈ writes, u.changed.get? (qualify w.1.1 w.1.2) = some w.2.toJson := by
  intro w hw
  have hmem : (qualify w.1.1 w.1.2, w.2.toJson) ∈ writes.map fun w => (qualify w.1.1 w.1.2, w.2.toJson) :=
    List.mem_map_of_mem hw
  rw [h.changed]
  refine Fields.get?_ofPairs_of_nodup ?_ hmem
  rw [List.map_map] at hnodup ⊢
  exact hnodup

/-- **Where the names of packages have no dots, an update lists exactly the properties that it writes, each under its
qualified name and with the value that the tree of the state shows afterwards.** -/
theorem Update.Writes.get?_changed_iff (h : u.Writes s writes) (hnodup : (writes.map (·.1)).Nodup)
    (hdots : ∀ w ∈ writes, '.' ∉ w.1.1.toList) {name : String} {json : Json} :
    u.changed.get? name = some json ↔ ∃ package property, (package, property) ∈ writes.map (·.1) ∧
      name = qualify package property ∧ u.store.toJson.property? package property = some json := by
  have hshown : ∀ w ∈ writes, u.store.toJson.property? w.1.1 w.1.2 = some w.2.toJson := by
    intro w hw
    rw [property?_toJson, h.value?_of_mem hnodup w hw]
    rfl
  have hnames : ((writes.map (·.1)).map fun p => qualify p.1 p.2).Nodup := by
    refine hnodup.map_on fun p hp q hq he => ?_
    obtain ⟨w, hw, rfl⟩ := List.mem_map.1 hp
    obtain ⟨v, hv, rfl⟩ := List.mem_map.1 hq
    exact qualify_inj (hdots w hw) (hdots v hv) he
  constructor
  · intro hget
    rw [h.changed] at hget
    rcases Fields.mem_merge (Fields.mem_of_get? hget) with hm | hm
    · cases hm
    · obtain ⟨w, hw, he⟩ := List.mem_map.1 hm
      obtain ⟨rfl, rfl⟩ := Prod.mk.inj he
      exact ⟨w.1.1, w.1.2, List.mem_map_of_mem hw, rfl, hshown w hw⟩
  · rintro ⟨package, property, hm, rfl, hjson⟩
    obtain ⟨w, hw, he⟩ := List.mem_map.1 hm
    obtain ⟨rfl, rfl⟩ := Prod.mk.inj he
    rw [h.get?_changed hnames w hw, ← hjson, hshown w hw]

end Writes

end Store

namespace Session

variable {κ ω : Type} {onChange : Reaction κ ω} {onAcknowledged : Nat → Reaction κ ω} {s : Session κ ω}

/-- **The qualified name of a property that is listed leads back to it exactly if the name of its package has no dot and
its own name is not empty, and then the property is found with the value that is listed. An update of several properties
records one entry for each, with the value that is stored for it, exactly if they go by different qualified names**, and
so they do where the names of their packages have no dots. -/
theorem Reachable.names_spec (hs : s.Reachable onChange onAcknowledged) :
    (∀ package property shown, s.live.store.toJson.property? package property = some shown →
        (Store.splitName (Store.qualify package property) = .ok (package, property) ↔
          '.' ∉ package.toList ∧ property ≠ "") ∧
        ('.' ∉ package.toList → property ≠ "" →
          ∃ value, s.live.store.get (Store.qualify package property) = .ok value ∧ value.toJson = shown)) ∧
      ∀ time json run, json.Sorted → s.live.setAll onChange time json s.world = .ok (some run) →
        ∃ changed, run.1.log = s.live.log.record time changed ∧ (Store.pairs json).Nodup ∧
          ((changed.length = (Store.pairs json).length ∧ ∀ p ∈ Store.pairs json, ∃ value,
              run.1.store.value? p.1 p.2 = some value ∧
                changed.get? (Store.qualify p.1 p.2) = some value.toJson) ↔
            ((Store.pairs json).map fun p => Store.qualify p.1 p.2).Nodup) ∧
          ((∀ p ∈ Store.pairs json, '.' ∉ p.1.toList) →
            ((Store.pairs json).map fun p => Store.qualify p.1 p.2).Nodup) := by
  constructor
  · intro package property shown hshown
    rw [Store.property?_toJson] at hshown
    obtain ⟨value, hvalue, rfl⟩ := Option.map_eq_some_iff.1 hshown
    have hpackage : package ≠ "" := by
      obtain ⟨p, hp, _⟩ := Option.bind_eq_some_iff.1 hvalue
      exact hs.formed.ne_empty hp
    have hsplit : Store.splitName (Store.qualify package property) = .ok (package, property) ↔
        '.' ∉ package.toList ∧ property ≠ "" := by
      rw [Store.splitName_qualify_iff]
      simp only [hpackage, ne_eq, not_false_eq_true, true_and]
    refine ⟨hsplit, fun hdot hproperty => ⟨value, ?_, rfl⟩⟩
    exact Store.get_ok_iff.2 ⟨package, property, hsplit.2 ⟨hdot, hproperty⟩, hvalue⟩
  · intro time json run hsorted hrun
    obtain ⟨u?, hu, hrun⟩ := Fault.bind_ok_iff.1 hrun
    obtain ⟨u, rfl, rfl⟩ := Option.map_eq_some_iff.1 (Except.ok.inj hrun)
    obtain ⟨writes, _, hpairs, hwrites⟩ := Store.setAll_spec hu
    have hnodup : (Store.pairs json).Nodup := Store.nodup_pairs hsorted
    have hlength : writes.length = (Store.pairs json).length := by rw [← hpairs, List.length_map]
    have hlog := LiveState.log_commit onChange time u s.live s.world
    refine ⟨u.changed, hlog, hnodup, ⟨fun h => ?_, fun h => ⟨?_, fun p hp => ?_⟩⟩, fun hdots => ?_⟩
    · rw [← hpairs]
      exact hwrites.length_changed_iff.1 (h.1.trans hlength.symm)
    · rw [← hpairs] at h
      exact (hwrites.length_changed_iff.2 h).trans hlength
    · rw [← hpairs] at h hp hnodup
      obtain ⟨w, hw, rfl⟩ := List.mem_map.1 hp
      refine ⟨w.2, ?_, hwrites.get?_changed h w hw⟩
      rw [LiveState.store_commit]
      exact hwrites.value?_of_mem hnodup w hw
    · exact hnodup.map_on fun p hp q hq he => Store.qualify_inj (hdots p hp) (hdots q hq) he

/-- Two properties of one package are found under their names and recorded as two. -/
theorem names_spec_lamp : ∃ (s : Session Unit Unit) (run : LiveState Unit × Unit),
    s = (fresh 5 ()).run ignore (fun _ => ignore)
      [.load (.object [("lamp", .object [("level", .string "integer"), ("on", .string "boolean")])]) "default"] ∧
    (∃ value, s.live.store.get "lamp.level" = .ok value ∧ value.toJson = .integer 0) ∧
    s.live.setAll ignore ⟨0, 0⟩ (.object [("lamp", .object [("level", .integer 3), ("on", .bool true)])]) s.world =
      .ok (some run) ∧
    ∃ changed, run.1.log = s.live.log.record ⟨0, 0⟩ changed ∧ changed.length = 2 := by
  let s : Session Unit Unit := (fresh 5 ()).run ignore (fun _ => ignore)
    [.load (.object [("lamp", .object [("level", .string "integer"), ("on", .string "boolean")])]) "default"]
  have hspec := Reachable.names_spec (s := s) ⟨5, (), _, rfl⟩
  have hsorted : Json.Sorted (.object [("lamp", .object [("level", .integer 3), ("on", .bool true)])]) :=
    ⟨List.pairwise_singleton _ _, ⟨List.pairwise_pair.2 (by decide), trivial, trivial, trivial⟩, trivial⟩
  have hlevel := hspec.1 "lamp" "level" (.integer 0) rfl
  obtain ⟨changed, hlog, _, hiff, hdots⟩ := hspec.2 ⟨0, 0⟩ _ _ hsorted rfl
  have hlamp : ∀ p ∈ [("lamp", "level"), ("lamp", "on")], '.' ∉ p.1.toList := by decide
  exact ⟨s, _, rfl, hlevel.2 (by decide) (by decide), rfl, changed, hlog, (hiff.2 (hdots hlamp)).1⟩

/-- **A property of a package with a dot in its name is taken for another one, a property with an empty name is not
found at all, and an update of two properties with one qualified name records one entry.** -/
theorem names_taken : ∃ s : Session Unit Unit,
    s = (fresh 5 ()).run ignore (fun _ => ignore)
      [.load (.object [("lamp", .object [("", .string "integer"), ("color.red", .string "integer")]),
          ("lamp.color", .object [("red", .string "integer")])]) "default",
        .setAll ⟨0, 0⟩ (.object [("lamp", .object [("color.red", .integer 1)]),
          ("lamp.color", .object [("red", .integer 2)])])] ∧
    s.live.store.toJson.property? "lamp.color" "red" = some (.integer 2) ∧
    s.live.store.get "lamp.color.red" = .ok (.integer 1) ∧
    s.live.store.toJson.property? "lamp" "" = some (.integer 0) ∧
    s.live.store.get "lamp." = .error Store.noPropertyName ∧
    s.live.log.pending.map (·.properties) = [[("lamp.color.red", .integer 2)]] :=
  ⟨_, rfl, rfl, rfl, rfl, rfl, rfl⟩

end Session

end Capability
