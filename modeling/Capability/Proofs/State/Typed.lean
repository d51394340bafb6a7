import Capability.Proofs.Schema.Shaped
import Capability.Proofs.State.Taking

/-!
# The types of the state

Every declared property of the state has a type that was read from a definition without a base, and a value that is
either the initial value of this type or what the type makes of a JSON value (`Store.Typed`). Loads and updates keep it
so, and the rest follows from what is known of such types: the shape of the values, that each value but an initial one
is accepted again, and that the state is written without nulls.

* `Store.Typed.gains`, `Store.Typed.takes`: loads and updates keep the state typed.
* `Session.typed_spec`: the state is typed after any calls.
-/

namespace Capability

variable {κ ω : Type}

namespace Store

variable {s s' : Store}

/-- The types of the state are read from definitions, and the values are initial values or made of JSON values. -/
def Typed (s : Store) : Prop :=
  ∀ package property type, s.property? package property = some type →
    (∃ definition : Json, definition.Sorted ∧ Property.ofJson none definition = .ok type) ∧
      ∀ value, s.value? package property = some value → value = type.initial ∨ ∃ json, type.convert json = .ok value

theorem typed_empty : empty.Typed := fun _ _ _ h => by cases h

/-- A load adds types that are read from its definitions, with their initial values. -/
theorem Typed.gains {definition? : String → String → Option Json} (h : s.Typed)
    (hsorted : ∀ package property definition, definition? package property = some definition → definition.Sorted)
    (hgains : s.Gains definition? s') : s'.Typed := by
  intro package property type htype
  cases hd : definition? package property with
  | none =>
    obtain ⟨htypes, hvalues⟩ := hgains.kept package property hd
    rw [htypes] at htype
    rw [hvalues]
    exact h package property type htype
  | some definition =>
    obtain ⟨_, type', hread, htype', hvalue'⟩ := hgains.new package property definition hd
    obtain rfl := Option.some.inj (htype'.symm.trans htype)
    refine ⟨⟨definition, hsorted package property definition hd, hread⟩, fun value hvalue => .inl ?_⟩
    exact Option.some.inj (hvalue.symm.trans hvalue')

/-- An update stores values that the types make of JSON values. -/
theorem Typed.takes {given? : String → String → Option Json} (h : s.Typed) (htakes : s.Takes given? s') : s'.Typed := by
  intro package property type htype
  rw [htakes.property?] at htype
  obtain ⟨hread, hvalues⟩ := h package property type htype
  refine ⟨hread, fun value hvalue => ?_⟩
  cases hg : given? package property with
  | none =>
    rw [htakes.kept package property hg] at hvalue
    exact hvalues value hvalue
  | some json =>
    obtain ⟨type', value', htype', hconvert, hvalue'⟩ := htakes.taken package property json hg
    obtain rfl := Option.some.inj (htype'.symm.trans htype)
    obtain rfl := Option.some.inj (hvalue'.symm.trans hvalue)
    exact .inr ⟨json, hconvert⟩

/-- Values of typed state have the shape of their type and are accepted by it, except perhaps an initial value. -/
theorem Typed.value (h : s.Typed) {package property : String} {type : Property} {value : Value}
    (htype : s.property? package property = some type) (hvalue : s.value? package property = some value) :
    type.Shaped value ∧ (value = type.initial ∨ type.Accepts value) := by
  obtain ⟨⟨definition, hsorted, hread⟩, hvalues⟩ := h package property type htype
  obtain ⟨hrests, hw⟩ := restsOn_ofJson definition hsorted (fun _ he => by cases he) hread
  obtain ⟨hinitial, hconverted⟩ := hrests.value_of_none hw
  rcases hvalues value hvalue with rfl | ⟨json, hconvert⟩
  · exact ⟨hinitial, .inl rfl⟩
  · obtain ⟨hshaped, haccepts⟩ := hconverted json value hconvert
    exact ⟨hshaped, .inr haccepts⟩

/-- The state is written without nulls. -/
theorem nullFree_toJson (s : Store) : s.toJson.NullFree := by
  refine Json.nullFreeFields_iff.2 fun entry hentry => ?_
  obtain ⟨⟨name, p⟩, _, rfl⟩ := List.mem_map.1 hentry
  exact Value.nullFree_membersToJson p.values

end Store

/-! ## Runs -/

theorem Call.Sorted.definition? {c : Call κ} (h : c.Sorted) {package property : String} {definition : Json}
    (hd : c.definition? package property = some definition) : definition.Sorted := by
  cases c with
  | load json category => exact Json.Sorted.property? h hd
  | _ => cases hd

namespace Session

variable (onChange : Reaction κ ω) (onAcknowledged : Nat → Reaction κ ω)

/-- **A call keeps the state typed.** -/
theorem typed_perform {s : Session κ ω} (h : s.live.store.Typed) {c : Call κ} (hc : c.Sorted) :
    (c.perform onChange onAcknowledged s).live.store.Typed := by
  cases haccepted : c.accepted onChange s with
  | false =>
    rw [Call.perform_of_refused haccepted]
    exact h
  | true =>
    rcases Call.store_of_accepted onAcknowledged hc haccepted with ⟨hgains, _⟩ | ⟨htakes, _⟩
    · exact h.gains (fun _ _ _ hd => hc.definition? hd) hgains
    · exact h.takes htakes

theorem typed_run {s : Session κ ω} (h : s.live.store.Typed) {calls : List (Call κ)} (hcalls : ∀ c ∈ calls, c.Sorted) :
    (s.run onChange onAcknowledged calls).live.store.Typed := by
  induction calls generalizing s with
  | nil => exact h
  | cons c rest ih =>
    have hfirst := typed_perform onChange onAcknowledged h (hcalls c List.mem_cons_self)
    exact ih hfirst fun d hd => hcalls d (List.mem_cons_of_mem _ hd)

/-- **After any calls each package has values for exactly the properties that it declares. Each value has the shape of
its type, and is the initial value or accepted by the type as it is. There is no null in the state.** -/
theorem typed_spec (capacity : Nat) (world : ω) {calls : List (Call κ)} (hcalls : ∀ c ∈ calls, c.Sorted) :
    let store := ((fresh capacity world).run onChange onAcknowledged calls).live.store
    (∀ package p, store.packages.get? package = some p →
      (∀ property, (p.get? property).isSome = (p.type.get? property).isSome) ∧
        ∀ property type value, p.type.get? property = some type → p.get? property = some value →
          type.Shaped value ∧ (value = type.initial ∨ type.convert value.toJson = .ok value)) ∧
      store.toJson.NullFree := by
  intro store
  have hsound : store.Sound := Reachable.sound ⟨capacity, world, calls, rfl⟩
  have htyped : store.Typed := typed_run onChange onAcknowledged Store.typed_empty hcalls
  refine ⟨fun package p hp => ⟨hsound package p hp, fun property type value htype hvalue => ?_⟩, store.nullFree_toJson⟩
  have hproperty : store.property? package property = some type := by
    rw [Store.property?, hp]
    exact htype
  have hfound : store.value? package property = some value := by
    rw [Store.value?, hp]
    exact hvalue
  exact htyped.value hproperty hfound

/-- Levels that are set. -/
theorem typed_spec_levels : ∃ (calls : List (Call Unit)) (store : Store) (p : Package) (type : Property),
    calls =
      [.load (.object [("lamp", .object [("levels", .string "array.integer")])]) "default",
        .set ⟨0, 0⟩ "lamp.levels" (.array [.integer 3])] ∧
    (∀ c ∈ calls, c.Sorted) ∧ store = ((fresh 5 ()).run ignore (fun _ => ignore) calls).live.store ∧
    store.packages.get? "lamp" = some p ∧ p.type.get? "levels" = some type ∧
    p.get? "levels" = some (.array [.integer 3]) ∧ type.Shaped (.array [.integer 3]) ∧ store.toJson.NullFree := by
  refine ⟨_, _, _, _, rfl, ?sorted, rfl, rfl, rfl, rfl,
    (((typed_spec ignore (fun _ => ignore) 5 () ?sorted).1 "lamp" _ rfl).2 "levels" _ _ rfl rfl).1,
    (typed_spec ignore (fun _ => ignore) 5 () ?sorted).2⟩
  simp [Call.Sorted, Json.Sorted, Json.SortedFields, Json.SortedItems, Fields.Sorted]

end Session

end Capability
