import Capability.Proofs.State.Taking

/-!
# The last accepted write

A chronicle is a session with the calls that were made of it and with what became of them. It explains the whole store:
a property is declared by the one accepted load that defines it, and has the value that its type makes of what the last
accepted call gave it, or its initial value where no such call named it (`Store.Explained`).

* `Store.Explained.gains`, `Store.Explained.takes`: what an accepted load, and an accepted call that sets values, add to
  the explanation.
* `Chronicle.Explained.step`: every call keeps the store explained, a refused one because it changes nothing.
* `Session.last_accepted_write`: so the store is explained after any calls, and the types stay from then on.
-/

namespace Capability

variable {κ ω : Type}

/-! ## Explanations -/

/-- The type and the value of a property are what follows from the definitions that accepted loads gave it, and from the
JSON values that accepted calls gave it, the latest first. -/
inductive Store.Explained (s : Store) (package property : String) : List Json → List Json → Prop
  /-- Nobody defined it, and nobody gave it a value. -/
  | undeclared (htype : s.property? package property = none) (hvalue : s.value? package property = none) :
      Explained s package property [] []
  /-- It was defined once, and was given no value since. -/
  | initial {definition : Json} {type : Property} (hread : Property.ofJson none definition = .ok type)
      (htype : s.property? package property = some type) (hvalue : s.value? package property = some type.initial) :
      Explained s package property [definition] []
  /-- It was defined once, and has the value that was given last. -/
  | written {definition json : Json} {earlier : List Json} {type : Property} {value : Value}
      (hread : Property.ofJson none definition = .ok type) (htype : s.property? package property = some type)
      (hconvert : type.convert json = .ok value) (hvalue : s.value? package property = some value) :
      Explained s package property [definition] (json :: earlier)

namespace Store

variable {s s' : Store} {package property : String} {definitions given : List Json}

theorem Explained.congr (h : s.Explained package property definitions given)
    (htypes : s'.property? package property = s.property? package property)
    (hvalues : s'.value? package property = s.value? package property) :
    s'.Explained package property definitions given := by
  cases h with
  | undeclared htype hvalue => exact .undeclared (htypes.trans htype) (hvalues.trans hvalue)
  | initial hread htype hvalue => exact .initial hread (htypes.trans htype) (hvalues.trans hvalue)
  | written hread htype hconvert hvalue => exact .written hread (htypes.trans htype) hconvert (hvalues.trans hvalue)

/-- An accepted load explains what it declares, for nothing of it was declared before. -/
theorem Explained.gains {definition? : String → String → Option Json}
    (h : s.Explained package property definitions given) (hgains : s.Gains definition? s') :
    s'.Explained package property ((definition? package property).toList ++ definitions) given := by
  cases hd : definition? package property with
  | none =>
    obtain ⟨htypes, hvalues⟩ := hgains.kept package property hd
    exact h.congr htypes hvalues
  | some definition =>
    obtain ⟨hnew, type, hread, htype', hvalue'⟩ := hgains.new package property definition hd
    cases h with
    | undeclared => exact .initial hread htype' hvalue'
    | initial _ htype =>
      rw [hnew] at htype
      cases htype
    | written _ htype =>
      rw [hnew] at htype
      cases htype

/-- An accepted call explains the values that it stores. -/
theorem Explained.takes {given? : String → String → Option Json}
    (h : s.Explained package property definitions given) (htakes : s.Takes given? s') :
    s'.Explained package property definitions ((given? package property).toList ++ given) := by
  have htypes := htakes.property? package property
  cases hg : given? package property with
  | none => exact h.congr htypes (htakes.kept package property hg)
  | some json =>
    obtain ⟨type, value, htype, hconvert, hvalue'⟩ := htakes.taken package property json hg
    have htype' := htypes.trans htype
    cases h with
    | undeclared hundeclared =>
      rw [hundeclared] at htype
      cases htype
    | initial hread hdeclared =>
      obtain rfl := Option.some.inj (hdeclared.symm.trans htype)
      exact .written hread htype' hconvert hvalue'
    | written hread hdeclared =>
      obtain rfl := Option.some.inj (hdeclared.symm.trans htype)
      exact .written hread htype' hconvert hvalue'

/-- What is declared has exactly one definition. -/
theorem Explained.definition (h : s.Explained package property definitions given) {type : Property}
    (htype : s.property? package property = some type) :
    ∃ definition, definitions = [definition] ∧ Property.ofJson none definition = .ok type := by
  cases h with
  | undeclared hundeclared =>
    rw [hundeclared] at htype
    cases htype
  | initial hread hdeclared =>
    obtain rfl := Option.some.inj (hdeclared.symm.trans htype)
    exact ⟨_, rfl, hread⟩
  | written hread hdeclared =>
    obtain rfl := Option.some.inj (hdeclared.symm.trans htype)
    exact ⟨_, rfl, hread⟩

theorem Explained.property?_of_mem (h : s.Explained package property definitions given) {definition : Json}
    (hm : definition ∈ definitions) {type : Property} (hread : Property.ofJson none definition = .ok type) :
    s.property? package property = some type := by
  cases h with
  | undeclared => cases hm
  | initial hread' htype =>
    obtain rfl := List.mem_singleton.1 hm
    rw [htype, Except.ok.inj (hread'.symm.trans hread)]
  | written hread' htype =>
    obtain rfl := List.mem_singleton.1 hm
    rw [htype, Except.ok.inj (hread'.symm.trans hread)]

end Store

/-! ## Chronicles -/

/-- A session with the calls that were made of it, the latest first, and whether they were accepted. -/
structure Chronicle (κ ω : Type) where
  session : Session κ ω
  history : List (Call κ × Bool)

namespace Chronicle

/-- The definitions that accepted calls gave a property, the latest first. -/
def definitions (r : Chronicle κ ω) (package property : String) : List Json :=
  r.history.filterMap fun e => if e.2 then e.1.definition? package property else none

/-- The JSON values that accepted calls gave a property, the latest first. -/
def given (r : Chronicle κ ω) (package property : String) : List Json :=
  r.history.filterMap fun e => if e.2 then e.1.given? package property else none

/-- The accepted calls explain every property. -/
def Explained (r : Chronicle κ ω) : Prop :=
  ∀ package property, r.session.live.store.Explained package property (r.definitions package property)
    (r.given package property)

section Steps

variable (onChange : Reaction κ ω) (onAcknowledged : Nat → Reaction κ ω)

/-- Makes one more call. -/
def step (r : Chronicle κ ω) (c : Call κ) : Chronicle κ ω :=
  ⟨c.perform onChange onAcknowledged r.session, (c, c.accepted onChange r.session) :: r.history⟩

variable {onChange onAcknowledged}

theorem filterMap_cons_toList {α β : Type} (f : α → Option β) (a : α) (rest : List α) :
    (a :: rest).filterMap f = (f a).toList ++ rest.filterMap f := by
  rw [List.filterMap_cons]
  cases f a <;> rfl

/-- **A call keeps every property explained.** -/
theorem Explained.step {r : Chronicle κ ω} (h : r.Explained) {c : Call κ} (hc : c.Sorted) :
    (r.step onChange onAcknowledged c).Explained := by
  intro package property
  have hr := h package property
  unfold Chronicle.step definitions given
  rw [filterMap_cons_toList, filterMap_cons_toList]
  cases haccepted : c.accepted onChange r.session with
  | false =>
    rw [Call.perform_of_refused haccepted]
    exact hr
  | true =>
    rcases Call.store_of_accepted onAcknowledged hc haccepted with ⟨hgains, hnone⟩ | ⟨htakes, hnone⟩
    · have hnext := hr.gains hgains
      rw [if_pos rfl, if_pos rfl, hnone]
      exact hnext
    · have hnext := hr.takes htakes
      rw [if_pos rfl, if_pos rfl, hnone]
      exact hnext

theorem Explained.foldl {r : Chronicle κ ω} (h : r.Explained) {calls : List (Call κ)} (hcalls : ∀ c ∈ calls, c.Sorted) :
    (calls.foldl (Chronicle.step onChange onAcknowledged) r).Explained := by
  induction calls generalizing r with
  | nil => exact h
  | cons c rest ih =>
    exact ih (h.step (hcalls c List.mem_cons_self)) fun d hd => hcalls d (List.mem_cons_of_mem _ hd)

/-- More calls put more definitions in front of the earlier ones. -/
theorem exists_definitions_foldl (onChange : Reaction κ ω) (onAcknowledged : Nat → Reaction κ ω)
    (r : Chronicle κ ω) (calls : List (Call κ)) (package property : String) :
    ∃ later, (calls.foldl (Chronicle.step onChange onAcknowledged) r).definitions package property =
      later ++ r.definitions package property := by
  induction calls generalizing r with
  | nil => exact ⟨[], rfl⟩
  | cons c rest ih =>
    obtain ⟨later, hlater⟩ := ih (r.step onChange onAcknowledged c)
    refine ⟨later ++ (if c.accepted onChange r.session then c.definition? package property else none).toList, ?_⟩
    rw [List.foldl_cons, hlater, List.append_assoc]
    exact congrArg (later ++ ·) (filterMap_cons_toList ..)

end Steps

end Chronicle

namespace Session

variable (onChange : Reaction κ ω) (onAcknowledged : Nat → Reaction κ ω)

/-- The chronicle of calls that are made one after the other. -/
def chronicle (s : Session κ ω) (calls : List (Call κ)) : Chronicle κ ω :=
  calls.foldl (Chronicle.step onChange onAcknowledged) ⟨s, []⟩

/-- The chronicle follows the session. -/
theorem session_chronicle (s : Session κ ω) (calls : List (Call κ)) :
    (s.chronicle onChange onAcknowledged calls).session = s.run onChange onAcknowledged calls := by
  suffices h : ∀ r : Chronicle κ ω, (calls.foldl (Chronicle.step onChange onAcknowledged) r).session =
      r.session.run onChange onAcknowledged calls from h ⟨s, []⟩
  induction calls with
  | nil => exact fun r => rfl
  | cons c rest ih => exact fun r => ih (r.step onChange onAcknowledged c)

theorem chronicle_append (s : Session κ ω) (calls more : List (Call κ)) :
    s.chronicle onChange onAcknowledged (calls ++ more) =
      more.foldl (Chronicle.step onChange onAcknowledged) (s.chronicle onChange onAcknowledged calls) :=
  List.foldl_append

theorem explained_chronicle (capacity : Nat) (world : ω) {calls : List (Call κ)} (hcalls : ∀ c ∈ calls, c.Sorted) :
    ((fresh capacity world).chronicle onChange onAcknowledged calls).Explained := by
  refine Chronicle.Explained.foldl (fun package property => ?_) hcalls
  exact .undeclared rfl rfl

/-- **After any calls each property has the type of the one accepted load that defined it, and keeps it from then on.
Its value is what this type makes of the JSON value that the last accepted call gave the property, or the initial value
if no accepted call gave it one.** -/
theorem last_accepted_write (capacity : Nat) (world : ω) (calls more : List (Call κ))
    (hsorted : ∀ c ∈ calls ++ more, c.Sorted) (package property : String) :
    let r := (fresh capacity world).chronicle onChange onAcknowledged calls
    r.session = (fresh capacity world).run onChange onAcknowledged calls ∧
      r.session.live.store.Explained package property (r.definitions package property) (r.given package property) ∧
      ∀ type, r.session.live.store.property? package property = some type →
        ((fresh capacity world).chronicle onChange onAcknowledged (calls ++ more)).session.live.store.property? package
          property = some type := by
  intro r
  have hnow : r.Explained := explained_chronicle onChange onAcknowledged capacity world fun c hc =>
    hsorted c (List.mem_append_left _ hc)
  have hlater := explained_chronicle onChange onAcknowledged capacity world hsorted
  refine ⟨session_chronicle .., hnow package property, fun type htype => ?_⟩
  rw [chronicle_append] at hlater ⊢
  obtain ⟨added, hadded⟩ := Chronicle.exists_definitions_foldl onChange onAcknowledged r more package property
  -- there is one definition now, and still one later, so that it is the same
  obtain ⟨definition, hdefinitions, hread⟩ := (hnow package property).definition htype
  have hsame := hlater package property
  rw [hadded, hdefinitions] at hsame
  exact hsame.property?_of_mem (List.mem_append_right _ (List.mem_singleton.2 rfl)) hread

/-- A level that is set, refused, set without a change and refused a second definition, and a color that is declared
afterwards. -/
theorem last_accepted_write_lamp : ∃ (calls more : List (Call Unit)) (r : Chronicle Unit Unit),
    calls =
      [.load (.object [("lamp", .object [("level", .string "integer")])]) "default",
        .set ⟨0, 0⟩ "lamp.level" (.integer 3), .setAll ⟨1, 0⟩ (.object [("lamp", .object [("level", .bool true)])]),
        .preset (.object [("lamp", .object [("level", .integer 4)])]),
        .load (.object [("lamp", .object [("level", .string "string")])]) "extra"] ∧
    more = [.load (.object [("lamp", .object [("color", .string "string")])]) "extra"] ∧
    (∀ c ∈ calls ++ more, c.Sorted) ∧ r = (fresh 5 ()).chronicle ignore (fun _ => ignore) calls ∧
    r.history.map (·.2) = [false, true, false, true, true] ∧
    r.session.live.store.Explained "lamp" "level" [.string "integer"] [.integer 4, .integer 3] ∧
    ((fresh 5 ()).chronicle ignore (fun _ => ignore) (calls ++ more)).session.live.store.property? "lamp" "level" =
      some (.ofTypeName (.plain .integer)) := by
  refine ⟨_, _, _, rfl, rfl, ?sorted, rfl, rfl,
    (last_accepted_write ignore (fun _ => ignore) 5 () _ _ ?sorted "lamp" "level").2.1,
    (last_accepted_write ignore (fun _ => ignore) 5 () _ _ ?sorted "lamp" "level").2.2 _ rfl⟩
  simp [Call.Sorted, Json.Sorted, Json.SortedFields, Fields.Sorted]

end Session

end Capability
