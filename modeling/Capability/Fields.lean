/-!
# Named fields

`Fields α` are values under names, in ascending order of the names and each name once (`Fields.Sorted`). Names are
compared by code point, which is also the order of their UTF-8 bytes. The order is part of what this library
answers: fields are read, checked and written in it, and it decides which of several faults is reported.

* `get?_put`: after `put` a name has its new value, and the other names have their old ones.
* `Sorted.put`, `Sorted.ofPairs`: the order is kept, whatever order the pairs came in.
-/

namespace Capability

/-- Values under names, in ascending order of the names. -/
abbrev Fields (α : Type) := List (String × α)

namespace Fields

variable {α β : Type}

/-- Each name is less than all names after it. -/
def Sorted (fields : Fields α) : Prop :=
  fields.Pairwise fun a b => a.1 < b.1

/-- The value under a name. -/
def get? (fields : Fields α) (name : String) : Option α :=
  fields.lookup name

/-- Whether there is a value under the name. -/
def has (fields : Fields α) (name : String) : Bool :=
  (fields.get? name).isSome

/-- Stores a value under a name, in place of the value the name had. -/
def put (name : String) (value : α) : Fields α → Fields α
  | [] => [(name, value)]
  | (n, v) :: rest =>
    if name < n then (name, value) :: (n, v) :: rest
    else if name = n then (name, value) :: rest
    else (n, v) :: put name value rest

/-- The fields of a list of pairs; of two pairs with one name the later counts. -/
def ofPairs (pairs : List (String × α)) : Fields α :=
  pairs.foldl (fun fields p => fields.put p.1 p.2) []

/-- The fields of both; where a name is in both, the second counts. -/
def merge (older newer : Fields α) : Fields α :=
  newer.foldl (fun fields p => fields.put p.1 p.2) older

/-- The names in order. -/
def names (fields : Fields α) : List String :=
  fields.map (·.1)

/-- Applies a function to each value. -/
def mapValues (f : α → β) (fields : Fields α) : Fields β :=
  fields.map fun p => (p.1, f p.2)

/-- The entries that are there. -/
def present (entries : List (String × Option α)) : Fields α :=
  entries.filterMap fun entry => entry.2.map fun v => (entry.1, v)

/-! ## Look-up -/

@[simp] theorem get?_nil (name : String) : get? ([] : Fields α) name = none := rfl

theorem get?_cons (name n : String) (v : α) (rest : Fields α) :
    get? ((n, v) :: rest) name = if name = n then some v else get? rest name := by
  simp only [get?, List.lookup_cons]
  split <;> simp_all

theorem get?_put (name other : String) (value : α) (fields : Fields α) :
    (put name value fields).get? other = if other = name then some value else fields.get? other := by
  induction fields with
  | nil => simp [put, get?_cons]
  | cons p rest ih =>
    obtain ⟨n, v⟩ := p
    simp only [put]
    split
    · simp only [get?_cons]
    · split <;> grind [get?_cons]

@[simp] theorem get?_put_self (name : String) (value : α) (fields : Fields α) :
    (put name value fields).get? name = some value := by
  simp [get?_put]

theorem get?_put_of_ne {name other : String} (h : other ≠ name) (value : α) (fields : Fields α) :
    (put name value fields).get? other = fields.get? other := by
  simp [get?_put, h]

/-! ## Order -/

theorem sorted_nil : Sorted ([] : Fields α) := List.Pairwise.nil

theorem mem_put {name : String} {value : α} {p : String × α} {fields : Fields α} (h : p ∈ put name value fields) :
    p = (name, value) ∨ p ∈ fields := by
  induction fields with
  | nil => simpa [put] using h
  | cons q rest ih =>
    obtain ⟨n, v⟩ := q
    simp only [put] at h
    split at h
    · simpa using h
    · split at h <;> grind

theorem Sorted.put {fields : Fields α} (h : Sorted fields) (name : String) (value : α) :
    Sorted (fields.put name value) := by
  induction fields with
  | nil => exact List.pairwise_singleton _ _
  | cons q rest ih =>
    obtain ⟨n, v⟩ := q
    have hq : ∀ p ∈ rest, n < p.1 := (List.pairwise_cons.1 h).1
    have hr : Sorted rest := (List.pairwise_cons.1 h).2
    simp only [Fields.put]
    split
    case isTrue hlt =>
      refine List.pairwise_cons.2 ⟨fun p hp => ?_, h⟩
      rcases List.mem_cons.1 hp with rfl | hp
      · exact hlt
      · exact String.lt_trans hlt (hq p hp)
    case isFalse hlt =>
      split
      case isTrue heq => exact List.pairwise_cons.2 ⟨fun p hp => heq ▸ hq p hp, hr⟩
      case isFalse hne =>
        refine List.pairwise_cons.2 ⟨fun p hp => ?_, ih hr⟩
        rcases mem_put hp with rfl | hp
        · exact Decidable.byContradiction fun hn =>
            hne (String.le_antisymm (String.not_lt.1 hn) (String.not_lt.1 hlt))
        · exact hq p hp

theorem Sorted.merge {older : Fields α} (h : Sorted older) (newer : Fields α) : Sorted (older.merge newer) := by
  induction newer generalizing older with
  | nil => exact h
  | cons p rest ih => exact ih (h.put p.1 p.2)

theorem Sorted.ofPairs (pairs : List (String × α)) : Sorted (Fields.ofPairs pairs) :=
  sorted_nil.merge pairs

theorem Sorted.mapValues {fields : Fields α} (h : Sorted fields) (f : α → β) : Sorted (fields.mapValues f) :=
  List.pairwise_map.2 h

end Fields

end Capability
