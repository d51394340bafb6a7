import Capability.Json.Tree
import Capability.Proofs.Double
import Capability.Proofs.Fields

/-!
# Names and numbers in JSON values

In every object of a value that is read from a text the names are in order (`Json.sorted_of_read?`), however they are
given there. A number is read as an integer exactly when that is its value (`Json.Number.toInt64?_eq_some_iff`). In a
tree of packages a value lies under two names, that of its package and its own (`Json.property?`).
-/

namespace Capability.Json

theorem sortedFields_iff {fields : List (String × Json)} : SortedFields fields ↔ ∀ p ∈ fields, p.2.Sorted := by
  induction fields with
  | nil => simp [SortedFields]
  | cons p rest ih =>
    obtain ⟨n, json⟩ := p
    simp [SortedFields, ih]

theorem sortedItems_iff {items : List Json} : SortedItems items ↔ ∀ json ∈ items, json.Sorted := by
  induction items with
  | nil => simp [SortedItems]
  | cons item rest ih => simp [SortedItems, ih]

/-- One field is in order. -/
theorem Sorted.single {json : Json} (h : json.Sorted) (name : String) : (Json.object [(name, json)]).Sorted :=
  ⟨List.pairwise_singleton _ _, h, trivial⟩

/-- The fields of pairs are in order, and so are the values if those of the pairs are. -/
theorem sorted_ofPairs {pairs : List (String × Json)} (h : ∀ p ∈ pairs, p.2.Sorted) :
    (Json.object (Fields.ofPairs pairs)).Sorted := by
  refine ⟨Fields.Sorted.ofPairs pairs, sortedFields_iff.2 fun p hp => ?_⟩
  rcases Fields.mem_merge hp with hp | hp
  · cases hp
  · exact h p hp

mutual
/-- **The names are in order in the value of a tree.** -/
theorem sorted_of_toJson? : ∀ (tree : Tree) {levels : Nat} {json : Json}, tree.toJson? levels = some json → json.Sorted
  | .null, _, _, h => by
    obtain rfl := Option.some.inj h
    trivial
  | .bool _, _, _, h => by
    obtain rfl := Option.some.inj h
    trivial
  | .number _, _, _, h => by
    obtain ⟨_, _, rfl⟩ := Option.map_eq_some_iff.1 h
    trivial
  | .string _, _, _, h => by
    obtain ⟨_, _, rfl⟩ := Option.map_eq_some_iff.1 h
    trivial
  | .array items, levels, _, h => by
    rw [Tree.toJson?] at h
    split at h
    · cases h
    · obtain ⟨jsons, hjsons, rfl⟩ := Option.map_eq_some_iff.1 h
      exact sortedItems_iff.2 (sorted_of_itemsToJson? items hjsons)
  | .object fields, levels, _, h => by
    rw [Tree.toJson?] at h
    split at h
    · cases h
    · obtain ⟨pairs, hpairs, rfl⟩ := Option.map_eq_some_iff.1 h
      exact sorted_ofPairs (sorted_of_fieldsToJson? fields hpairs)

theorem sorted_of_itemsToJson? : ∀ (items : List Tree) {levels : Nat} {jsons : List Json},
    Tree.itemsToJson? levels items = some jsons → ∀ json ∈ jsons, json.Sorted
  | [], _, _, h => by
    obtain rfl := Option.some.inj h
    exact fun _ hj => absurd hj List.not_mem_nil
  | item :: items, _, _, h => by
    rw [Tree.itemsToJson?] at h
    obtain ⟨json, hjson, h⟩ := Option.bind_eq_some_iff.1 h
    obtain ⟨jsons, hjsons, h⟩ := Option.bind_eq_some_iff.1 h
    obtain rfl := Option.some.inj h
    exact List.forall_mem_cons.2 ⟨sorted_of_toJson? item hjson, sorted_of_itemsToJson? items hjsons⟩

theorem sorted_of_fieldsToJson? : ∀ (fields : List (Option String × Tree)) {levels : Nat}
    {pairs : List (String × Json)}, Tree.fieldsToJson? levels fields = some pairs → ∀ p ∈ pairs, p.2.Sorted
  | [], _, _, h => by
    obtain rfl := Option.some.inj h
    exact fun _ hp => absurd hp List.not_mem_nil
  | (name, tree) :: fields, _, _, h => by
    rw [Tree.fieldsToJson?] at h
    obtain ⟨n, _, h⟩ := Option.bind_eq_some_iff.1 h
    obtain ⟨json, hjson, h⟩ := Option.bind_eq_some_iff.1 h
    obtain ⟨pairs, hpairs, h⟩ := Option.bind_eq_some_iff.1 h
    obtain rfl := Option.some.inj h
    exact List.forall_mem_cons.2 ⟨sorted_of_toJson? tree hjson, sorted_of_fieldsToJson? fields hpairs⟩
end

/-- **The names are in order in every value that is read from a text.** -/
theorem sorted_of_read? {text : String} {json : Json} (h : read? text = some json) : json.Sorted := by
  obtain ⟨tree, _, h⟩ := Option.bind_eq_some_iff.1 h
  exact sorted_of_toJson? tree h

/-! ## Numbers by value -/

/-- The exact value of a number as a multiple of the least positive double. -/
def Number.units : Number → Int
  | .integer n => n * Double.one
  | .double d => d.units

/-- The value of an integer number is an integer just if it is this one. -/
theorem Number.units_integer_iff {m n : Int} : (Number.integer m).units = n * Double.one ↔ m = n :=
  Int.mul_eq_mul_right_iff (Int.natCast_ne_zero.2 (Nat.ne_of_gt Double.one_pos))

/-- **A number is read as a 64-bit integer exactly when that is its value.** An unsigned integer beyond the signed range
is rounded to a double first, but not back into the range. -/
theorem Number.toInt64?_eq_some_iff {num : Number} {n : Int64} :
    num.toInt64? = some n ↔ num.units = n.toInt * Double.one := by
  cases num with
  | double d => exact Double.toInt64?_eq_some_iff
  | integer m =>
    rw [units_integer_iff, toInt64?]
    split
    · rename_i hsigned
      rw [Option.some.injEq, ← Int64.toInt_inj, Int64.toInt_ofInt_of_le hsigned.1 (Int.lt_of_le_sub_one hsigned.2)]
    · rename_i hsigned
      have hne : m ≠ n.toInt := fun hm => hsigned (hm ▸ ⟨n.minValue_le_toInt, n.toInt_le⟩)
      split
      · rename_i hpos
        refine iff_of_false (fun h => ?_) hne
        have hgreat : (Double.twoTo 63 : Int) ≤ m := by
          have hlow : Int64.minValue.toInt ≤ m := Int.le_trans (by decide) hpos
          exact Int.not_le.1 fun h => hsigned ⟨hlow, h⟩
        have hunits := Double.le_units_ofInt (by decide) hgreat
        rw [Double.toInt64?_eq_some_iff.1 h] at hunits
        have hone : (0 : Int) < Double.one := Int.natCast_pos.2 Double.one_pos
        exact absurd (Int.le_of_mul_le_mul_right hunits hone) (Int.not_le.2 n.toInt_lt)
      · exact iff_of_false (fun h => by cases h) hne

theorem toInt64?_eq_some_iff {json : Json} {n : Int64} :
    json.toInt64? = some n ↔ ∃ num, json = .number num ∧ num.units = n.toInt * Double.one := by
  cases json with
  | number num =>
    rw [toInt64?, Number.toInt64?_eq_some_iff]
    refine ⟨fun h => ⟨num, rfl, h⟩, ?_⟩
    rintro ⟨_, hnum, h⟩
    obtain rfl := Json.number.inj hnum
    exact h
  | _ =>
    refine iff_of_false (fun h => ?_) ?_
    · cases h
    · rintro ⟨_, hnum, _⟩
      cases hnum

theorem toDouble?_eq_some_iff {json : Json} {d : Double} :
    json.toDouble? = some d ↔ ∃ num, json = .number num ∧ num.toDouble = d := by
  cases json <;> simp [toDouble?]

/-! ## Contents -/

theorem toBool?_eq_some_iff {json : Json} {b : Bool} : json.toBool? = some b ↔ json = .bool b := by
  cases json <;> simp [toBool?]

theorem toString?_eq_some_iff {json : Json} {s : String} : json.toString? = some s ↔ json = .string s := by
  cases json <;> simp [toString?]

/-! ## Nulls -/

mutual
/-- There is no null in the value, at any depth. -/
def NullFree : Json → Prop
  | .null => False
  | .array items => NullFreeItems items
  | .object fields => NullFreeFields fields
  | .bool _ | .number _ | .string _ => True

/-- There is no null in any of the items. -/
def NullFreeItems : List Json → Prop
  | [] => True
  | item :: items => item.NullFree ∧ NullFreeItems items

/-- There is no null in any of the values. -/
def NullFreeFields : List (String × Json) → Prop
  | [] => True
  | (_, value) :: fields => value.NullFree ∧ NullFreeFields fields
end

theorem nullFreeFields_iff {fields : List (String × Json)} : NullFreeFields fields ↔ ∀ p ∈ fields, p.2.NullFree := by
  induction fields with
  | nil => simp [NullFreeFields]
  | cons p rest ih =>
    obtain ⟨n, json⟩ := p
    simp [NullFreeFields, ih]

/-! ## Trees of packages -/

/-- The value of a property in a tree of the state. -/
def property? (state : Json) (package property : String) : Option Json := do
  let packages ← state.toFields?
  let properties ← (← packages.get? package).toFields?
  properties.get? property

theorem property?_eq_some_iff {json value : Json} {package property : String} :
    json.property? package property = some value ↔ ∃ packages properties, json = .object packages ∧
      Fields.get? packages package = some (.object properties) ∧ Fields.get? properties property = some value := by
  cases json with
  | object packages =>
    show ((Fields.get? packages package).bind _) = some value ↔ _
    rw [Option.bind_eq_some_iff]
    constructor
    · rintro ⟨json, hjson, h⟩
      cases json with
      | object properties => exact ⟨packages, properties, rfl, hjson, h⟩
      | _ => cases h
    · rintro ⟨_, properties, he, hpackage, hproperty⟩
      obtain rfl := Json.object.inj he
      exact ⟨.object properties, hpackage, hproperty⟩
  | _ =>
    refine ⟨fun h => ?_, fun ⟨_, _, he, _⟩ => ?_⟩
    · cases h
    · cases he

theorem property?_of_get? {packages properties : Fields Json} {package : String}
    (h : packages.get? package = some (.object properties)) (property : String) :
    (Json.object packages).property? package property = properties.get? property := by
  show ((packages.get? package).bind _) = _
  rw [h]
  rfl

theorem Sorted.property? {json value : Json} (h : json.Sorted) {package property : String}
    (hp : json.property? package property = some value) : value.Sorted := by
  obtain ⟨packages, properties, rfl, hpackage, hproperty⟩ := property?_eq_some_iff.1 hp
  have hproperties : (Json.object properties).Sorted := sortedFields_iff.1 h.2 _ (Fields.mem_of_get? hpackage)
  exact sortedFields_iff.1 hproperties.2 _ (Fields.mem_of_get? hproperty)

end Capability.Json
