import Capability.Json.Record
import Capability.Proofs.Fields
import Capability.Proofs.Json.Reading

/-!
# Records that are written and read

A written object is read as a record with all of its fields, if their names are known and different
(`toRecord?_tree`). The parts of a record that was read from a text are stored as the text is
(`stored_of_toRecord?`).
-/

namespace Capability.Json

theorem fieldTrees_eq_map (fields : Fields Json) : fieldTrees fields = fields.map fun p => (some p.1, p.2.tree) := by
  induction fields with
  | nil => rfl
  | cons p fields ih => rw [fieldTrees, ih, List.map_cons]

namespace Tree

theorem namedFields?_map (fields : Fields Json) :
    namedFields? (fields.map fun p => (some p.1, p.2.tree)) = some (fields.mapValues Json.tree) := by
  induction fields with
  | nil => rfl
  | cons p fields ih =>
    rw [List.map_cons, namedFields?, ih]
    rfl

theorem hasDuplicate_of_nodup {names : List String} (h : names.Nodup) : hasDuplicate names = false := by
  induction names with
  | nil => rfl
  | cons name names ih =>
    obtain ⟨hname, hnames⟩ := List.nodup_cons.1 h
    rw [hasDuplicate, ih hnames, Bool.or_false]
    simpa using hname

end Tree

/-- **The record of a written object has its fields**, if their names are known and different. -/
theorem toRecord?_tree {fields : Fields Json} {names : List String} (hknown : ∀ p ∈ fields, p.1 ∈ names)
    (hn : fields.names.Nodup) : (Json.object fields).tree.toRecord? names = some (fields.mapValues tree) := by
  have hfilter : (fields.mapValues tree).filter (fun field => names.contains field.1) = fields.mapValues tree := by
    refine List.filter_eq_self.2 fun p hp => ?_
    obtain ⟨q, hq, rfl⟩ := List.mem_map.1 hp
    simpa using hknown q hq
  have hnodup : Tree.hasDuplicate ((fields.mapValues tree).map (·.1)) = false := by
    refine Tree.hasDuplicate_of_nodup ?_
    rw [show (fields.mapValues tree).map (·.1) = fields.names from Fields.names_mapValues tree fields]
    exact hn
  rw [tree, fieldTrees_eq_map, Tree.toRecord?, Tree.namedFields?_map]
  simp only [Option.bind_eq_bind, Option.bind_some, hfilter, hnodup]
  rfl

/-- The parts of a record are stored if the tree of the record is. -/
theorem stored_of_toRecord? {t : Tree} {names : List String} {record : List (String × Tree)} (ht : t.Stored)
    (h : t.toRecord? names = some record) : ∀ p ∈ record, p.2.Stored := by
  have hnamed : ∀ {fields : List (Option String × Tree)} {named : List (String × Tree)}, Tree.StoredFields fields →
      Tree.namedFields? fields = some named → ∀ p ∈ named, p.2.Stored := by
    intro fields
    induction fields with
    | nil =>
      intro named _ h
      obtain rfl := Option.some.inj h
      exact fun _ hp => absurd hp List.not_mem_nil
    | cons p fields ih =>
      intro named hs h
      obtain ⟨name, value⟩ := p
      obtain ⟨_, _, h⟩ := Option.bind_eq_some_iff.1 h
      obtain ⟨rest, hrest, h⟩ := Option.bind_eq_some_iff.1 h
      obtain rfl := Option.some.inj h
      exact List.forall_mem_cons.2 ⟨hs.1, ih hs.2 hrest⟩
  cases t with
  | object fields =>
    obtain ⟨named, hfields, h⟩ := Option.bind_eq_some_iff.1 h
    simp only at h
    split at h
    · cases h
    · obtain rfl := Option.some.inj h
      exact fun p hp => hnamed ht hfields p (List.mem_filter.1 hp).1
  | array items =>
    rw [Tree.toRecord?] at h
    split at h
    · obtain rfl := Option.some.inj h
      exact fun p hp => Tree.storedItems_iff.1 ht _ (List.of_mem_zip hp).2
    · cases h
  | _ => cases h

end Capability.Json
