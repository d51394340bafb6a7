import Capability.Device.Basic
import Capability.Proofs.Fault
import Capability.Proofs.Json.Record

/-!
# Configurations that are written and read back

A configuration that was read from a text or set up part by part (`Reachable`) is written as a text that is read back
as the same configuration, in whatever order its fields are written, but for the trees that were set to null: a field
that is null counts as left out (`reread_spec`). That doubles are read back from their texts is assumed of those in the
trees. A device takes no tree that is null, so its configuration is read back as it was (`read_text_of_ofConfig`).

* `valid_of_read`, `Valid.set`: reading makes a configuration valid, and every setting keeps it so.
* `ofTree?_tree`: what the tree of a configuration denotes.
-/

namespace Capability.Config

open Json

/-! ## Valid configurations -/

/-- The trees that are not left out. -/
def trees (c : Config) : List Json :=
  c.commands.toList ++ c.state.toList ++ c.values.toList

/-- The capacities have 64 bits, and the trees may be read from a text, one level down. -/
structure Valid (c : Config) : Prop where
  changeCapacity : c.changeCapacity < UInt64.size
  eventCapacity : c.eventCapacity < UInt64.size
  trees : ∀ json ∈ c.trees, json.Valid (Tree.maxLevels - 1)

/-- A tree that is set may be read from a text, one level down. -/
def Setting.Valid : Setting → Prop
  | .changeCapacity _ | .eventCapacity _ => True
  | .commands json | .state json | .values json => json.Valid (Tree.maxLevels - 1)

/-- The configuration was made with nothing given or read from a text, and its parts were set after that. -/
def Reachable (c : Config) : Prop :=
  ∃ (start : Config) (settings : List Setting), (start = {} ∨ ∃ text, read text = .ok start) ∧
    (∀ s ∈ settings, s.Valid) ∧ c = settings.foldl set start

variable {c : Config}

theorem forall_trees_iff {P : Json → Prop} : (∀ json ∈ c.trees, P json) ↔
    (∀ json ∈ c.commands, P json) ∧ (∀ json ∈ c.state, P json) ∧ ∀ json ∈ c.values, P json := by
  simp only [trees, List.forall_mem_append, Option.mem_toList, Option.mem_def, and_assoc]

theorem valid_default : Valid {} :=
  ⟨by decide, by decide, fun _ hj => absurd hj List.not_mem_nil⟩

/-- Setting a part keeps a configuration valid. -/
theorem Valid.set (h : c.Valid) {s : Setting} (hs : s.Valid) : (c.set s).Valid := by
  obtain ⟨hchange, hevent, htrees⟩ := h
  obtain ⟨hcommands, hstate, hvalues⟩ := forall_trees_iff.1 htrees
  have hset {json : Json} (hj : json.Valid (Tree.maxLevels - 1)) :
      ∀ j ∈ some json, j.Valid (Tree.maxLevels - 1) := by
    intro j hmem
    obtain rfl := Option.some.inj hmem
    exact hj
  cases s with
  | changeCapacity n => exact ⟨n.toNat_lt, hevent, htrees⟩
  | eventCapacity n => exact ⟨hchange, n.toNat_lt, htrees⟩
  | commands json => exact ⟨hchange, hevent, forall_trees_iff.2 ⟨hset hs, hstate, hvalues⟩⟩
  | state json => exact ⟨hchange, hevent, forall_trees_iff.2 ⟨hcommands, hset hs, hvalues⟩⟩
  | values json => exact ⟨hchange, hevent, forall_trees_iff.2 ⟨hcommands, hstate, hset hs⟩⟩

/-- A capacity that is read has 64 bits. -/
theorem lt_of_capacity? {default n : Nat} (hdefault : default < UInt64.size) {tree? : Option Tree}
    (ht : ∀ t ∈ tree?, t.Stored) (h : capacity? default tree? = some n) : n < UInt64.size := by
  cases tree? with
  | none =>
    obtain rfl := Option.some.inj h
    exact hdefault
  | some tree =>
    unfold capacity? Tree.toUInt64? at h
    simp only at h
    split at h
    · rename_i m
      split at h
      · obtain rfl := Option.some.inj h
        have hm : Number.Storable (.integer m) := ht _ rfl _ rfl
        have := hm.2
        omega
      · cases h
    · cases h

/-- A tree that is read is valid. -/
theorem valid_of_tree? {tree? : Option Tree} (ht : ∀ t ∈ tree?, t.Stored) {json? : Option Json}
    (h : Config.tree? tree? = some json?) : ∀ json ∈ json?, json.Valid (Tree.maxLevels - 1) := by
  unfold Config.tree? at h
  split at h
  · obtain rfl := Option.some.inj h
    exact fun _ hj => absurd hj nofun
  · obtain rfl := Option.some.inj h
    exact fun _ hj => absurd hj nofun
  · obtain ⟨json, hjson, rfl⟩ := Option.map_eq_some_iff.1 h
    intro j hj
    obtain rfl := Option.some.inj hj
    exact valid_of_toJson? (ht _ rfl) hjson

/-- **A configuration that is read is valid.** -/
theorem valid_of_read {text : String} (h : read text = .ok c) : c.Valid := by
  unfold read at h
  split at h
  · rename_i hread
    obtain rfl := Except.ok.inj h
    obtain ⟨tree, htree, hof⟩ := Option.bind_eq_some_iff.1 hread
    obtain ⟨record, hrecord, hof⟩ := Option.bind_eq_some_iff.1 hof
    obtain ⟨changeCapacity, hchange, hof⟩ := Option.bind_eq_some_iff.1 hof
    obtain ⟨eventCapacity, hevent, hof⟩ := Option.bind_eq_some_iff.1 hof
    obtain ⟨commands, hcommands, hof⟩ := Option.bind_eq_some_iff.1 hof
    obtain ⟨state, hstate, hof⟩ := Option.bind_eq_some_iff.1 hof
    obtain ⟨values, hvalues, hof⟩ := Option.bind_eq_some_iff.1 hof
    obtain rfl := Option.some.inj hof
    have hstored (name : String) : ∀ t ∈ record.lookup name, t.Stored := fun t ht =>
      stored_of_toRecord? (Tree.stored_of_ofText? htree) hrecord _ (Fields.mem_of_get? ht)
    exact ⟨lt_of_capacity? (by decide) (hstored _) hchange, lt_of_capacity? (by decide) (hstored _) hevent,
      forall_trees_iff.2 ⟨valid_of_tree? (hstored _) hcommands, valid_of_tree? (hstored _) hstate,
        valid_of_tree? (hstored _) hvalues⟩⟩
  · cases h

/-- **A configuration that was read or made with nothing given, and set part by part after that, is valid.** -/
theorem Reachable.valid (h : c.Reachable) : c.Valid := by
  obtain ⟨start, settings, hstart, hsettings, rfl⟩ := h
  have hvalid : start.Valid := by
    rcases hstart with rfl | ⟨text, htext⟩
    · exact valid_default
    · exact valid_of_read htext
  clear hstart
  -- only that it is valid is known of the configuration between two settings
  induction settings generalizing start with
  | nil => exact hvalid
  | cons s settings ih =>
    obtain ⟨hs, hsettings⟩ := List.forall_mem_cons.1 hsettings
    exact ih _ hsettings (hvalid.set hs)

/-! ## Nulls -/

/-- What a tree is when a null counts as left out. -/
def dropNull : Option Json → Option Json
  | some .null => none
  | json? => json?

/-- The configuration whose trees that are null are left out. -/
def withoutNulls (c : Config) : Config :=
  { c with commands := dropNull c.commands, state := dropNull c.state, values := dropNull c.values }

theorem dropNull_eq_iff {json? : Option Json} : dropNull json? = json? ↔ ∀ json ∈ json?, json ≠ .null := by
  unfold dropNull
  split
  · exact iff_of_false nofun fun h => h _ rfl rfl
  · rename_i hne
    refine iff_of_true rfl ?_
    rintro _ rfl rfl
    exact hne rfl

/-- A configuration stays the same without its nulls exactly if it has none. -/
theorem withoutNulls_eq_iff : c.withoutNulls = c ↔ ∀ json ∈ c.trees, json ≠ .null := by
  rw [forall_trees_iff, ← dropNull_eq_iff, ← dropNull_eq_iff, ← dropNull_eq_iff]
  constructor
  · intro h
    exact ⟨congrArg commands h, congrArg state h, congrArg values h⟩
  · rintro ⟨hcommands, hstate, hvalues⟩
    rw [withoutNulls, hcommands, hstate, hvalues]

/-! ## Fields -/

theorem names_entries (c : Config) : c.entries.map (·.1) =
    ["base_commands", "base_state", "base_state_defaults", "event_capacity", "state_queue_capacity"] :=
  rfl

theorem nodup_entries (c : Config) : (c.entries.map (·.1)).Nodup := by
  rw [names_entries]
  decide

theorem nodup_fields (c : Config) : c.fields.names.Nodup :=
  c.nodup_entries.sublist (Fields.names_present_sublist _)

/-- What stands under a key. -/
theorem get?_fields (c : Config) (key : String) : c.fields.get? key = (c.entries.lookup key).join :=
  Fields.get?_present c.nodup_entries key

theorem mem_keys_of_mem_fields {p : String × Json} (h : p ∈ c.fields) : p.1 ∈ keys := by
  have hname := (Fields.names_present_sublist c.entries).mem (List.mem_map_of_mem h)
  rw [names_entries] at hname
  exact (by decide : ∀ name ∈ _, name ∈ keys) p.1 hname

/-- A field holds a tree or a capacity. -/
theorem of_mem_fields {p : String × Json} (h : p ∈ c.fields) :
    p.2 ∈ c.trees ∨ p.2 = .integer c.eventCapacity ∨ p.2 = .integer c.changeCapacity := by
  obtain ⟨entry, hentry, hp⟩ := List.mem_filterMap.1 h
  obtain ⟨json, hjson, rfl⟩ := Option.map_eq_some_iff.1 hp
  simp only [entries, List.mem_cons, List.not_mem_nil, or_false] at hentry
  simp only [trees, List.mem_append, Option.mem_toList]
  rcases hentry with rfl | rfl | rfl | rfl | rfl
  · exact .inl (.inl (.inl hjson))
  · exact .inl (.inl (.inr hjson))
  · exact .inl (.inr hjson)
  · exact .inr (.inl (Option.some.inj hjson).symm)
  · exact .inr (.inr (Option.some.inj hjson).symm)

/-! ## Reading what is written -/

theorem tree?_tree {json? : Option Json} (h : ∀ json ∈ json?, json.Valid (Tree.maxLevels - 1)) :
    tree? (json?.map Json.tree) = some (dropNull json?) := by
  cases json? with
  | none => rfl
  | some json =>
    have hread := toJson?_tree (h json rfl).sorted (h json rfl).shallow
    cases json with
    | null => rfl
    | _ => exact congrArg (Option.map some) hread

variable {fields : Fields Json}

/-- The tree of a configuration, with its fields in any order, denotes it but for its nulls. -/
theorem ofTree?_tree (hc : c.Valid) (hf : fields.Perm c.fields) :
    ofTree? (Json.object fields).tree = some c.withoutNulls := by
  have hknown : ∀ p ∈ fields, p.1 ∈ keys := fun p hp => mem_keys_of_mem_fields (hf.mem_iff.1 hp)
  have hnodup : fields.names.Nodup := (hf.map _).nodup_iff.2 c.nodup_fields
  have hlookup (key : String) : (fields.mapValues tree).lookup key = (c.entries.lookup key).join.map tree := by
    rw [← get?_fields, ← Fields.get?_perm hf c.nodup_fields]
    exact Fields.get?_mapValues tree fields key
  have hchange : capacity? 100 ((fields.mapValues tree).lookup "state_queue_capacity") = some c.changeCapacity := by
    rw [hlookup]
    rfl
  have hevent : capacity? 256 ((fields.mapValues tree).lookup "event_capacity") = some c.eventCapacity := by
    rw [hlookup]
    rfl
  obtain ⟨hcommands, hstate, hvalues⟩ := forall_trees_iff.1 hc.trees
  have hcommands : tree? ((fields.mapValues tree).lookup "base_commands") = some (dropNull c.commands) := by
    rw [hlookup]
    exact tree?_tree hcommands
  have hstate : tree? ((fields.mapValues tree).lookup "base_state") = some (dropNull c.state) := by
    rw [hlookup]
    exact tree?_tree hstate
  have hvalues : tree? ((fields.mapValues tree).lookup "base_state_defaults") = some (dropNull c.values) := by
    rw [hlookup]
    exact tree?_tree hvalues
  rw [ofTree?, toRecord?_tree hknown hnodup]
  simp only [Option.bind_eq_bind, Option.bind_some, hchange, hevent, hcommands, hstate, hvalues]
  rfl

/-- The doubles in the trees are read back from their texts. Some doubles are not: they are read as their neighbours. -/
def DoublesReadBack (c : Config) : Prop :=
  ∀ json ∈ c.trees, ∀ d, .double d ∈ json.numbers → Json.read? (Json.double d).text = some (.double d)

/-- **The text of a valid configuration, with its fields in any order, denotes it but for its nulls.** -/
theorem read_text (hc : c.Valid) (hd : c.DoublesReadBack) (hf : fields.Perm c.fields) :
    read (Json.object fields).text = .ok c.withoutNulls := by
  have hnumbers : ∀ n ∈ (Json.object fields).numbers, n.ReadsBack := by
    intro n hn
    obtain ⟨p, hp, hn⟩ := mem_fieldNumbers_iff.1 hn
    have hcapacity {m : Nat} (hm : m < UInt64.size) (hp : p.2 = .integer m) : n.ReadsBack := by
      rw [hp] at hn
      obtain rfl := List.mem_singleton.1 hn
      have hmin : Int64.minValue.toInt ≤ 0 := by decide
      exact Number.readsBack_integer ⟨by omega, by omega⟩
    rcases of_mem_fields (hf.mem_iff.1 hp) with htree | hp | hp
    · exact (hc.trees _ htree).readsBack (hd _ htree) n hn
    · exact hcapacity hc.eventCapacity hp
    · exact hcapacity hc.changeCapacity hp
  rw [read, ofText?_text hnumbers, Option.bind_some, ofTree?_tree hc hf]

/-- **A configuration that is written is read back, but that its nulls are left out**, in whatever order its fields are
written. So it is read back as it was exactly if none of its trees is null. -/
theorem reread_spec (h : c.Reachable) (hd : c.DoublesReadBack) (hf : fields.Perm c.fields) :
    read (Json.object fields).text = .ok c.withoutNulls ∧
      (read (Json.object fields).text = .ok c ↔ ∀ json ∈ c.trees, json ≠ .null) := by
  have hread := read_text h.valid hd hf
  refine ⟨hread, ?_⟩
  rw [hread, ← withoutNulls_eq_iff]
  exact ⟨Except.ok.inj, congrArg _⟩

/-- A configuration with all parts set, one of them to null, whose fields are written in the opposite order. -/
theorem reread_spec_reversed : ∃ (settings : List Setting) (c : Config),
    settings = [.commands (.object [("a", .array [.string "\"\n\\", .bool true, .integer 18446744073709551615]),
        ("b", .object [("", .integer (-9223372036854775808))])]),
      .eventCapacity 0, .state .null, .values (.array [.double ⟨true, 5066549580791808, 1023, by decide⟩]),
      .changeCapacity 18446744073709551615] ∧
    c = settings.foldl set {} ∧ c.Reachable ∧ c.DoublesReadBack ∧ c.fields.reverse.Perm c.fields ∧
    read (Json.object c.fields.reverse).text = .ok { c with state := none } ∧
    read (Json.object c.fields.reverse).text ≠ .ok c := by
  let d : Double := ⟨true, 5066549580791808, 1023, by decide⟩
  let commands : Json := .object [("a", .array [.string "\"\n\\", .bool true, .integer 18446744073709551615]),
    ("b", .object [("", .integer (-9223372036854775808))])]
  let settings : List Setting := [.commands commands, .eventCapacity 0, .state .null, .values (.array [.double d]),
    .changeCapacity 18446744073709551615]
  have hcommands : commands.Valid (Tree.maxLevels - 1) := by
    refine ⟨⟨?_, by decide⟩, ?_⟩
    · exact List.forall_mem_cons.2 ⟨⟨by decide, by decide⟩, List.forall_mem_singleton.2 ⟨by decide, by decide⟩⟩
    · exact ⟨List.pairwise_pair.2 (by decide), ⟨trivial, trivial, trivial, trivial⟩,
        ⟨List.pairwise_singleton _ _, trivial, trivial⟩, trivial⟩
  have hvalues : (Json.array [.double d]).Valid (Tree.maxLevels - 1) :=
    ⟨⟨List.forall_mem_singleton.2 trivial, by decide⟩, trivial, trivial⟩
  have hsettings : ∀ s ∈ settings, s.Valid := by
    simp only [settings, List.forall_mem_cons]
    exact ⟨hcommands, trivial, valid_null, hvalues, trivial, fun _ hs => absurd hs List.not_mem_nil⟩
  have hreach : (settings.foldl set {}).Reachable := ⟨{}, settings, .inl rfl, hsettings, rfl⟩
  have hdouble : (Number.double d).ReadsBack := by decide +kernel
  have hd : (settings.foldl set {}).DoublesReadBack := by
    intro json hjson d' hd'
    simp only [settings, commands, List.foldl, set, trees, Option.toList, List.cons_append, List.nil_append,
      List.mem_cons, List.not_mem_nil, or_false] at hjson
    rcases hjson with rfl | rfl | rfl
    · simp [numbers, itemNumbers, fieldNumbers] at hd'
    · cases hd'
    · obtain rfl := Number.double.inj (List.mem_singleton.1 hd')
      exact Json.read?_text trivial (List.forall_mem_singleton.2 hdouble) (Nat.zero_le _)
  have hperm := (settings.foldl set {}).fields.reverse_perm
  obtain ⟨hread, hiff⟩ := reread_spec hreach hd hperm
  refine ⟨settings, _, rfl, rfl, hreach, hd, hperm, hread, fun h => hiff.1 h .null ?_ rfl⟩
  exact List.mem_cons_of_mem _ List.mem_cons_self

/-- **A tree that was set to null is not read back**: the configuration with nothing given is read instead. -/
theorem reread_null : ∃ c : Config, c = ({} : Config).set (.commands .null) ∧ c.Reachable ∧ c.DoublesReadBack ∧
    ∀ fields : Fields Json, fields.Perm c.fields →
      read (Json.object fields).text = .ok {} ∧ read (Json.object fields).text ≠ .ok c := by
  let c : Config := ({} : Config).set (.commands .null)
  have hc : c.Reachable := ⟨{}, [.commands .null], .inl rfl, List.forall_mem_singleton.2 valid_null, rfl⟩
  have hd : c.DoublesReadBack := List.forall_mem_singleton.2 fun _ hn => absurd hn List.not_mem_nil
  refine ⟨c, rfl, hc, hd, fun fields hf => ?_⟩
  have hread : read (Json.object fields).text = .ok {} := read_text hc.valid hd hf
  refine ⟨hread, fun h => ?_⟩
  have hsame := Except.ok.inj (hread.symm.trans h)
  cases congrArg commands hsame

/-! ## Configurations of devices -/

variable {κ : Type} {d : Device κ}

/-- The configuration of a device that was set up has no tree that is null. -/
theorem ne_null_of_ofConfig (h : Device.ofConfig c = .ok d) : ∀ json ∈ c.trees, json ≠ .null := by
  obtain ⟨base, hbase, h⟩ := Fault.bind_ok_iff.1 h
  obtain ⟨state, hstate, h⟩ := Fault.bind_ok_iff.1 h
  obtain ⟨state', hvalues, -⟩ := Fault.bind_ok_iff.1 h
  refine forall_trees_iff.2 ⟨?_, ?_, ?_⟩
  · rintro _ hnull rfl
    rw [show c.commands = some .null from hnull] at hbase
    cases hbase
  · rintro _ hnull rfl
    rw [show c.state = some .null from hnull] at hstate
    cases hstate
  · rintro _ hnull rfl
    rw [show c.values = some .null from hnull] at hvalues
    cases hvalues

/-- **The configuration of a device that was set up is read back as it was.** -/
theorem read_text_of_ofConfig (h : Device.ofConfig c = .ok d) (hc : c.Reachable) (hd : c.DoublesReadBack)
    (hf : fields.Perm c.fields) : read (Json.object fields).text = .ok c := by
  rw [read_text hc.valid hd hf, withoutNulls_eq_iff.2 (ne_null_of_ofConfig h)]

end Capability.Config
