import Capability.Fields
import Mathlib.Algebra.GroupWithZero.Nat
import Mathlib.Data.List.Dedup
import Mathlib.Data.List.Forall2

/-!
# Look-up in named fields

Sorted fields are known by their look-ups (`Sorted.ext`), so an equation between two of them comes down to one name
at a time. The look-ups of merged, mapped and filtered fields are `get?_merge`, `get?_mapValues`, `get?_filter` (by
name) and `Sorted.get?_filter_value` (by value).
Pairs make as many fields as they have different names (`length_ofPairs`), and a put adds the weight of its value
(`Sorted.sum_put`). Fields without common names may be merged in either order (`Sorted.merge_comm`).
-/

namespace Capability.Fields

variable {α β : Type}

/-! ## Members -/

theorem mem_of_get? {fields : Fields α} {name : String} {v : α} (h : fields.get? name = some v) :
    (name, v) ∈ fields := by
  induction fields with
  | nil => cases h
  | cons p rest ih =>
    obtain ⟨n, w⟩ := p
    rw [get?_cons] at h
    split at h
    · rename_i he
      obtain rfl := Option.some.inj h
      rw [he]
      exact List.mem_cons_self
    · exact List.mem_cons_of_mem _ (ih h)

theorem get?_eq_none_iff {fields : Fields α} {name : String} :
    fields.get? name = none ↔ ∀ p ∈ fields, p.1 ≠ name := by
  induction fields with
  | nil => simp
  | cons p rest ih =>
    obtain ⟨n, w⟩ := p
    rw [get?_cons, List.forall_mem_cons]
    split
    · rename_i he
      simp [he]
    · rename_i hne
      rw [ih]
      exact ⟨fun h => ⟨fun he => hne he.symm, h⟩, fun h => h.2⟩

theorem mem_names_iff {fields : Fields α} {name : String} : name ∈ fields.names ↔ fields.get? name ≠ none := by
  rw [Ne, get?_eq_none_iff]
  simp [names]

/-- Of several values under different names each is found. -/
theorem get?_of_nodup {fields : Fields α} (h : fields.names.Nodup) {name : String} {v : α}
    (hm : (name, v) ∈ fields) : fields.get? name = some v := by
  induction fields with
  | nil => cases hm
  | cons p rest ih =>
    obtain ⟨n, w⟩ := p
    obtain ⟨hn, hrest⟩ := List.nodup_cons.1 h
    rw [get?_cons]
    rcases List.mem_cons.1 hm with he | hm
    · obtain ⟨rfl, rfl⟩ := Prod.mk.inj he
      exact if_pos rfl
    · have hname : name ∈ Fields.names rest := List.mem_map_of_mem hm
      have hne : name ≠ n := by
        rintro rfl
        exact hn hname
      rw [if_neg hne, ih hrest hm]

/-- Look-up does not depend on the order of fields with different names. -/
theorem get?_perm {fields others : Fields α} (h : fields.Perm others) (hn : others.names.Nodup) (name : String) :
    fields.get? name = others.get? name := by
  have hnames : fields.names.Perm others.names := h.map _
  cases hget : others.get? name with
  | some v => exact get?_of_nodup (hnames.nodup_iff.2 hn) (h.mem_iff.2 (mem_of_get? hget))
  | none =>
    refine Decidable.byContradiction fun hne => ?_
    exact mem_names_iff.1 (hnames.mem_iff.1 (mem_names_iff.2 hne)) hget

theorem has_iff {fields : Fields α} {name : String} : fields.has name = true ↔ ∃ v, fields.get? name = some v :=
  Option.isSome_iff_exists

theorem has_eq_false_iff {fields : Fields α} {name : String} :
    fields.has name = false ↔ fields.get? name = none := by
  rw [has, Option.isSome_eq_false_iff, Option.isNone_iff_eq_none]

theorem get?_append (a b : Fields α) (name : String) : get? (a ++ b) name = (a.get? name).or (b.get? name) := by
  induction a with
  | nil => rfl
  | cons p a ih =>
    obtain ⟨n, v⟩ := p
    rw [List.cons_append, get?_cons, get?_cons]
    split
    · rfl
    · exact ih

/-- A value that may be missing, put in front of fields without its name. -/
theorem get?_toList_append (value? : Option α) {name : String} {fields : Fields α} (hn : fields.get? name = none)
    (k : String) : get? ((value?.map fun v => (name, v)).toList ++ fields) k =
      if k = name then value? else fields.get? k := by
  rw [get?_append]
  cases value? with
  | none =>
    show fields.get? k = _
    split
    · rename_i he
      rw [he, hn]
    · rfl
  | some v =>
    show (get? [(name, v)] k).or _ = _
    rw [get?_cons, get?_nil]
    split <;> rfl

/-- What holds of two lists of values side by side, under the same names, holds of what is found in them. -/
theorem rel_get? {R : String → α → β → Prop} {fields : Fields α} {others : Fields β}
    (h : List.Forall₂ (fun f o => o.1 = f.1 ∧ R f.1 f.2 o.2) fields others) (name : String) :
    Option.Rel (R name) (fields.get? name) (others.get? name) := by
  induction h with
  | nil => exact .none
  | @cons f o fields others hfo _ ih =>
    obtain ⟨n, v⟩ := f
    obtain ⟨m, w⟩ := o
    obtain ⟨rfl, hvw⟩ := hfo
    rw [get?_cons, get?_cons]
    split
    · rename_i he
      rw [he]
      exact .some hvw
    · exact ih

theorem names_of_forall₂ {R : String → α → β → Prop} {fields : Fields α} {others : Fields β}
    (h : List.Forall₂ (fun f o => o.1 = f.1 ∧ R f.1 f.2 o.2) fields others) : others.names = fields.names := by
  induction h with
  | nil => rfl
  | cons hfo _ ih => exact List.cons_eq_cons.2 ⟨hfo.1, ih⟩

/-! ## Sorted fields -/

theorem Sorted.tail {p : String × α} {rest : Fields α} (h : Sorted (p :: rest)) : Sorted rest :=
  (List.pairwise_cons.1 h).2

theorem Sorted.lt_of_mem {p q : String × α} {rest : Fields α} (h : Sorted (p :: rest)) (hq : q ∈ rest) : p.1 < q.1 :=
  (List.pairwise_cons.1 h).1 q hq

/-- The first name is not found behind it. -/
theorem Sorted.get?_tail {n : String} {v : α} {rest : Fields α} (h : Sorted ((n, v) :: rest)) :
    rest.get? n = none :=
  get?_eq_none_iff.2 fun _ hp he => String.lt_irrefl n (he ▸ h.lt_of_mem hp)

theorem Sorted.nodup_names {fields : Fields α} (h : Sorted fields) : fields.names.Nodup := by
  refine List.pairwise_map.2 (h.imp ?_)
  intro p q hlt he
  rw [he] at hlt
  exact String.lt_irrefl _ hlt

theorem Sorted.get?_of_mem {fields : Fields α} (h : Sorted fields) {name : String} {v : α}
    (hm : (name, v) ∈ fields) : fields.get? name = some v :=
  get?_of_nodup h.nodup_names hm

/-- A name before the first one is not found. -/
theorem Sorted.get?_of_lt {m n : String} {v : α} {rest : Fields α} (h : Sorted ((n, v) :: rest)) (hlt : m < n) :
    get? ((n, v) :: rest) m = none := by
  refine get?_eq_none_iff.2 fun p hp he => ?_
  rcases List.mem_cons.1 hp with rfl | hp
  · obtain rfl : n = m := he
    exact String.lt_irrefl n hlt
  · have hlt' : m < p.1 := String.lt_trans hlt (h.lt_of_mem hp)
    rw [he] at hlt'
    exact String.lt_irrefl m hlt'

/-- **Sorted fields with the same look-ups are the same.** -/
theorem Sorted.ext {a b : Fields α} (ha : Sorted a) (hb : Sorted b) (h : ∀ name, a.get? name = b.get? name) :
    a = b := by
  induction a generalizing b with
  | nil =>
    cases b with
    | nil => rfl
    | cons q b =>
      have := h q.1
      rw [hb.get?_of_mem (v := q.2) List.mem_cons_self] at this
      cases this
  | cons p a ih =>
    obtain ⟨n, v⟩ := p
    cases b with
    | nil =>
      have := h n
      rw [get?_cons, if_pos rfl] at this
      cases this
    | cons q b =>
      obtain ⟨m, w⟩ := q
      have hnm : n = m := by
        refine Decidable.byContradiction fun hne => ?_
        rcases Decidable.em (n < m) with hlt | hlt
        · have := h n
          rw [hb.get?_of_lt hlt, get?_cons, if_pos rfl] at this
          cases this
        · have hgt : m < n := Decidable.byContradiction fun hn =>
            hne (String.le_antisymm (String.not_lt.1 hn) (String.not_lt.1 hlt))
          have := h m
          rw [ha.get?_of_lt hgt, get?_cons, if_pos rfl] at this
          cases this
      subst hnm
      have hv := h n
      rw [get?_cons, get?_cons, if_pos rfl, if_pos rfl] at hv
      obtain rfl := Option.some.inj hv
      rw [ih ha.tail hb.tail fun k => ?_]
      rcases Decidable.em (k = n) with rfl | hk
      · rw [ha.get?_tail, hb.get?_tail]
      · have := h k
        rwa [get?_cons, get?_cons, if_neg hk, if_neg hk] at this

/-- Putting the value of a name back changes nothing. -/
theorem Sorted.put_self {fields : Fields α} (h : Sorted fields) {name : String} {v : α}
    (hv : fields.get? name = some v) : fields.put name v = fields := by
  refine (h.put name v).ext h fun other => ?_
  by_cases hother : other = name
  · rw [hother, get?_put_self, hv]
  · exact get?_put_of_ne hother v fields

theorem Sorted.put_put {fields : Fields α} (h : Sorted fields) (name : String) (v w : α) :
    (fields.put name v).put name w = fields.put name w := by
  refine ((h.put name v).put name w).ext (h.put name w) fun other => ?_
  rw [get?_put, get?_put, get?_put]
  split <;> rfl

/-! ## Fields with one more value -/

theorem put_ne_nil (name : String) (value : α) (fields : Fields α) : put name value fields ≠ [] := by
  intro he
  have hput := get?_put_self name value fields
  rw [he] at hput
  cases hput

/-- The sum of the weights changes by those of the value that comes and of the value that goes. -/
theorem Sorted.sum_put {fields : Fields α} (h : Sorted fields) (weight : α → Nat) (name : String) (value : α) :
    ((fields.put name value).map fun p => weight p.2).sum + ((fields.get? name).map weight).getD 0 =
      (fields.map fun p => weight p.2).sum + weight value := by
  induction fields with
  | nil => simp [Fields.put]
  | cons p rest ih =>
    obtain ⟨n, v⟩ := p
    rw [Fields.put]
    by_cases hlt : name < n
    · rw [if_pos hlt, h.get?_of_lt hlt]
      simp only [List.map_cons, List.sum_cons, Option.map_none, Option.getD_none]
      omega
    · rw [if_neg hlt, get?_cons]
      by_cases he : name = n
      · rw [if_pos he, if_pos he]
        simp only [List.map_cons, List.sum_cons, Option.map_some, Option.getD_some]
        omega
      · have hrest := ih h.tail
        rw [if_neg he, if_neg he]
        simp only [List.map_cons, List.sum_cons]
        omega

/-- A value under a new name makes the fields longer by one. -/
theorem Sorted.length_put {fields : Fields α} (h : Sorted fields) {name : String} (hn : fields.get? name = none)
    (value : α) : (fields.put name value).length = fields.length + 1 := by
  have hsum := h.sum_put (fun _ => 1) name value
  rw [hn] at hsum
  simpa using hsum

/-! ## Merged fields -/

/-- Of several values under a name the last one counts. -/
theorem get?_merge (older newer : Fields α) (name : String) :
    (older.merge newer).get? name = (get? newer.reverse name).or (older.get? name) := by
  induction newer generalizing older with
  | nil => rfl
  | cons p newer ih =>
    obtain ⟨n, v⟩ := p
    show ((older.put n v).merge newer).get? name = _
    rw [ih, List.reverse_cons, get?_append, get?_put, get?_cons, get?_nil, Option.or_assoc]
    split <;> rfl

theorem mem_merge {p : String × α} {older newer : Fields α} (h : p ∈ older.merge newer) : p ∈ older ∨ p ∈ newer := by
  induction newer generalizing older with
  | nil => exact .inl h
  | cons q rest ih =>
    rcases ih h with h | h
    · rcases mem_put h with rfl | h
      · exact .inr List.mem_cons_self
      · exact .inl h
    · exact .inr (List.mem_cons_of_mem _ h)

theorem Sorted.get?_reverse {fields : Fields α} (h : Sorted fields) (name : String) :
    get? fields.reverse name = fields.get? name := by
  induction fields with
  | nil => rfl
  | cons p rest ih =>
    obtain ⟨n, v⟩ := p
    rw [List.reverse_cons, get?_append, ih h.tail, get?_cons, get?_cons, get?_nil]
    split
    · rename_i he
      rw [he, h.get?_tail, Option.none_or]
    · rw [Option.or_none]

theorem Sorted.get?_merge {newer : Fields α} (h : Sorted newer) (older : Fields α) (name : String) :
    (older.merge newer).get? name = (newer.get? name).or (older.get? name) := by
  rw [Fields.get?_merge, h.get?_reverse]

theorem get?_reverse_eq_none_iff {fields : Fields α} {name : String} :
    get? fields.reverse name = none ↔ name ∉ fields.names := by
  have hmem : name ∈ names fields.reverse ↔ name ∈ fields.names := by
    rw [names, List.map_reverse, List.mem_reverse, names]
  rw [← hmem, mem_names_iff, not_ne_iff]

/-- Fields without common names may be merged in either order. -/
theorem Sorted.merge_comm {fields a b : Fields α} (h : Sorted fields) (hab : a.names.Disjoint b.names) :
    (fields.merge a).merge b = (fields.merge b).merge a := by
  refine ((h.merge a).merge b).ext ((h.merge b).merge a) fun name => ?_
  rw [Fields.get?_merge, Fields.get?_merge, Fields.get?_merge, Fields.get?_merge]
  by_cases ha : name ∈ a.names
  · rw [get?_reverse_eq_none_iff.2 (hab ha)]
    rfl
  · rw [get?_reverse_eq_none_iff.2 ha]
    rfl

theorem Sorted.put_comm {fields : Fields α} (h : Sorted fields) {name other : String} (hne : name ≠ other) (v w : α) :
    (fields.put name v).put other w = (fields.put other w).put name v := by
  refine h.merge_comm (a := [(name, v)]) (b := [(other, w)]) fun n hn hm => hne ?_
  exact (List.mem_singleton.1 hn).symm.trans (List.mem_singleton.1 hm)

/-! ## Fields of pairs -/

theorem get?_ofPairs (pairs : List (String × α)) (name : String) :
    (ofPairs pairs).get? name = get? pairs.reverse name := by
  show (merge [] pairs).get? name = _
  rw [get?_merge, get?_nil, Option.or_none]

theorem mem_names_ofPairs_iff {pairs : List (String × α)} {name : String} :
    name ∈ (ofPairs pairs).names ↔ name ∈ pairs.map (·.1) := by
  rw [mem_names_iff, get?_ofPairs, Ne, get?_reverse_eq_none_iff, not_not, names]

/-- **Pairs make as many fields as they have different names.** -/
theorem length_ofPairs (pairs : List (String × α)) :
    (ofPairs pairs).length = (pairs.map (·.1)).dedup.length := by
  have hperm : (ofPairs pairs).names.Perm (pairs.map (·.1)).dedup := by
    refine (List.perm_ext_iff_of_nodup (Sorted.ofPairs pairs).nodup_names (List.nodup_dedup _)).2 fun name => ?_
    rw [mem_names_ofPairs_iff, List.mem_dedup]
  have hlength : (ofPairs pairs).names.length = (ofPairs pairs).length := List.length_map _
  rw [← hlength, hperm.length_eq]

theorem length_ofPairs_eq_iff {pairs : List (String × α)} :
    (ofPairs pairs).length = pairs.length ↔ (pairs.map (·.1)).Nodup := by
  have hlength : (pairs.map (·.1)).length = pairs.length := List.length_map _
  rw [length_ofPairs, ← hlength]
  constructor
  · intro h
    exact List.dedup_eq_self.1 ((List.dedup_sublist _).eq_of_length h)
  · intro h
    rw [h.dedup]

/-- Fields in order are those that their pairs make. -/
theorem Sorted.ofPairs_eq {fields : Fields α} (h : Sorted fields) : Fields.ofPairs fields = fields := by
  refine Sorted.ext (Sorted.ofPairs fields) h fun name => ?_
  rw [get?_ofPairs, h.get?_reverse]

theorem get?_ofPairs_of_nodup {pairs : List (String × α)} (h : (pairs.map (·.1)).Nodup) {name : String} {v : α}
    (hm : (name, v) ∈ pairs) : (ofPairs pairs).get? name = some v := by
  have hreverse : Fields.names pairs.reverse = (pairs.map (·.1)).reverse := List.map_reverse
  have hnodup : (Fields.names pairs.reverse).Nodup := by
    rw [hreverse]
    exact List.nodup_reverse.2 h
  rw [get?_ofPairs]
  exact get?_of_nodup hnodup (List.mem_reverse.2 hm)

/-! ## Fields that may be left out -/

theorem present_cons_none (name : String) (entries : List (String × Option α)) :
    present ((name, none) :: entries) = present entries := rfl

theorem present_cons_some (name : String) (v : α) (entries : List (String × Option α)) :
    present ((name, some v) :: entries) = (name, v) :: present entries := rfl

theorem get?_present {entries : List (String × Option α)} (hn : (entries.map (·.1)).Nodup) (key : String) :
    get? (present entries) key = (entries.lookup key).join := by
  induction entries with
  | nil => rfl
  | cons e rest ih =>
    obtain ⟨n, v?⟩ := e
    obtain ⟨hnotin, hrest⟩ := List.nodup_cons.1 hn
    have hlookup : ((n, v?) :: rest).lookup key = if key = n then some v? else rest.lookup key :=
      get?_cons key n v? rest
    rw [hlookup]
    cases v? with
    | none =>
      rw [present_cons_none, ih hrest]
      split
      · rename_i he
        have hnone : rest.lookup key = none := get?_eq_none_iff.2 fun p hp hp' =>
          hnotin (List.mem_map.2 ⟨p, hp, hp'.trans he⟩)
        rw [hnone]
        rfl
      · rfl
    | some v =>
      rw [present_cons_some, get?_cons, ih hrest]
      split <;> rfl

theorem names_present_sublist (entries : List (String × Option α)) :
    (present entries).names.Sublist (entries.map (·.1)) := by
  induction entries with
  | nil => exact .slnil
  | cons entry entries ih =>
    obtain ⟨name, _ | v⟩ := entry
    · exact ih.cons name
    · exact ih.cons_cons name

/-! ## Mapped and filtered fields -/

theorem get?_mapValues (f : α → β) (fields : Fields α) (name : String) :
    (fields.mapValues f).get? name = (fields.get? name).map f := by
  induction fields with
  | nil => rfl
  | cons p rest ih =>
    obtain ⟨n, v⟩ := p
    show get? ((n, f v) :: mapValues f rest) name = _
    rw [get?_cons, get?_cons, ih]
    split <;> rfl

theorem names_mapValues (f : α → β) (fields : Fields α) : (fields.mapValues f).names = fields.names :=
  List.map_map

/-- Sorted fields where the same names are found have the same names. -/
theorem Sorted.names_ext {fields : Fields α} {others : Fields β} (h : Sorted fields) (ho : Sorted others)
    (he : ∀ name, (fields.get? name).isSome = (others.get? name).isSome) : fields.names = others.names := by
  have hunit : fields.mapValues (fun _ => ()) = others.mapValues (fun _ => ()) := by
    refine (h.mapValues _).ext (ho.mapValues _) fun name => ?_
    have hname := he name
    rw [get?_mapValues, get?_mapValues]
    cases hf : fields.get? name <;> cases hg : others.get? name <;> simp_all
  have hnames := congrArg Fields.names hunit
  rwa [names_mapValues, names_mapValues] at hnames

/-- The order depends on the names only. -/
theorem Sorted.of_names {fields : Fields α} {others : Fields β} (h : Sorted fields)
    (he : others.names = fields.names) : Sorted others := by
  have hp : fields.names.Pairwise (· < ·) := List.pairwise_map.2 h
  rw [← he] at hp
  exact List.pairwise_map.1 hp

/-- Keeping fields by their names. -/
theorem get?_filter (keep : String → Bool) (fields : Fields α) (name : String) :
    get? (fields.filter fun p => keep p.1) name = if keep name then fields.get? name else none := by
  induction fields with
  | nil => simp
  | cons p rest ih =>
    obtain ⟨n, v⟩ := p
    rw [List.filter_cons, get?_cons]
    cases hn : keep n with
    | true =>
      rw [if_pos rfl, get?_cons, ih]
      split
      · rename_i he
        rw [he, hn, if_pos rfl]
      · rfl
    | false =>
      rw [if_neg Bool.false_ne_true, ih]
      split
      · rename_i hk
        rw [if_neg fun he => Bool.false_ne_true (by rw [← hn, ← he, hk])]
      · rfl

/-- Keeping sorted fields by their values. -/
theorem Sorted.get?_filter_value {fields : Fields α} (h : Sorted fields) (keep : α → Bool) (name : String) :
    get? (fields.filter fun p => keep p.2) name = (fields.get? name).filter keep := by
  induction fields with
  | nil => rfl
  | cons p rest ih =>
    obtain ⟨n, v⟩ := p
    have hrest := ih h.tail
    rw [List.filter_cons, get?_cons]
    by_cases hname : name = n
    · rw [if_pos hname, Option.filter_some]
      cases keep v with
      | true =>
        rw [if_pos rfl, if_pos rfl, get?_cons, if_pos hname]
      | false =>
        rw [if_neg Bool.false_ne_true, if_neg Bool.false_ne_true, hrest, hname, h.get?_tail]
        rfl
    · rw [if_neg hname, ← hrest]
      cases keep v with
      | true => rw [if_pos rfl, get?_cons, if_neg hname]
      | false => rw [if_neg Bool.false_ne_true]

theorem Sorted.filter {fields : Fields α} (h : Sorted fields) (keep : String × α → Bool) :
    Sorted (fields.filter keep) :=
  List.Pairwise.filter keep h

end Capability.Fields
