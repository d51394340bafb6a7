import Capability.Proofs.Schema.Conversion

/-!
# Values that come back the same

A type that takes the JSON form of a value for the same value takes it for the very value (`Property.eq_of_convert`).
Sameness alone says less: it does not tell the two zeros apart. But a conversion does not touch the numbers of a JSON
form, and what it adds to an object makes a difference.
-/

namespace Capability

open Conversion

/-! ## Members that are the same -/

namespace Value

theorem kind_eq_of_same {v w : Value} (h : v.same w = true) : v.kind = w.kind := by
  cases v <;> cases w <;> first | rfl | cases h

theorem names_eq_of_sameMembers {vs ws : Fields Value} (h : sameMembers vs ws = true) : vs.names = ws.names := by
  induction vs generalizing ws with
  | nil =>
    cases ws with
    | nil => rfl
    | cons _ _ => cases h
  | cons m vs ih =>
    cases ws with
    | nil => cases h
    | cons m' ws =>
      rw [sameMembers, Bool.and_eq_true, Bool.and_eq_true] at h
      obtain ⟨⟨hname, _⟩, hrest⟩ := h
      show m.1 :: Fields.names vs = m'.1 :: Fields.names ws
      rw [beq_iff_eq.1 hname, ih hrest]

theorem same_of_sameMembers {vs ws : Fields Value} (h : sameMembers vs ws = true) {name : String} {w : Value}
    (hw : ws.get? name = some w) : ∃ v, vs.get? name = some v ∧ v.same w = true := by
  induction vs generalizing ws with
  | nil =>
    cases ws with
    | nil => cases hw
    | cons _ _ => cases h
  | cons m vs ih =>
    cases ws with
    | nil => cases h
    | cons m' ws =>
      obtain ⟨n, v⟩ := m
      obtain ⟨n', w'⟩ := m'
      rw [sameMembers, Bool.and_eq_true, Bool.and_eq_true] at h
      obtain ⟨⟨hname, hv⟩, hrest⟩ := h
      obtain rfl : n = n' := beq_iff_eq.1 hname
      rw [Fields.get?_cons] at hw ⊢
      split
      · rename_i he
        rw [if_pos he] at hw
        obtain rfl := Option.some.inj hw
        exact ⟨v, rfl, hv⟩
      · rename_i hne
        rw [if_neg hne] at hw
        exact ih hrest hw

end Value

/-! ## Members that come back -/

/-- Members outside a type are taken for themselves. -/
theorem ObjectType.get?_convert_other {o : ObjectType} (hs : Fields.Sorted o.properties) {members values : Fields Value}
    (hm : Fields.Sorted members) (h : o.convert (.object (Value.membersToJson members)) = .ok values) {name : String}
    (hn : Fields.get? o.properties name = none) : values.get? name = members.get? name := by
  obtain ⟨_, declared, others, he, hdeclared, hothers, rfl⟩ := convert_ok_iff.1 h
  obtain rfl := Json.object.inj he
  obtain ⟨hsorted, _, hnone⟩ := convertMembers_spec hs hdeclared
  have hunknown := (otherMembers_ok_iff.1 hothers).2
  rw [Value.membersToJson_eq_map, Fields.mapValues, List.filter_map] at hunknown
  change Value.membersOfJson? (Fields.mapValues Value.toJson
    (members.filter fun p => !Fields.has o.properties p.1)) = some others at hunknown
  rw [← Value.membersToJson_eq_map, Value.membersOfJson?_toJson] at hunknown
  obtain rfl := Option.some.inj hunknown
  have hget := Fields.get?_filter (fun name => !Fields.has o.properties name) members name
  rw [Fields.has_eq_false_iff.2 hn] at hget
  rw [(hm.filter _).get?_merge, hnone name hn]
  exact (Option.or_none ..).trans hget

/-- An object type that takes members for the same members takes them for the very members, if the types of its members
do so with their values. -/
theorem ObjectType.eq_of_convert {o : ObjectType} (hs : Fields.Sorted o.properties) {members values : Fields Value}
    (hm : ∀ name p v w, (name, p) ∈ o.properties → (name, v) ∈ members → p.convert v.toJson = .ok w → w.same v = true →
      w = v)
    (h : o.convert (.object (Value.membersToJson members)) = .ok values)
    (hsame : Value.sameMembers values members = true) : values = members := by
  obtain ⟨hsorted, hfill, _⟩ := convert_spec hs h
  have hnames := Value.names_eq_of_sameMembers hsame
  have hmembers : Fields.Sorted members := hsorted.of_names hnames.symm
  refine hsorted.ext hmembers fun name => ?_
  cases hv : members.get? name with
  | none =>
    refine Fields.get?_eq_none_iff.2 fun p hp he => ?_
    have hname : name ∈ Fields.names members := hnames ▸ List.mem_map.2 ⟨p, hp, he⟩
    obtain ⟨q, hq, he⟩ := List.mem_map.1 hname
    exact Fields.get?_eq_none_iff.1 hv q hq he
  | some v =>
    obtain ⟨w, hw, hwv⟩ := Value.same_of_sameMembers hsame hv
    have hvm : (name, v) ∈ members := Fields.mem_of_get? hv
    rw [hw]
    congr 1
    cases hp : Fields.get? o.properties name with
    | some p =>
      have hpm : (name, p) ∈ o.properties := Fields.mem_of_get? hp
      have hgiven : Fields.get? (Value.membersToJson members) name = some v.toJson := by
        rw [Value.membersToJson_eq_map, Fields.get?_mapValues, hv]
        rfl
      have h := hfill name p hpm
      rw [hgiven, hw] at h
      obtain ⟨w', hw', h⟩ := Fault.bind_ok_iff.1 h
      obtain rfl := Option.some.inj (Except.ok.inj h)
      exact hm name p v w' hpm hvm (Fault.mapError_ok_iff.1 hw') hwv
    | none =>
      have hother := get?_convert_other hs hmembers h hp
      rw [hw, hv] at hother
      exact Option.some.inj hother

namespace Property

/-! ## Values that come back -/

/-- Items that come back the same come back as they are. -/
theorem eq_of_mapM {q : Property} {list values : List Value}
    (hv : ∀ v ∈ list, ∀ w, q.convert v.toJson = .ok w → w.same v = true → w = v)
    (h : (list.map Value.toJson).mapM q.convert = .ok values) (hsame : Value.sameItems values list = true) :
    values = list := by
  induction list generalizing values with
  | nil =>
    cases values with
    | nil => rfl
    | cons _ _ => cases hsame
  | cons v rest ih =>
    cases values with
    | nil => cases hsame
    | cons w ws =>
      rw [Value.sameItems, Bool.and_eq_true] at hsame
      obtain ⟨hw, hrest⟩ := List.forall₂_cons.1 (Fault.mapM_ok_iff.1 h)
      rw [hv v List.mem_cons_self w hw hsame.1,
        ih (fun u hu => hv u (List.mem_cons_of_mem _ hu)) (Fault.mapM_ok_iff.2 hrest) hsame.2]

/-- The value that comes back is made by the shape, and is of the kind of the value. -/
theorem makes_of_convert_same {p : Property} {v w : Value} (h : p.convert v.toJson = .ok w) (hsame : w.same v = true) :
    p.shape.Makes v.toJson w ∧ w.kind = v.kind :=
  ⟨Shape.convert_ok_iff.1 (convert_ok_iff.1 h).1, Value.kind_eq_of_same hsame⟩

mutual
/-- **A value that comes back the same comes back as it is.** -/
theorem eq_of_convert : ∀ (v : Value) {p : Property} {w : Value}, (∀ q, Part q p → q.MembersSorted) →
    p.convert v.toJson = .ok w → w.same v = true → w = v
  | .integer n, p, w, _, h, hsame => by
    obtain ⟨hm, hk⟩ := makes_of_convert_same h hsame
    generalize p.shape = s at hm
    cases hm with
    | integer hn _ =>
      rw [Value.toJson, Json.toInt64?_integer] at hn
      exact congrArg Value.integer (Option.some.inj hn).symm
    | _ => cases hk
  | .number d, p, w, _, h, hsame => by
    obtain ⟨hm, hk⟩ := makes_of_convert_same h hsame
    generalize p.shape = s at hm
    cases hm with
    | number hd _ => exact congrArg Value.number (Option.some.inj hd).symm
    | _ => cases hk
  | .boolean b, p, w, _, h, hsame => by
    obtain ⟨hm, hk⟩ := makes_of_convert_same h hsame
    generalize p.shape = s at hm
    cases hm with
    | boolean hb => exact congrArg Value.boolean (Option.some.inj hb).symm
    | _ => cases hk
  | .string t, p, w, _, h, hsame => by
    obtain ⟨hm, hk⟩ := makes_of_convert_same h hsame
    generalize p.shape = s at hm
    cases hm with
    | string ht _ => exact congrArg Value.string (Option.some.inj ht).symm
    | _ => cases hk
  | .object members, p, w, hs, h, hsame => by
    obtain ⟨hm, hk⟩ := makes_of_convert_same h hsame
    generalize hshape : p.shape = s at hm
    cases hm with
    | @object type _ values hvalues =>
      have ho : p.object? = some type.value := object?_eq_some_iff.2 ⟨type.inherited, hshape⟩
      refine congrArg Value.object (ObjectType.eq_of_convert (hs p (.refl p) _ ho) ?_ hvalues hsame)
      intro name q u u' hq hu hconvert hsame
      exact eq_of_convert_member members hu (fun r hr => hs r (hr.trans (Child.member ho hq).part)) hconvert hsame
    | _ => cases hk
  | .array list, p, w, hs, h, hsame => by
    obtain ⟨hm, hk⟩ := makes_of_convert_same h hsame
    generalize hshape : p.shape = s at hm
    rw [Value.toJson, Value.itemsToJson_eq_map] at hm
    cases hm with
    | @array items _ values hvalues =>
      have hi : p.items? = some items.value := items?_eq_some_iff.2 ⟨items.inherited, hshape⟩
      refine congrArg Value.array (eq_of_mapM (fun u hu u' hconvert hsame => ?_) hvalues hsame)
      exact eq_of_convert_item list hu (fun r hr => hs r (hr.trans (Child.items hi).part)) hconvert hsame
    | _ => cases hk
termination_by structural v => v

theorem eq_of_convert_member : ∀ (members : List (String × Value)) {name : String} {v : Value},
    (name, v) ∈ members → ∀ {p : Property} {w : Value}, (∀ q, Part q p → q.MembersSorted) →
      p.convert v.toJson = .ok w → w.same v = true → w = v
  | [], _, _, hm => absurd hm List.not_mem_nil
  | (n, u) :: rest, name, v, hm => fun hs h hsame => by
    rcases List.mem_cons.1 hm with he | hm
    · rw [(Prod.mk.inj he).2] at h hsame ⊢
      exact eq_of_convert u hs h hsame
    · exact eq_of_convert_member rest hm hs h hsame
termination_by structural members => members

theorem eq_of_convert_item : ∀ (list : List Value) {v : Value}, v ∈ list → ∀ {p : Property} {w : Value},
    (∀ q, Part q p → q.MembersSorted) → p.convert v.toJson = .ok w → w.same v = true → w = v
  | [], _, hm => absurd hm List.not_mem_nil
  | u :: rest, v, hm => fun hs h hsame => by
    rcases List.mem_cons.1 hm with he | hm
    · rw [he] at h hsame ⊢
      exact eq_of_convert u hs h hsame
    · exact eq_of_convert_item rest hm hs h hsame
termination_by structural list => list
end

end Property

end Capability
