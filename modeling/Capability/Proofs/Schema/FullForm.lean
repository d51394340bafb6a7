import Capability.Proofs.Schema.Consistency
import Capability.Proofs.Schema.RoundTrip

/-!
# The full form of a type

A type that is read without a base is read again from its full form, and the result is the same, exactly if every
array in it has a type for its items (`full_readsBack_iff`). The name `array.array` gives an array whose items are
arrays without a type for their items. Its full form is refused (`full_refused_array_array`).
-/

namespace Capability

open Property

/-! ## Reading the full form -/

/-- The full form names the kind of the type. -/
theorem Property.begins_full (p : Property) : p.Begins .full none := by
  refine ⟨some (.string p.kind.text), ?_⟩
  rw [toJson_eq]
  show Property.ofJson none (.object (p.written .full (some (.string p.kind.text)))) = _
  have htype : Definition.typeOf none (p.written .full (some (.string p.kind.text))) = .ok (.plain p.kind) := by
    rw [Definition.typeOf, written, Outline.get?_fields]
    exact TypeName.ofText_text (.plain p.kind)
  rw [Property.ofJson, htype]
  rfl

namespace Property

section NoBase

variable {p r : Property}

/-- In a type without a base nothing has a base. -/
theorem RestsOn.part_of_none (h : RestsOn none p) (hr : Part r p) : RestsOn none r := by
  induction p using byChildren with
  | step p ih =>
    rcases hr.cases with rfl | ⟨q, hq, hr⟩
    · exact h
    · have hq' : RestsOn none q := by
        cases hq with
        | items hi => exact h.of_items (fun _ he => by cases he) hi
        | member ho hm => exact h.of_member (fun _ he => by cases he) ho hm
      exact ih q hq hq' hr

theorem RestsOn.not_narrows (h : RestsOn none p) : ¬p.Narrows := by
  rintro (⟨⟨list, ha⟩, _⟩ | ⟨⟨v, hd⟩, _⟩)
  · obtain ⟨_, he, _⟩ := h.taken_allowed ha
    cases he
  · obtain ⟨_, he, _⟩ := h.taken_default hd
    cases he

/-- In a type without a base all values fit. -/
theorem RestsOn.fits_of_none (h : RestsOn none p) (hw : p.WellFormed) (hr : Part r p) : r.Fits :=
  h.fits hw (fun _ he => by cases he) (fun _ hr hn => absurd hn (h.part_of_none hr).not_narrows) r hr

theorem RestsOn.allowed_ne_nil (h : RestsOn none p) {a : Attribute (List Value)} (ha : p.allowed = some a) :
    a.value ≠ [] := by
  obtain ⟨list, inherited⟩ := a
  cases inherited with
  | true =>
    obtain ⟨_, he, _⟩ := h.taken_allowed ha
    cases he
  | false => exact (h.allowed_own ha).1

/-- **The full form of a type without a base reads back, if every array in it has a type for its items.** -/
theorem RestsOn.readsBack_full (h : RestsOn none p) (hw : p.WellFormed)
    (htyped : ∀ r, Part r p → r.shape ≠ .array none) : p.ReadsBack .full none := by
  induction p using byChildren with
  | step p ih =>
    have hfits : p.Fits := h.fits_of_none hw (.refl p)
    have hchild : ∀ q, Child q p → q.ReadsBack .full none := fun q hq =>
      ih q hq (h.part_of_none hq.part) (hw.child hq) fun r hr => htyped r (hr.trans hq.part)
    refine h.readsBack (hw p (.refl p)).2 p.begins_full (fun _ => rfl) (htyped p (.refl p)) (fun a ha _ => ?_)
      (fun a ha _ => ?_) (fun _ _ _ _ => rfl) (fun a ha _ => ?_) fun type ht _ name q hq => ?_
    · have hl : p.allowed? = some a.value := by rw [allowed?, ha]; rfl
      exact ⟨h.allowed_ne_nil ha, fun v hv => (hfits.allowed _ hl v hv).shape⟩
    · exact hfits.default a.value (by rw [default?, ha]; rfl)
    · exact hchild a.value (.items (items?_eq_some_iff.2 ⟨a.inherited, ha⟩))
    · exact hchild q (.member (object?_eq_some_iff.2 ⟨type.inherited, ht⟩) hq)

end NoBase

/-! ## Arrays without a type for their items -/

section Untyped

variable {form : Form} {p r : Property}

/-- Without a base the type of the items is the definition's own. -/
theorem RestsOn.own_items (h : RestsOn none p) {q : Property} (hq : p.items? = some q) :
    p.shape = .array (some ⟨q, false⟩) := by
  cases h with
  | intro shape =>
    rcases shape.items?_eq with ⟨q', hq'⟩ | he
    · obtain rfl : q' = q := Option.some.inj ((items?_eq_some_iff.2 ⟨false, hq'⟩).symm.trans hq)
      exact hq'
    · -- the bare array has no type for its items
      rw [show p.shape.items? = some q from hq] at he
      cases hk : p.kind <;> rw [hk] at he <;> cases he

/-- Without a base an object type with members is the definition's own. -/
theorem RestsOn.own_object (h : RestsOn none p) {o : ObjectType} (ho : p.object? = some o) {m : String × Property}
    (hm : m ∈ o.properties) : p.shape = .object ⟨o, false⟩ := by
  cases h with
  | intro shape =>
    rcases shape.object?_eq with ⟨o', ho'⟩ | he
    · obtain rfl : o' = o := Option.some.inj ((object?_eq_some_iff.2 ⟨false, ho'⟩).symm.trans ho)
      exact ho'
    · -- the bare object type has no members
      rw [show p.shape.object? = some o from ho] at he
      cases hk : p.kind <;> rw [hk] at he <;> cases he
      cases hm

/-- **A type with an array without a type for its items is never read from a form that begins with its kind.** The
induction is on the type: the types inside are all written, so one of them is refused. -/
theorem RestsOn.ofJson_ne_ok (hbegins : ∀ q, RestsOn none q → q.Begins form none) (h : RestsOn none p)
    (hr : Part r p) (hs : r.shape = .array none) (q : Property) : Property.ofJson none (p.toJson form) ≠ .ok q := by
  induction p using byChildren generalizing q with
  | step p ih =>
    intro hq
    obtain ⟨type?, hread⟩ := hbegins p h
    rw [hread] at hq
    obtain ⟨d, hall, hfinish⟩ := Fault.bind_ok_iff.1 hq
    rcases hr.cases with rfl | ⟨c, hc, hr⟩
    · obtain ⟨d', s, required, hall', _, _, hsettle, hshape, _⟩ := h.exists_readAll (fun _ => rfl)
        (fun _ ht => absurd (hs.symm.trans ht) (by simp))
        (fun _ ha => absurd (hs.symm.trans ha) (by simp))
        (fun _ ht => absurd (hs.symm.trans ht) (by simp)) type?
      obtain rfl : d = d' := Except.ok.inj (hall.symm.trans hall')
      obtain ⟨_, hcheck, _⟩ := Fault.bind_ok_iff.1 hfinish
      rw [hsettle] at hcheck
      have hr := (checkShape_congr hshape).symm.trans hcheck
      rw [checkShape, hs] at hr
      cases hr
    · have hchild := ih c hc (h.part_of_none hc.part) hr
      cases hc with
      | items hi =>
        obtain ⟨q', hq', _⟩ := h.ofJson_items_of_readAll (h.own_items hi) (.inr rfl) hall
        exact hchild q' hq'
      | member ho hm =>
        obtain ⟨properties, _, hp, _⟩ := h.ofMembers_of_readAll (h.own_object ho hm) (.inr rfl) hall
        obtain ⟨q', hq'⟩ := Draft.ofJson_of_ofMembers hp (List.mem_map_of_mem hm)
        exact hchild q' hq'

/-- A type with an array without a type for its items is never read from its full form. -/
theorem ofJson_full_ne_ok (h : RestsOn none p) (hr : Part r p) (hs : r.shape = .array none) (q : Property) :
    Property.ofJson none (p.toJson .full) ≠ .ok q :=
  h.ofJson_ne_ok (fun q _ => q.begins_full) hr hs q

end Untyped

end Property

/-- **A type that is read without a base is found again in its full form, exactly if every array in it has a type for
its items.** -/
theorem Property.full_readsBack_iff {json : Json} {p : Property} (hs : json.Sorted)
    (h : Property.ofJson none json = .ok p) :
    (∃ q, Property.ofJson none (p.toJson .full) = .ok q ∧ q.same p = true) ↔
      ∀ r, Part r p → r.shape ≠ .array none := by
  obtain ⟨hrests, hw⟩ := restsOn_ofJson json hs (fun _ he => by cases he) h
  constructor
  · rintro ⟨q, hq, _⟩ r hr hnone
    exact ofJson_full_ne_ok hrests hr hnone q hq
  · intro htyped
    obtain ⟨q, hq, hbare⟩ := hrests.readsBack_full hw htyped
    exact ⟨q, hq, same_of_bare_eq hbare⟩

/-- Arrays of integers are found again. -/
theorem Property.full_readsBack_array_integer : ∃ p, Property.ofJson none (.string "array.integer") = .ok p ∧
    ∃ q, Property.ofJson none (p.toJson .full) = .ok q ∧ q.same p = true := by
  have h : Property.ofJson none (.string "array.integer") = .ok (.ofTypeName (.arrayOf (.plain .integer))) := rfl
  have hs : Json.Sorted (.string "array.integer") := trivial
  refine ⟨_, h, (full_readsBack_iff hs h).2 fun r hr => ?_⟩
  rcases hr.cases with rfl | ⟨q, hq, hr⟩
  · exact fun he => by cases he
  · cases hq with
    | items hi =>
      cases hi
      obtain rfl := hr.eq_of_leaf rfl rfl
      exact fun he => by cases he
    | member ho => cases ho

/-- **Arrays of arrays whose items have no type are read, and their full form is refused.** -/
theorem Property.full_refused_array_array : ∃ p, Property.ofJson none (.string "array.array") = .ok p ∧
    ∀ q, Property.ofJson none (p.toJson .full) ≠ .ok q := by
  refine ⟨.ofTypeName (.arrayOf (.plain .array)), rfl, fun q h => ?_⟩
  cases h

end Capability
