import Capability.Proofs.Schema.FullForm
import Capability.Proofs.Schema.MinimalForm

/-!
# The minimal form of a type without a base

Without a base nothing stands behind the minimal form: it may be the name of the type, a bare list of allowed values,
or attributes of which some show the type. Still it is read as the same type again, with the same name, exactly if every
array inside has a type for its items (`Property.minimal_alone_iff`).

* `RestsOn.begins_alone`: whatever is left out, what is written leads to the kind of the type.
* `Place.of_none`: the minimal form of a type without a base reaches parts of the type, and none of them has a base.
* `minimal_refused_array_array`: arrays of arrays whose items have no type are read, and their minimal form is refused.
-/

namespace Capability

open Property

namespace Property

section NoBase

variable {p r : Property}

theorem RestsOn.derived_eq_false (h : RestsOn none p) : p.derived = false := by
  refine Bool.eq_false_iff.2 fun hd => ?_
  obtain ⟨_, he⟩ := h.exists_base hd
  cases he

/-- **Without a base the minimal form leads to the kind of the type.** -/
theorem RestsOn.begins_alone (h : RestsOn none p) : p.Begins .minimal none := by
  refine h.begins_minimal fun hd => ?_
  rw [h.derived_eq_false] at hd
  cases hd

/-- Where there is no base, there is none behind the types inside either. -/
theorem Place.of_none {base b : Option Property} (h : Place base p b r) (hb : base = none) : b = none ∧ Part r p := by
  induction h with
  | here => exact ⟨hb, .refl _⟩
  | items hs _ ih =>
    obtain ⟨hnone, hr⟩ := ih (by rw [hb]; rfl)
    exact ⟨hnone, hr.trans (Child.items (items?_eq_some_iff.2 ⟨false, hs⟩)).part⟩
  | member hs hm _ ih =>
    obtain ⟨hnone, hr⟩ := ih (by rw [hb]; rfl)
    exact ⟨hnone, hr.trans (Child.member (object?_eq_some_iff.2 ⟨false, hs⟩) hm).part⟩

/-- Without a base the minimal form tells everything but the types that are missing. -/
theorem RestsOn.told (h : RestsOn none p) (htyped : p.shape ≠ .array none) : p.Told none := by
  refine ⟨htyped, fun _ _ _ => rfl, fun hd => ?_⟩
  rw [h.derived_eq_false] at hd
  cases hd

theorem Fits.accepts_of_gives (h : p.Fits) {v : Value} (hv : p.Gives v) : p.Accepts v := by
  rcases hv with hv | ⟨list, hl, hv⟩
  · exact h.default v (by rw [default?, hv]; rfl)
  · exact h.allowed list (by rw [allowed?, hl]; rfl) v hv

/-- **The minimal form of a type without a base reads back, if every array in it has a type for its items.** -/
theorem RestsOn.readsBack_alone (h : RestsOn none p) (hw : p.WellFormed)
    (htyped : ∀ r, Part r p → r.shape ≠ .array none) : p.ReadsBack .minimal none := by
  refine h.readsBack_minimal hw (fun b r hr => ?_) fun b r v hr hv => ?_
  · obtain ⟨rfl, hpart⟩ := hr.of_none rfl
    exact (h.part_of_none hpart).told (htyped r hpart)
  · obtain ⟨_, hr⟩ := hr.of_none rfl
    exact (h.fits_of_none hw hr).accepts_of_gives hv

end NoBase

/-- **A type that is read without a base is found again in its minimal form, with the same name, exactly if every array
in it has a type for its items.** -/
theorem minimal_alone_iff {json : Json} {p : Property} (hs : json.Sorted) (h : Property.ofJson none json = .ok p) :
    (∃ q, Property.ofJson none (p.toJson .minimal) = .ok q ∧ q.same p = true ∧ q.typeName = p.typeName) ↔
      ∀ r, Part r p → r.shape ≠ .array none := by
  obtain ⟨hrests, hw⟩ := restsOn_ofJson json hs (fun _ he => by cases he) h
  constructor
  · rintro ⟨q, hq, _⟩ r hr hnone
    exact hrests.ofJson_ne_ok (fun _ h => h.begins_alone) hr hnone q hq
  · intro htyped
    obtain ⟨q, hq, hbare⟩ := hrests.readsBack_alone hw htyped
    refine ⟨q, hq, same_of_bare_eq hbare, ?_⟩
    rw [← typeName_bare q, hbare, typeName_bare]

/-- A member that lists its values and an array that shows its items are found again, in a form without any name of a
type. -/
theorem minimal_alone_modes : ∃ p,
    Property.ofJson none (.object [("properties", .object [("mode", .array [.string "auto", .string "manual"]),
      ("steps", .object [("items", .object [("minimum", .double (.zero false))]), ("type", .string "array.number")])])])
        = .ok p ∧
      p.toJson .minimal = .object [("properties", .object [("mode", .array [.string "auto", .string "manual"]),
        ("steps", .object [("items", .object [("minimum", .double (.zero false))])])])] ∧
      ∃ q, Property.ofJson none (p.toJson .minimal) = .ok q ∧ q.same p = true ∧ q.typeName = p.typeName := by
  let mode : Property := ⟨.string .unlimited, some (.own [.string "auto", .string "manual"]), none, ⟨false, true⟩, false⟩
  let step : Property := ⟨.number ⟨some (.own (.zero false)), none⟩, none, none, ⟨false, true⟩, false⟩
  let steps : Property := ⟨.array (some (.own step)), none, none, ⟨false, true⟩, false⟩
  let p : Property := ⟨.object (.own ⟨[("mode", mode), ("steps", steps)], false⟩), none, none, ⟨false, true⟩, false⟩
  have h : Property.ofJson none (.object [("properties", .object [("mode", .array [.string "auto", .string "manual"]),
      ("steps", .object [("items", .object [("minimum", .double (.zero false))]), ("type", .string "array.number")])])])
        = .ok p := rfl
  have hs : Json.Sorted (.object [("properties", .object [("mode", .array [.string "auto", .string "manual"]),
      ("steps", .object [("items", .object [("minimum", .double (.zero false))]),
        ("type", .string "array.number")])])]) :=
    ⟨List.pairwise_singleton _ _, ⟨List.pairwise_pair.2 (by decide), ⟨trivial, trivial, trivial⟩,
      ⟨List.pairwise_pair.2 (by decide), ⟨List.pairwise_singleton _ _, trivial, trivial⟩, trivial, trivial⟩, trivial⟩,
      trivial⟩
  refine ⟨p, h, rfl, (minimal_alone_iff hs h).2 fun r hr => ?_⟩
  rcases hr.cases with rfl | ⟨q, hq, hr⟩
  · exact fun he => by cases he
  · cases hq with
    | items hi => cases hi
    | member ho hm =>
      cases ho
      rcases List.mem_cons.1 hm with he | hm
      · obtain ⟨_, rfl⟩ := Prod.mk.inj he
        obtain rfl := hr.eq_of_leaf rfl rfl
        exact fun he => by cases he
      · obtain ⟨_, rfl⟩ := Prod.mk.inj (List.mem_singleton.1 hm)
        rcases hr.cases with rfl | ⟨q, hq, hr⟩
        · exact fun he => by cases he
        · cases hq with
          | items hi =>
            cases hi
            obtain rfl := hr.eq_of_leaf rfl rfl
            exact fun he => by cases he
          | member ho => cases ho

/-- **Arrays of arrays whose items have no type are read, and their minimal form is refused.** -/
theorem minimal_refused_array_array : ∃ p, Property.ofJson none (.string "array.array") = .ok p ∧
    ∀ q, Property.ofJson none (p.toJson .minimal) ≠ .ok q := by
  refine ⟨.ofTypeName (.arrayOf (.plain .array)), rfl, fun q h => ?_⟩
  cases h

end Property

end Capability
