import Capability.Proofs.Schema.MinimalForm
import Capability.Proofs.Schema.Recovery

/-!
# Types that read back from their minimal form

Where the minimal form tells everything (`Property.Told`), a type reads back over its base exactly if the values that
definitions give themselves are still values of their types (`Property.minimal_readsBack_iff`). They may not be: a
default is filled in with the defaults of members when it is read, and a default that a member takes over is not looked
at again.

* `RestsOn.accepts_of_readsBack`: what is read back accepts its values. The induction is on the type, along the places
  that the minimal form reaches.
* `minimal_default_refused`: a definition whose minimal form is refused.
-/

namespace Capability

open Property

namespace Property

/-! ## What sameness says -/

section Same

variable {p q : Property}

theorem same_items (h : p.same q = true) {a b : Attribute Property} (hp : p.shape = .array (some a))
    (hq : q.shape = .array (some b)) : a.value.same b.value = true := by
  have hs := (same_iff.1 h).1
  rw [hp, hq] at hs
  cases hs with
  | array h => exact h

theorem same_members (h : p.same q = true) {a b : Attribute ObjectType} (hp : p.shape = .object a)
    (hq : q.shape = .object b) : sameMembers a.value.properties b.value.properties = true := by
  have hs := (same_iff.1 h).1
  rw [hp, hq] at hs
  cases hs with
  | object h _ => exact h

end Same

/-- Members that are read the same are the same one by one. -/
theorem same_of_ofMembers {type : Option ObjectType} {form : Form} {properties properties' : Fields Property}
    (h : ObjectType.ofMembers type (Fields.mapValues (Property.toJson form) properties) = .ok properties')
    (hsame : sameMembers properties' properties = true) {name : String} {q : Property} (hq : (name, q) ∈ properties) :
    ∃ q', Property.ofJson (type.bind (·.get? name)) (q.toJson form) = .ok q' ∧ q'.same q = true := by
  induction properties generalizing properties' with
  | nil => cases hq
  | cons m rest ih =>
    obtain ⟨n, r⟩ := m
    change ObjectType.ofMembers type ((n, r.toJson form) :: Fields.mapValues (Property.toJson form) rest) = _ at h
    rw [ObjectType.ofMembers] at h
    obtain ⟨r', hr', h⟩ := Fault.bind_ok_iff.1 h
    obtain ⟨rest', hrest', h⟩ := Fault.bind_ok_iff.1 h
    obtain rfl := Except.ok.inj h
    rw [sameMembers, Bool.and_eq_true, Bool.and_eq_true] at hsame
    rcases List.mem_cons.1 hq with he | hq
    · obtain ⟨rfl, rfl⟩ := Prod.mk.inj he
      exact ⟨r', Fault.mapError_ok_iff.1 hr', hsame.1.2⟩
    · exact ih hrest' hsame.2 hq

theorem sameItems_of_beq {vs ws : List Value} (h : (vs == ws) = true) : Value.sameItems vs ws = true := by
  induction vs generalizing ws with
  | nil =>
    cases ws with
    | nil => rfl
    | cons _ _ => cases h
  | cons v vs ih =>
    cases ws with
    | nil => cases h
    | cons w ws =>
      change (v.same w && vs == ws) = true at h
      rw [Bool.and_eq_true] at h
      rw [Value.sameItems, h.1, ih h.2]
      rfl

/-! ## Values that are read again -/

section Values

variable {p p₁ q r : Property}

theorem membersSorted_of_shape_eq (h : q.shape = p.shape) (hs : ∀ r, Part r p → r.MembersSorted) :
    ∀ r, Part r q → r.MembersSorted := by
  intro r hr
  rcases hr.cases with rfl | ⟨c, hc, hr⟩
  · exact fun o ho => hs p (.refl p) o (by rwa [object?, ← h])
  · refine hs r (hr.trans (Child.part ?_))
    cases hc with
    | items hi => exact .items (by rwa [items?, ← h])
    | member ho hm => exact .member (by rwa [object?, ← h]) hm

/-- Allowed values that are read again as the same values are values of the type. -/
theorem accepts_of_readAllowed (hs : ∀ q, Part q p → q.MembersSorted) (hshape : p₁.shape.convert = p.shape.convert)
    {list : List Value} (hlist : p.allowed = some ⟨list, false⟩)
    (h : p₁.readAllowed (Attribute.entry .minimal allowedToJson p.allowed) = .ok r)
    (hsame : Attribute.same? (· == ·) r.allowed p.allowed = true) : ∀ v ∈ list, p.Accepts v := by
  -- the values are read without a list of allowed values
  let p₀ : Property := { p with allowed := none }
  have hconvert : ({ p₁ with allowed := none } : Property).convert = p₀.convert := by
    funext json
    rw [convert_eq, convert_eq]
    exact congrArg (fun f => f json >>= _) hshape
  have hsorted : ∀ q, Part q p₀ → q.MembersSorted := membersSorted_of_shape_eq (p := p) rfl hs
  rw [hlist] at h hsame
  obtain ⟨values, hvalues, hr⟩ : ∃ values, (list.map Value.toJson).mapM p₀.convert = .ok values ∧
      r.allowed = some (.own values) := by
    rw [← hconvert]
    cases list with
    | nil => cases h
    | cons v vs =>
      obtain ⟨values, hvalues, h⟩ := Fault.bind_ok_iff.1 h
      exact ⟨values, Fault.mapError_ok_iff.1 hvalues, by rw [← Except.ok.inj h]⟩
  rw [hr] at hsame
  obtain rfl : values = list := eq_of_mapM
    (fun v _ w hw hsame => eq_of_convert v hsorted hw hsame) hvalues (sameItems_of_beq hsame)
  intro v hv
  have hv' : p₀.Accepts v := Fault.mapM_map_ok_iff.1 hvalues v hv
  exact accepts_of_mem (by rw [allowed?, hlist]; rfl) hv hv'.shape

/-- A default that is read again as the same value is a value of the type. -/
theorem accepts_of_readDefault (hs : ∀ q, Part q p → q.MembersSorted) (hconvert : p₁.convert = p.convert)
    {v : Value} (hv : p.default = some ⟨v, false⟩)
    (h : p₁.readDefault (Attribute.entry .minimal Value.toJson p.default) = .ok r)
    (hsame : Attribute.same? (· == ·) r.default p.default = true) : p.Accepts v := by
  rw [hv] at h hsame
  obtain ⟨w, hw, h⟩ := Fault.bind_ok_iff.1 h
  obtain rfl := Except.ok.inj h
  replace hw : p.convert v.toJson = .ok w := hconvert ▸ Fault.mapError_ok_iff.1 hw
  rw [Accepts, hw, eq_of_convert v hs hw hsame]

end Values

/-! ## Types that are read again -/

section Types

variable {base : Option Property} {p q : Property}

/-- The types of items that are written are read again as the same types. -/
theorem RestsOn.readAgain_items (h : RestsOn base p) {type? : Option Json} {d : Draft}
    (hall : Draft.readAll base { property := untouched base p.kind } (p.written .minimal type?) = .ok d)
    (hq : d.finish = .ok q) (hsame : q.same p = true) {c : Property} (hs : p.shape = .array (some ⟨c, false⟩)) :
    ∃ r, Property.ofJson (base.bind items?) (c.toJson .minimal) = .ok r ∧ r.same c = true := by
  obtain ⟨r, hr, hd⟩ := h.ofJson_items_of_readAll hs (.inr rfl) hall
  exact ⟨r, hr, same_items hsame ((Draft.shape_of_finish hq).trans hd) hs⟩

/-- The types of members that are written are read again as the same types. -/
theorem RestsOn.readAgain_member (h : RestsOn base p) {type? : Option Json} {d : Draft}
    (hall : Draft.readAll base { property := untouched base p.kind } (p.written .minimal type?) = .ok d)
    (hq : d.finish = .ok q) (hsame : q.same p = true) {o : ObjectType} (hs : p.shape = .object ⟨o, false⟩)
    {name : String} {c : Property} (hc : (name, c) ∈ o.properties) :
    ∃ r, Property.ofJson ((base.bind object?).bind (·.get? name)) (c.toJson .minimal) = .ok r ∧ r.same c = true := by
  obtain ⟨properties, isOpen, hp, hd⟩ := h.ofMembers_of_readAll hs (.inr rfl) hall
  exact same_of_ofMembers hp (same_members hsame ((Draft.shape_of_finish hq).trans hd) hs) hc

/-- The values that a definition gives itself are values of the type, if its written form is read as the same type and
the types inside that it gives itself read back. -/
theorem RestsOn.accepts_of_readAll (h : RestsOn base p) (hw : p.WellFormed) {type? : Option Json} {d : Draft}
    (hall : Draft.readAll base { property := untouched base p.kind } (p.written .minimal type?) = .ok d)
    (hq : d.finish = .ok q) (hsame : q.same p = true)
    (hclosed : ∀ type, p.shape = .object type → type.Written .minimal → type.value.isOpen = false →
      (base.bind object?).any (·.isOpen) = false)
    (hitems : ∀ a, p.shape = .array (some a) → a.Written .minimal → a.value.ReadsBack .minimal (base.bind items?))
    (hmembers : ∀ type, p.shape = .object type → type.Written .minimal → ∀ name q, (name, q) ∈ type.value.properties →
      q.ReadsBack .minimal ((base.bind object?).bind (·.get? name))) {v : Value} (hv : p.Gives v) : p.Accepts v := by
  obtain ⟨d', s, required, hall', hdAllowed, hdDefault, hsettle, hshape, _⟩ :=
    h.exists_readAll (fun he => by cases he) hclosed hitems hmembers type?
  obtain rfl : d = d' := Except.ok.inj (hall.symm.trans hall')
  obtain ⟨_, p₂, hlist, hvalue⟩ := Draft.finish_cases hq
  rw [hsettle, hdAllowed] at hlist
  rw [hdDefault] at hvalue
  let p₁ : Property := { untouched base p.kind with shape := s, required := required }
  have hconvert : p₁.shape.convert = p.shape.convert := convert_shape_congr (p := p₁) (q := p) hshape
  have hsorted : ∀ r, Part r p → r.MembersSorted := fun r hr =>
    (hw.part hr).rests_self.membersSorted
  obtain ⟨_, hsameAllowed, hsameDefault, _⟩ := same_iff.1 hsame
  have hallowed : q.allowed = p₂.allowed := by
    rcases readDefault_cases hvalue with rfl | ⟨_, _, rfl, _⟩
    · rfl
    · rfl
  rw [hallowed] at hsameAllowed
  have hlisted : ∀ list, p.allowed = some ⟨list, false⟩ → ∀ v ∈ list, p.Accepts v := fun list hl =>
    accepts_of_readAllowed hsorted hconvert hl hlist hsameAllowed
  rcases hv with hv | ⟨list, hl, hv⟩
  · have hrestored : p₁.readAllowed (Attribute.entry .minimal allowedToJson p.allowed) =
        .ok { p₁ with allowed := Attribute.restore .minimal p.allowed (untouched base p.kind).allowed } := by
      refine readAllowed_entry fun a ha hwr => ?_
      obtain ⟨list, rfl⟩ := Attribute.own_of_written hwr
      exact ⟨(h.allowed_own ha).1, fun v hv => hconvert ▸ (hlisted list ha v hv).shape⟩
    obtain rfl := Except.ok.inj (hlist.symm.trans hrestored)
    exact accepts_of_readDefault hsorted (convert_congr hshape (Attribute.restore_inherit h.allowed_from)) hv hvalue
      hsameDefault
  · exact hlisted list hl v hv

/-- **What is read back from the minimal form accepts the values that definitions give themselves.** -/
theorem RestsOn.accepts_of_readsBack (h : RestsOn base p) (hw : p.WellFormed)
    (htold : ∀ b r, Place base p b r → r.Told b) (hq : Property.ofJson base (p.toJson .minimal) = .ok q)
    (hsame : q.same p = true) : ∀ b r v, Place base p b r → r.Gives v → r.Accepts v := by
  induction p using byChildren generalizing base q with
  | step p ih =>
    obtain ⟨_, hclosed, hshown⟩ := htold base p .here
    obtain ⟨type?, hread⟩ := h.begins_minimal hshown
    rw [hread] at hq
    obtain ⟨d, hall, hfinish⟩ := Fault.bind_ok_iff.1 hq
    -- what is inside is read again first
    have hitems : ∀ c, p.shape = .array (some ⟨c, false⟩) →
        ∀ b r v, Place (base.bind items?) c b r → r.Gives v → r.Accepts v := by
      intro c hs
      have hc : Child c p := .items (items?_eq_some_iff.2 ⟨false, hs⟩)
      obtain ⟨r, hr, hsame⟩ := h.readAgain_items hall hfinish hsame hs
      exact ih c hc (h.items_own hs) (hw.child hc) (fun b r hr => htold b r (.items hs hr)) hr hsame
    have hmembers : ∀ o, p.shape = .object ⟨o, false⟩ → ∀ name c, (name, c) ∈ o.properties →
        ∀ b r v, Place ((base.bind object?).bind (·.get? name)) c b r → r.Gives v → r.Accepts v := by
      intro o hs name c hm
      have hc : Child c p := .member (object?_eq_some_iff.2 ⟨false, hs⟩) hm
      obtain ⟨r, hr, hsame⟩ := h.readAgain_member hall hfinish hsame hs hm
      exact ih c hc (h.member_own hs hm) (hw.child hc) (fun b r hr => htold b r (.member hs hm hr)) hr hsame
    intro b r v hplace hv
    cases hplace with
    | items hs hr => exact hitems _ hs b r v hr hv
    | member hs hm hr => exact hmembers _ hs _ _ hm b r v hr hv
    | here =>
      refine h.accepts_of_readAll hw hall hfinish hsame (fun type ht hwr => ?_) (fun a ha hwr => ?_)
        (fun type ht hwr name c hm => ?_) hv
      · obtain ⟨o, rfl⟩ := Attribute.own_of_written hwr
        exact hclosed o ht
      · obtain ⟨c, rfl⟩ := Attribute.own_of_written hwr
        exact (h.items_own ha).readsBack_minimal (hw.child (.items (items?_eq_some_iff.2 ⟨false, ha⟩)))
          (fun b r hr => htold b r (.items ha hr)) (hitems c ha)
      · obtain ⟨o, rfl⟩ := Attribute.own_of_written hwr
        exact (h.member_own ht hm).readsBack_minimal (hw.child (.member (object?_eq_some_iff.2 ⟨false, ht⟩) hm))
          (fun b r hr => htold b r (.member ht hm hr)) (hmembers o ht name c hm)

end Types

/-! ## Definitions over a base -/

/-- **A type that is read over a base, and whose minimal form tells everything, is found again in its minimal form over
that base, exactly if the values that definitions give themselves are values of their types.** -/
theorem minimal_readsBack_iff {bases : List Property} {b p : Property} {json : Json} (hb : Read bases b)
    (hs : json.Sorted) (h : Property.ofJson (some b) json = .ok p)
    (htold : ∀ c r, Place (some b) p c r → r.Told c) :
    (∃ q, Property.ofJson (some b) (p.toJson .minimal) = .ok q ∧ q.same p = true) ↔
      ∀ c r v, Place (some b) p c r → r.Gives v → r.Accepts v := by
  obtain ⟨hrests, hw⟩ := (Read.derived hs hb h).spec
  constructor
  · rintro ⟨q, hq, hsame⟩
    exact hrests.accepts_of_readsBack hw htold hq hsame
  · intro hvalues
    obtain ⟨q, hq, hbare⟩ := hrests.readsBack_minimal hw htold hvalues
    exact ⟨q, hq, same_of_bare_eq hbare⟩

/-- A minimum and a default over a bare integer are found again. -/
theorem minimal_readsBack_default : ∃ b p, Property.ofJson none (.string "integer") = .ok b ∧
    Property.ofJson (some b) (.object [("default", .integer 5), ("minimum", .integer 0)]) = .ok p ∧
      ∃ q, Property.ofJson (some b) (p.toJson .minimal) = .ok q ∧ q.same p = true := by
  let b : Property := .ofTypeName (.plain .integer)
  let p : Property := ⟨.integer ⟨some (.own 0), none⟩, none, some (.own (.integer 5)), ⟨false, true⟩, true⟩
  have hb : Property.ofJson none (.string "integer") = .ok b := rfl
  have hp : Property.ofJson (some b) (.object [("default", .integer 5), ("minimum", .integer 0)]) = .ok p := rfl
  have hbs : Json.Sorted (.string "integer") := trivial
  have hs : Json.Sorted (.object [("default", .integer 5), ("minimum", .integer 0)]) :=
    ⟨List.pairwise_pair.2 (by decide), trivial, trivial, trivial⟩
  -- an integer has no other places
  have hplace : ∀ c r, Place (some b) p c r → r = p := by
    intro c r hr
    cases hr with
    | here => rfl
    | items he => cases he
    | member he => cases he
  refine ⟨b, p, hb, hp, (minimal_readsBack_iff (.plain hbs hb) hs hp fun c r hr => ?_).2 fun c r v hr hv => ?_⟩
  · obtain rfl := hplace c r hr
    exact ⟨fun he => (by cases he), fun _ he => (by cases he), fun _ he => (by cases he)⟩
  · obtain rfl := hplace c r hr
    rcases hv with hv | ⟨_, hl, _⟩
    · obtain rfl := congrArg Attribute.value (Option.some.inj hv)
      rfl
    · cases hl

end Property

/-- **A default takes in the defaults of members, and may be refused in the minimal form for one that its member took
over.** -/
theorem minimal_default_refused : ∃ c b p,
    Property.ofJson none (.object [("properties", .object [("a", .object [("default", .integer 5)])])]) = .ok c ∧
      Property.ofJson (some c) (.object [("properties", .object [("a", .object [("minimum", .integer 10)])])]) = .ok b ∧
        Property.ofJson (some b) (.object [("default", .object [])]) = .ok p ∧
          ∀ q, Property.ofJson (some b) (p.toJson .minimal) ≠ .ok q := by
  refine ⟨_, _, _, rfl, rfl, rfl, fun q h => ?_⟩
  cases h

end Capability
