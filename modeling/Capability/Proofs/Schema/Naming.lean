import Capability.Proofs.Schema.Overriding
import Capability.Proofs.Schema.Paths

/-!
# The type that a definition names

A definition starts as the type that it names, or as the one that shows in its attributes, and its attributes keep the
kind. Only `items` changes the name: it gives the items a type of its own, whatever type the name gave them
(`Draft.overlay_items`). So a name that tells the type of the items is kept exactly as long as `items` does not tell
another one (`Property.typeName_of_named`).

The other way round, a definition that names no type may be given the name of what it was read as. It is then read as
the very same type, unless it changes the name of its base (`Property.ofJson_named_iff`).
-/

namespace Capability

open Property

namespace Draft

variable {base : Option Property} {d d' : Draft}

/-! ## The start -/

theorem kind_of_start {name : TypeName} (h : Draft.start name base = .ok d) : d.property.kind = name.kind := by
  cases base with
  | none =>
    obtain rfl := Except.ok.inj h
    exact (kind_typeName _).symm.trans (congrArg TypeName.kind (typeName_ofTypeName name))
  | some c =>
    obtain ⟨p, hp, h⟩ := Fault.bind_ok_iff.1 h
    obtain rfl := Except.ok.inj h
    obtain ⟨hk, ⟨rfl, _⟩ | ⟨items, rfl, _, rfl⟩⟩ := over_cases hp
    · exact (Shape.kind_inherit c.shape).trans hk
    · rfl

/-- A definition that names the type of the items starts with this type. -/
theorem typeName_of_start {items : TypeName} (h : Draft.start (.arrayOf items) base = .ok d) :
    d.property.typeName = .arrayOf items := by
  cases base with
  | none =>
    obtain rfl := Except.ok.inj h
    exact typeName_ofTypeName (.arrayOf items)
  | some c =>
    obtain ⟨p, hp, h⟩ := Fault.bind_ok_iff.1 h
    obtain rfl := Except.ok.inj h
    obtain ⟨_, ⟨rfl, hitems⟩ | ⟨_, he, _, rfl⟩⟩ := over_cases hp
    · obtain ⟨q, hq, rfl⟩ := hitems items rfl
      exact typeName_of_items? ((Shape.items?_inherit c.shape).trans hq)
    · obtain rfl := TypeName.arrayOf.inj he
      exact typeName_ofTypeName (.arrayOf items)

/-! ## Single attributes -/

theorem kind_readOne {key : String} {json : Json} (h : d.readOne base key json = .ok d') :
    d'.property.kind = d.property.kind := by
  rcases readOne_cases h with ⟨_, hk, _, rfl⟩ | ⟨_, _, hk, _, _, rfl⟩ | h
  · exact hk.symm
  · exact hk.symm
  · rcases readAttribute_cases h with he | ⟨_, he⟩ | ⟨s, he, hs, _, _⟩
    · rw [he]
    · rw [he]
      rfl
    · rw [he]
      exact (hs _ (.refl _)).kind_eq

section Arrays

variable {a : Option (Attribute Property)}

/-- No other attribute of an array looks at the type of its items. -/
theorem readAttribute_array {key : String} {json : Json} (hs : d.property.shape = .array a)
    (h : d.readAttribute key json = .ok d') : d'.property.shape = .array a ∧
      ∀ a', (d.setShape (.array a')).readAttribute key json = .ok (d'.setShape (.array a')) := by
  obtain ⟨⟨shape, _, _, _, _⟩, _, _, _⟩ := d
  obtain rfl : shape = .array a := hs
  unfold readAttribute at h
  split at h
  · obtain rfl := Except.ok.inj h
    exact ⟨rfl, fun _ => rfl⟩
  · obtain rfl := Except.ok.inj h
    exact ⟨rfl, fun _ => rfl⟩
  · obtain rfl := Except.ok.inj h
    exact ⟨rfl, fun _ => rfl⟩
  · split at h
    · rename_i b hb
      obtain rfl := Except.ok.inj h
      obtain rfl := Json.toBool?_eq_some_iff.1 hb
      exact ⟨rfl, fun _ => rfl⟩
    · cases h
  · split at h
    · rename_i b hb
      obtain rfl := Except.ok.inj h
      obtain rfl := Json.toBool?_eq_some_iff.1 hb
      exact ⟨rfl, fun _ => rfl⟩
    · cases h
  · split at h <;> first | cases h | contradiction

theorem readOne_of_array (hs : d.property.shape = .array a) {key : String} (hk : key ≠ "items") (json : Json) :
    d.readOne base key json = d.readAttribute key json := by
  unfold readOne
  split
  · exact absurd rfl hk
  · rename_i hobject
    cases hs.symm.trans hobject
  · rfl

/-- **An attribute of an array gives the items their type, or leaves it as it is.** -/
theorem readOne_array {key : String} {json : Json} (hs : d.property.shape = .array a)
    (h : d.readOne base key json = .ok d') :
    (∃ q, key = "items" ∧ Property.ofJson (base.bind items?) json = .ok q ∧
      d' = d.setShape (.array (some (.own q)))) ∨
      key ≠ "items" ∧ d'.property.shape = .array a ∧
        ∀ a', (d.setShape (.array a')).readOne base key json = .ok (d'.setShape (.array a')) := by
  by_cases hk : key = "items"
  · subst hk
    obtain ⟨q, hq⟩ := ofJson_of_readOne_items hs h
    exact .inl ⟨q, rfl, hq, Except.ok.inj (h.symm.trans (readOne_items hs hq))⟩
  · rw [readOne_of_array hs hk] at h
    obtain ⟨hs', hread⟩ := readAttribute_array hs h
    refine .inr ⟨hk, hs', fun a' => ?_⟩
    rw [readOne_of_array (a := a') rfl hk]
    exact hread a'

end Arrays

/-! ## Whole definitions -/

section Run

variable {fields : Fields Json}

theorem kind_readAll (h : Draft.readAll base d fields = .ok d') : d'.property.kind = d.property.kind :=
  readAll_keeps (P := fun x => x.property.kind = d.property.kind) (fun hd h => (kind_readOne h).trans hd) rfl h

/-- **The items of an array have the type that is given for them**, read over that of the base, or else the one that
they had before. -/
theorem overlay_items {a : Option (Attribute Property)} (hsorted : Fields.Sorted fields)
    (hs : d.property.shape = .array a) (h : Draft.readAll base d fields = .ok d') :
    ∃ b, d'.property.shape = .array b ∧
      Overlay (Attribute.Given fun json q => Property.ofJson (base.bind items?) json = .ok q) (fields.get? "items") a
        b := by
  induction fields generalizing d a with
  | nil =>
    rw [readAll] at h
    obtain rfl := Except.ok.inj h
    exact ⟨a, hs, .refl a⟩
  | cons f rest ih =>
    obtain ⟨key, json⟩ := f
    rw [readAll_cons] at h
    obtain ⟨d₁, h₁, h⟩ := Fault.bind_ok_iff.1 h
    rcases readOne_array hs h₁ with ⟨q, rfl, hq, rfl⟩ | ⟨hk, hs₁, _⟩
    · obtain ⟨b, hb, hover⟩ := ih hsorted.tail rfl h
      rw [hsorted.get?_tail] at hover
      refine ⟨b, hb, ?_⟩
      rw [hover.kept rfl, Fields.get?_cons, if_pos rfl]
      exact ⟨fun _ he => ⟨q, Option.some.inj he ▸ hq, rfl⟩, nofun⟩
    · rw [Fields.get?_cons, if_neg (Ne.symm hk)]
      exact ih hsorted.tail hs₁ h

/-- Where a type is given for the items, it does not matter which one they had before. -/
theorem readAll_setShape {a : Option (Attribute Property)} (hs : d.property.shape = .array a)
    (hitems : fields.get? "items" ≠ none) (h : Draft.readAll base d fields = .ok d') (a' : Option (Attribute Property)) :
    Draft.readAll base (d.setShape (.array a')) fields = .ok d' := by
  induction fields generalizing d a with
  | nil => exact absurd rfl hitems
  | cons f rest ih =>
    obtain ⟨key, json⟩ := f
    rw [readAll_cons] at h ⊢
    obtain ⟨d₁, h₁, h⟩ := Fault.bind_ok_iff.1 h
    rcases readOne_array hs h₁ with ⟨q, rfl, hq, rfl⟩ | ⟨hk, hs₁, hread⟩
    · exact Fault.bind_ok_iff.2 ⟨_, readOne_items rfl hq, h⟩
    · rw [Fields.get?_cons, if_neg (Ne.symm hk)] at hitems
      exact Fault.bind_ok_iff.2 ⟨_, hread a', ih hs₁ hitems h⟩

/-- The name of the type says nothing that is read with the attributes. -/
theorem readAll_put_type (hnone : fields.get? "type" = none) (json : Json) (d : Draft) :
    Draft.readAll base d (fields.put "type" json) = Draft.readAll base d fields := by
  have htype : ∀ d : Draft, d.readOne base "type" json = .ok d := fun d =>
    readOne_of_ne d (by decide) (by decide) json
  induction fields generalizing d with
  | nil =>
    rw [Fields.put, readAll_cons, htype]
    rfl
  | cons f rest ih =>
    obtain ⟨key, j⟩ := f
    rw [Fields.get?_cons] at hnone
    split at hnone
    · cases hnone
    · rename_i hk
      rw [Fields.put]
      split
      · rw [readAll_cons, htype]
        rfl
      · rw [readAll_cons, readAll_cons]
        exact congrArg (d.readOne base key j >>= ·) (funext (ih hnone))

end Run

end Draft

namespace Property

/-! ## Keeping the name -/

section Named

variable {base : Option Property} {fields : Fields Json} {p : Property}

/-- **The attributes of a definition keep the kind that it starts with**, and of an array also the name, unless they
give the items a type. -/
theorem typeName_of_readAll {d d' : Draft} (hsorted : Fields.Sorted fields)
    (hd : Draft.readAll base d fields = .ok d') (h : d'.finish = .ok p) : p.kind = d.property.kind ∧
      (p.kind = .array → Overlay
        (fun json name => ∃ q, Property.ofJson (base.bind items?) json = .ok q ∧ name = .arrayOf q.typeName)
        (fields.get? "items") d.property.typeName p.typeName) := by
  have hshape : p.shape = d'.property.shape.settle d'.isOpen := by
    rw [Draft.shape_of_finish h, Draft.settleOpen_eq]
  have hkind : p.kind = d.property.kind := by
    rw [← Draft.kind_readAll hd, Property.kind, hshape, Shape.kind_settle]
    rfl
  refine ⟨hkind, fun hk => ?_⟩
  rw [hkind] at hk
  obtain ⟨a, ha⟩ : ∃ a, d.property.shape = .array a := exists_array_of_kind hk
  obtain ⟨b, hb, hover⟩ := Draft.overlay_items hsorted ha hd
  rw [hb, Shape.settle_of_object? rfl] at hshape
  constructor
  · intro json hjson
    obtain ⟨q, hq, rfl⟩ := hover.read json hjson
    exact ⟨q, hq, typeName_of_items? (items?_eq_some_iff.2 ⟨false, hshape⟩)⟩
  · intro hnone
    rw [hover.kept hnone, ← ha] at hshape
    exact typeName_of_shape_eq hshape

/-- **A type that is named is kept.** The kind always is. The type of the items, where the name tells it, is kept
exactly if `items` does not tell another one, and over a base whose name does not end in `array` this is so whatever
`items` tells. -/
theorem typeName_of_named {text : String} (hsorted : (Json.object fields).Sorted)
    (hbase : ∀ b, base = some b → ∃ bases, Read bases b) (htype : fields.get? "type" = some (.string text))
    (h : Property.ofJson base (.object fields) = .ok p) :
    ∃ name, TypeName.ofText text = .ok name ∧ p.kind = name.kind ∧ ∀ items, name = .arrayOf items →
      (p.typeName = name ↔ ∀ json, fields.get? "items" = some json →
        ∃ q, Property.ofJson (base.bind items?) json = .ok q ∧ q.typeName = items) ∧
      ∀ b, base = some b → b.typeName.innermost ≠ .array → p.typeName = name := by
  obtain ⟨name, d, d', hname, hd, hd', hfinish⟩ := ofJson_object_ok_iff.1 h
  obtain ⟨hkind, hover⟩ := typeName_of_readAll hsorted.1 hd' hfinish
  rw [Draft.kind_of_start hd] at hkind
  have htext : Definition.typeOf base fields = TypeName.ofText text := by rw [Definition.typeOf, htype]
  refine ⟨name, htext.symm.trans hname, hkind, fun items he => ?_⟩
  subst he
  have hstart : d.property.typeName = .arrayOf items := Draft.typeName_of_start hd
  replace hover := hover hkind
  rw [hstart] at hover
  refine ⟨⟨fun hp json hjson => ?_, fun hitems => ?_⟩, ?_⟩
  · obtain ⟨q, hq, hn⟩ := hover.read json hjson
    exact ⟨q, hq, TypeName.arrayOf.inj (hn.symm.trans hp)⟩
  · cases hjson : Fields.get? fields "items" with
    | none => exact hover.kept hjson
    | some json =>
      obtain ⟨q, hq, hn⟩ := hover.read json hjson
      obtain ⟨r, hr, rfl⟩ := hitems json hjson
      obtain rfl : q = r := Except.ok.inj (hq.symm.trans hr)
      exact hn
  · rintro b rfl hlast
    obtain ⟨bases, hb⟩ := hbase b rfl
    have hrests : RestsOn (some b) p := (Read.derived hsorted hb h).spec.1
    obtain rfl := start_eq hb.typed hd
    exact (hrests.typeName_eq hb.spec.2 hlast).trans ((typeName_taken b).symm.trans hstart)

/-- Over arrays of integers, arrays of integers that are not negative are named as what they are. -/
theorem typeName_of_named_levels : ∃ b p,
    Property.ofJson none (.string "array.integer") = .ok b ∧
      Property.ofJson (some b) (.object [("items", .object [("minimum", .integer 0)]),
        ("type", .string "array.integer")]) = .ok p ∧
      p.kind = .array ∧ p.typeName = .arrayOf (.plain .integer) := by
  let b : Property := .ofTypeName (.arrayOf (.plain .integer))
  have hb : Property.ofJson none (.string "array.integer") = .ok b := rfl
  have hsorted : (Json.object [("items", .object [("minimum", .integer 0)]),
      ("type", .string "array.integer")]).Sorted :=
    ⟨List.pairwise_pair.2 (by decide), ⟨List.pairwise_singleton _ _, trivial, trivial⟩, trivial, trivial⟩
  have hname : (Json.string "array.integer").Sorted := trivial
  have hread : Read [] b := .plain hname hb
  have hbase : ∀ c, some b = some c → ∃ bases, Read bases c := fun c hc => ⟨[], Option.some.inj hc ▸ hread⟩
  obtain ⟨name, htext, hkind, hitems⟩ := typeName_of_named hsorted hbase rfl rfl
  obtain rfl : .arrayOf (.plain .integer) = name :=
    Except.ok.inj ((TypeName.ofText_text (.arrayOf (.plain .integer))).symm.trans htext)
  exact ⟨b, _, hb, rfl, hkind, (hitems _ rfl).2 b rfl (by decide)⟩

/-- **Without a base, items of another type than the one that is named are taken silently.** Over a base with the type
that is named the same definition is refused. -/
theorem typeName_replaced_by_items : ∃ b p,
    TypeName.ofText "array.integer" = .ok (.arrayOf (.plain .integer)) ∧
    Property.ofJson none (.object [("items", .string "string"), ("type", .string "array.integer")]) = .ok p ∧
    p.typeName = .arrayOf (.plain .string) ∧ p.typeName ≠ .arrayOf (.plain .integer) ∧
    Property.ofJson none (.string "array.integer") = .ok b ∧
    Property.ofJson (some b) (.object [("items", .string "string"), ("type", .string "array.integer")]) =
      .error (Definition.typeChanged (.plain .integer) (.plain .string)) :=
  ⟨_, _, rfl, rfl, rfl, by decide, rfl, rfl⟩

end Named

/-! ## Adding the name -/

section SpelledOut

variable {base : Option Property} {fields : Fields Json} {p : Property}

/-- A definition to which the name of a type is added starts as this type. -/
theorem ofJson_put_type (hnone : fields.get? "type" = none) (name : TypeName) :
    Property.ofJson base (.object (fields.put "type" (.string name.text))) =
      Draft.start name base >>= fun d => Draft.readAll base d fields >>= Draft.finish := by
  have htype : Definition.typeOf base (fields.put "type" (.string name.text)) = .ok name := by
    rw [Definition.typeOf, Fields.get?_put_self]
    exact TypeName.ofText_text name
  rw [Property.ofJson, htype]
  show (Draft.start name base >>= fun d => Draft.readAll base d (fields.put "type" _) >>= Draft.finish) = _
  simp only [Draft.readAll_put_type hnone]

/-- Drafts of arrays without a base differ in the type of the items only. -/
theorem ofTypeName_array {name name' : TypeName} (h : name.kind = .array) (h' : name'.kind = .array) :
    ∃ a, ({ property := .ofTypeName name' } : Draft) = Draft.setShape { property := .ofTypeName name } (.array a) := by
  refine ⟨(ofTypeName name').items?.map fun q => ⟨q, false⟩, ?_⟩
  cases name <;> cases name' <;> cases h <;> cases h' <;> rfl

/-- Without a base, what a definition is read as may be named in it. -/
theorem ofJson_named_of_none (hsorted : Fields.Sorted fields) (hnone : fields.get? "type" = none)
    (h : Property.ofJson none (.object fields) = .ok p) :
    Property.ofJson none (.object (fields.put "type" (.string p.typeName.text))) = .ok p := by
  obtain ⟨name, d, d', _, hd, hd', hfinish⟩ := ofJson_object_ok_iff.1 h
  have hname := Draft.kind_of_start hd
  obtain rfl := Except.ok.inj hd
  obtain ⟨hkind, hover⟩ := typeName_of_readAll hsorted hd' hfinish
  rw [typeName_ofTypeName] at hover
  rw [ofJson_put_type hnone]
  refine Fault.bind_ok_iff.2 ⟨_, rfl, Fault.bind_ok_iff.2 ⟨d', ?_, hfinish⟩⟩
  by_cases hk : p.kind = .array
  · by_cases hitems : fields.get? "items" = none
    · rwa [(hover hk).kept hitems]
    · obtain ⟨items, ha⟩ := exists_array_of_kind (hkind.symm.trans hk)
      obtain ⟨a, hdraft⟩ := ofTypeName_array (hname.symm.trans (hkind.symm.trans hk)) (p.kind_typeName.trans hk)
      rw [hdraft]
      exact Draft.readAll_setShape ha hitems hd' a
  · have hplain : name = .plain p.kind := by
      rw [hkind] at hk ⊢
      exact (typeName_ofTypeName name).symm.trans (typeName_eq_plain hk)
    rwa [typeName_eq_plain hk, ← hplain]

/-- Over a base with a type for its items, another name of the same kind is refused. -/
theorem start_error {b : Property} {name : TypeName} (hk : b.kind = name.kind) (hb : b.shape ≠ .array none)
    (hp : name ≠ .plain .array) (hne : name ≠ b.typeName) :
    Draft.start name (some b) = .error (Definition.typeChanged b.typeName name) := by
  have hover : (ofTypeName name).over b = .error (Definition.typeChanged b.typeName name) := by
    cases name with
    | plain kind =>
      have hplain : b.kind ≠ .array := fun he => hp (congrArg TypeName.plain (hk.symm.trans he))
      rw [typeName_eq_plain hplain] at hne
      exact absurd (congrArg TypeName.plain hk.symm) hne
    | arrayOf items =>
      obtain ⟨q, hq⟩ : ∃ q, b.items? = some q :=
        Option.ne_none_iff_exists'.1 fun hnone => hb (array_none_of_items? hk hnone)
      have hitems : (ofTypeName items).typeName ≠ q.typeName := by
        rw [typeName_of_items? hq] at hne
        rw [typeName_ofTypeName]
        exact fun he => hne (congrArg TypeName.arrayOf he)
      have hsome : (ofTypeName (.arrayOf items)).items? = some (.ofTypeName items) := rfl
      have hkind : b.kind = (ofTypeName (.arrayOf items)).kind := hk
      rw [Property.over, if_neg (not_not.2 hkind), hsome, hq, typeName_ofTypeName (.arrayOf items)]
      exact if_pos hitems
  rw [Draft.start, hover]
  rfl

/-- **A definition that names no type may be given the name of what it was read as.** It is then read as the very same
type, with the same attributes of its own, unless the name is another one than that of the base. Then it is refused.
Only a base whose name ends in `array` lets a definition change the name. -/
theorem ofJson_named_iff (hsorted : (Json.object fields).Sorted) (hbase : ∀ b, base = some b → ∃ bases, Read bases b)
    (hnone : fields.get? "type" = none) (h : Property.ofJson base (.object fields) = .ok p) :
    (Property.ofJson base (.object (fields.put "type" (.string p.typeName.text))) = .ok p ↔
      ∀ b, base = some b → p.typeName = b.typeName) ∧
    ∀ b, base = some b → (p.typeName ≠ b.typeName →
      Property.ofJson base (.object (fields.put "type" (.string p.typeName.text))) =
        .error (Definition.typeChanged b.typeName p.typeName)) ∧
      (b.typeName.innermost ≠ .array → p.typeName = b.typeName) := by
  cases base with
  | none => exact ⟨⟨nofun, fun _ => ofJson_named_of_none hsorted.1 hnone h⟩, nofun⟩
  | some b =>
    obtain ⟨bases, hb⟩ := hbase b rfl
    have hrests : RestsOn (some b) p := (Read.derived hsorted hb h).spec.1
    have hchanged (hne : p.typeName ≠ b.typeName) :
        Property.ofJson (some b) (.object (fields.put "type" (.string p.typeName.text))) =
          .error (Definition.typeChanged b.typeName p.typeName) := by
      have hstart : Draft.start p.typeName (some b) = .error (Definition.typeChanged b.typeName p.typeName) :=
        start_error (hrests.kind_eq.symm.trans p.kind_typeName.symm) hb.typed (typeName_ne_array (typed_of_ofJson h))
          hne
      rw [ofJson_put_type hnone, hstart]
      rfl
    have hsame (he : p.typeName = b.typeName) :
        Property.ofJson (some b) (.object (fields.put "type" (.string p.typeName.text))) = .ok p := by
      obtain ⟨name, d, d', _, hd, hd', hfinish⟩ := ofJson_object_ok_iff.1 h
      obtain rfl := start_eq hb.typed hd
      rw [ofJson_put_type hnone, he, Draft.start_typeName]
      exact Fault.bind_ok_iff.2 ⟨_, rfl, Fault.bind_ok_iff.2 ⟨d', hd', hfinish⟩⟩
    refine ⟨⟨fun hok c hc => ?_, fun hall => hsame (hall b rfl)⟩, fun c hc => ?_⟩
    · obtain rfl := Option.some.inj hc
      by_contra hne
      rw [hchanged hne] at hok
      cases hok
    · obtain rfl := Option.some.inj hc
      exact ⟨hchanged, hrests.typeName_eq hb.spec.2⟩

/-- A type that shows in its items may be named. -/
theorem ofJson_named_levels : ∃ b p,
    Property.ofJson none (.string "array.integer") = .ok b ∧
      Property.ofJson (some b) (.object [("items", .object [("minimum", .integer 0)])]) = .ok p ∧
      Property.ofJson (some b) (.object [("items", .object [("minimum", .integer 0)]),
        ("type", .string "array.integer")]) = .ok p := by
  let b : Property := .ofTypeName (.arrayOf (.plain .integer))
  have hb : Property.ofJson none (.string "array.integer") = .ok b := rfl
  have hsorted : (Json.object [("items", .object [("minimum", .integer 0)])]).Sorted :=
    ⟨List.pairwise_singleton _ _, ⟨List.pairwise_singleton _ _, trivial, trivial⟩, trivial⟩
  have hname : (Json.string "array.integer").Sorted := trivial
  have hread : Read [] b := .plain hname hb
  have hbase : ∀ c, some b = some c → ∃ bases, Read bases c := fun c hc => ⟨[], Option.some.inj hc ▸ hread⟩
  refine ⟨b, _, hb, rfl, (ofJson_named_iff hsorted hbase rfl rfl).1.2 fun c hc => ?_⟩
  obtain rfl := Option.some.inj hc
  rfl

/-- **Over arrays of arrays whose items have no type, a definition that gives them one is read, and refused once it
names its type.** -/
theorem named_refused_array_array : ∃ b p,
    Property.ofJson none (.string "array.array") = .ok b ∧
      Property.ofJson (some b) (.object [("items", .string "array.integer")]) = .ok p ∧
      p.typeName.text = "array.array.integer" ∧
      ∀ q, Property.ofJson (some b) (.object [("items", .string "array.integer"),
        ("type", .string "array.array.integer")]) ≠ .ok q := by
  refine ⟨_, _, rfl, rfl, rfl, fun q h => ?_⟩
  cases h

end SpelledOut

end Property

end Capability
