import Capability.Proofs.Schema.RoundTrip

/-!
# The minimal form of a type over its base

The minimal form leaves out what the base has, and the type where it shows. Read over the base it begins as the base
again: what is written names the kind of the type, shows it by its attributes or values, or leaves it to the base
(`Property.RestsOn.begins_minimal`).

* `Inference.ofFields?_of_hasOwn`: the limits and the types inside show the kind of the type.
* `Property.Place`: the types inside that the minimal form writes, each with what lies over it in the base.
* `Property.RestsOn.readsBack_minimal`: the minimal form reads back over the base, if it tells everything
  (`Property.Told`) and the values that definitions give themselves are values of their types.
-/

namespace Capability

open Property

/-! ## Names of types -/

theorem Property.kind_typeName (p : Property) : p.typeName.kind = p.kind := by
  obtain ⟨shape, _, _, _, _⟩ := p
  cases shape with
  | array items => cases items <;> rfl
  | _ => rfl

theorem Property.typeName_eq_arrayOf {p : Property} {name : TypeName} (h : p.typeName = .arrayOf name) :
    ∃ q, p.items? = some q ∧ q.typeName = name := by
  obtain ⟨shape, _, _, _, _⟩ := p
  cases shape with
  | array items =>
    cases items with
    | none => cases h
    | some items => exact ⟨items.value, rfl, TypeName.arrayOf.inj h⟩
  | _ => cases h

theorem Property.typeName_eq_plain {p : Property} (h : p.kind ≠ .array) : p.typeName = .plain p.kind := by
  obtain ⟨shape, _, _, _, _⟩ := p
  cases shape with
  | array items => exact absurd rfl h
  | _ => rfl

theorem Property.typeName_of_shape_eq {p q : Property} (h : p.shape = q.shape) : p.typeName = q.typeName := by
  obtain ⟨shape, _, _, _, _⟩ := p
  obtain ⟨_, _, _, _, _⟩ := q
  obtain rfl := h
  cases shape with
  | array items => cases items <;> rfl
  | _ => rfl

theorem Property.typeName_of_array_none {p : Property} (h : p.shape = .array none) : p.typeName = .plain .array := by
  obtain ⟨shape, _, _, _, _⟩ := p
  obtain rfl : shape = .array none := h
  rfl

theorem Property.typeName_ne_array {p : Property} (h : p.shape ≠ .array none) : p.typeName ≠ .plain .array := by
  intro he
  have hk : p.kind = .array := (kind_typeName p).symm.trans (congrArg TypeName.kind he)
  obtain ⟨items, hs⟩ := exists_array_of_kind hk
  cases items with
  | none => exact h hs
  | some items =>
    obtain ⟨_, _, _, _, _⟩ := p
    obtain rfl := hs
    cases he

/-- Over a base, a definition may name the kind of the base, or its whole type. -/
theorem Draft.start_over {c : Property} {name : TypeName} (hk : name.kind = c.kind)
    (hi : ∀ items, name = .arrayOf items → ∃ q, c.items? = some q ∧ q.typeName = items) :
    Draft.start name (some c) = .ok { property := untouched (some c) c.kind } := by
  have hover : (Property.ofTypeName name).over c = .ok c.taken := by
    have hk' : c.kind = (Property.ofTypeName name).kind := by
      rw [← hk]
      cases name with
      | plain kind => exact (Shape.kind_ofKind kind).symm
      | arrayOf items => rfl
    rw [Property.over, if_neg (not_not.2 hk')]
    cases name with
    | plain kind =>
      have hnone : (Property.ofTypeName (.plain kind)).items? = none := by cases kind <;> rfl
      rw [hnone]
      rfl
    | arrayOf items =>
      obtain ⟨q, hq, rfl⟩ := hi items rfl
      have hsome : (Property.ofTypeName (.arrayOf q.typeName)).items? = some (.ofTypeName q.typeName) := rfl
      rw [hsome, hq]
      exact if_neg (not_not.2 (typeName_ofTypeName q.typeName))
  exact Fault.bind_ok_iff.2 ⟨c.taken, hover, rfl⟩

theorem Draft.start_typeName (c : Property) :
    Draft.start c.typeName (some c) = .ok { property := untouched (some c) c.kind } :=
  start_over c.kind_typeName fun _ h => typeName_eq_arrayOf h

theorem Draft.start_plain {base : Option Property} {p : Property} (h : RestsOn base p) :
    Draft.start (.plain p.kind) base = .ok { property := untouched base p.kind } := by
  cases base with
  | none => rfl
  | some c =>
    have hk : c.kind = p.kind := h.ground_kind
    rw [← hk]
    exact start_over rfl fun _ he => by cases he

/-! ## Detecting the type -/

theorem Attribute.isOwn_iff {α : Type} {a? : Option (Attribute α)} : isOwn a? = true ↔ ∃ v, a? = some ⟨v, false⟩ := by
  cases a? with
  | none => simp [isOwn]
  | some a =>
    obtain ⟨v, inherited⟩ := a
    cases inherited <;> simp [isOwn]

theorem Attribute.own_of_written {α : Type} {a : Attribute α} (h : a.Written .minimal) : ∃ v, a = ⟨v, false⟩ := by
  obtain ⟨v, inherited⟩ := a
  rcases h with h | h
  · cases h
  · exact ⟨v, by rw [show inherited = false from h]⟩

theorem Attribute.isSome_entry {α : Type} (toJson : α → Json) (a? : Option (Attribute α)) :
    (entry .minimal toJson a?).isSome = isOwn a? := by
  cases a? with
  | none => rfl
  | some a =>
    obtain ⟨v, inherited⟩ := a
    cases inherited <;> rfl

theorem Attribute.any_entry {α : Type} {toJson : α → Json} {test : Json → Bool} {b : Bool}
    (h : ∀ v, test (toJson v) = b) (a? : Option (Attribute α)) :
    (entry .minimal toJson a?).any test = (b && isOwn a?) := by
  cases a? with
  | none => cases b <;> rfl
  | some a =>
    obtain ⟨v, inherited⟩ := a
    cases inherited with
    | true => cases b <;> rfl
    | false =>
      show test (toJson v) = (b && true)
      rw [h, Bool.and_true]

theorem Bounds.isSome_entries {α : Type} (toJson : α → Json) (b : Bounds α) :
    ((Attribute.entry .minimal toJson b.lower).isSome || (Attribute.entry .minimal toJson b.upper).isSome) =
      b.hasOwn := by
  rw [Attribute.isSome_entry, Attribute.isSome_entry, hasOwn]

theorem Bounds.any_entries {α : Type} {toJson : α → Json} {test : Json → Bool} {c : Bool}
    (h : ∀ v, test (toJson v) = c) (b : Bounds α) :
    ((Attribute.entry .minimal toJson b.lower).any test || (Attribute.entry .minimal toJson b.upper).any test) =
      (c && b.hasOwn) := by
  rw [Attribute.any_entry h, Attribute.any_entry h, hasOwn, Bool.and_or_distrib_left]

theorem Attribute.entry_eq_none {α : Type} {a? : Option (Attribute α)} (h : isOwn a? = false) (toJson : α → Json) :
    entry .minimal toJson a? = none := by
  rw [← Option.isNone_iff_eq_none, ← Option.not_isSome, isSome_entry, h]
  rfl

theorem Shape.hasOwn_map {σ τ : Type} (f : σ → τ) (s : Shape σ) : (s.map f).hasOwn = s.hasOwn := by
  cases s with
  | array items => cases items <;> rfl
  | _ => rfl

/-- A shape with nothing of its own writes nothing. -/
theorem Shape.outline_of_not_hasOwn {s : Shape Json} (h : s.hasOwn = false) : s.outline .minimal = {} := by
  cases s with
  | integer range =>
    obtain ⟨hl, hu⟩ := Bool.or_eq_false_iff.1 h
    rw [outline, Attribute.entry_eq_none hl, Attribute.entry_eq_none hu]
  | number range =>
    obtain ⟨hl, hu⟩ := Bool.or_eq_false_iff.1 h
    rw [outline, Attribute.entry_eq_none hl, Attribute.entry_eq_none hu]
  | boolean => rfl
  | string lengths =>
    obtain ⟨hl, hu⟩ := Bool.or_eq_false_iff.1 h
    rw [outline, Attribute.entry_eq_none hl, Attribute.entry_eq_none hu]
  | object type =>
    obtain ⟨o, inherited⟩ := type
    obtain rfl : inherited = true := by simpa [Shape.hasOwn] using h
    rfl
  | array items => rw [outline, Attribute.entry_eq_none h]

namespace Inference

theorem ofFields?_fields (base : Option Property) (o : Outline) :
    ofFields? base o.fields =
      if o.minimum.isSome || o.maximum.isSome then
        if base.any (·.kind == .number) || (o.minimum.any Json.isDouble || o.maximum.any Json.isDouble) then
          some (.plain .number)
        else some (.plain .integer)
      else if o.minLength.isSome || o.maxLength.isSome then some (.plain .string)
      else if o.properties.isSome then some (.plain .object)
      else if o.items.isSome then some (.plain .array)
      else
        match o.allowed, o.default with
        | some (.array values), _ => ofAllowed? base values
        | _, some json => ofValue? json
        | _, none => base.map (·.typeName) := by
  simp only [ofFields?, Fields.has, Outline.get?_fields]
  rfl

theorem ofValue?_of_ne_array {v : Value} (h : v.kind ≠ .array) : ofValue? v.toJson = some (.plain v.kind) := by
  cases v with
  | array list => exact absurd rfl h
  | _ => rfl

/-- An array shows its type through its first item, unless this is an array again. -/
theorem ofValue?_array {list : List Value} {name : TypeName} (h : ofValue? (Value.array list).toJson = some name) :
    ∃ v ∈ list, v.kind ≠ .array ∧ name = .arrayOf (.plain v.kind) := by
  cases list with
  | nil => cases h
  | cons v rest =>
    refine ⟨v, List.mem_cons_self, ?_⟩
    cases v with
    | array items => cases h
    | _ => exact ⟨Kind.noConfusion, (Option.some.inj h).symm⟩

section Detection

variable {base : Option Property} {p : Property}

/-- The limits and the types inside show the kind of the type. -/
theorem ofFields?_of_hasOwn (h : RestsOn base p) (ho : p.shape.hasOwn = true) :
    ofFields? base (p.written .minimal none) = some (.plain p.kind) := by
  have hkind : p.kind = p.shape.kind := rfl
  rw [written, ofFields?_fields]
  cases hs : p.shape with
  | integer range =>
    rw [hs] at ho hkind
    have hb : base.any (·.kind == .number) = false := by
      cases base with
      | none => rfl
      | some c =>
        have hk : c.kind = p.kind := h.ground_kind
        show (c.kind == .number) = false
        rw [hk, hkind]
        rfl
    have hd : ∀ n : Int64, Json.isDouble (Numeral.toJson n) = false := fun _ => rfl
    rw [hkind]
    refine (if_pos ?_).trans (if_neg ?_)
    · exact (Bounds.isSome_entries _ range).trans ho
    · rw [hb]
      exact ne_true_of_eq_false (Bounds.any_entries hd range)
  | number range =>
    rw [hs] at ho hkind
    have hd : ∀ x : Double, Json.isDouble (Numeral.toJson x) = true := fun _ => rfl
    rw [hkind]
    refine (if_pos ?_).trans (if_pos ?_)
    · exact (Bounds.isSome_entries _ range).trans ho
    · exact Bool.or_eq_true_iff.2 (.inr ((Bounds.any_entries hd range).trans ho))
  | boolean =>
    rw [hs] at ho
    cases ho
  | string lengths =>
    rw [hs] at ho hkind
    rw [hkind]
    refine (if_neg Bool.false_ne_true).trans (if_pos ?_)
    exact (Bounds.isSome_entries _ lengths).trans ho
  | object type =>
    obtain ⟨o, inherited⟩ := type
    rw [hs] at ho hkind
    obtain rfl : inherited = false := by simpa [Shape.hasOwn] using ho
    rw [hkind]
    exact (if_neg Bool.false_ne_true).trans ((if_neg Bool.false_ne_true).trans (if_pos rfl))
  | array items =>
    rw [hs] at ho hkind
    rw [hkind]
    refine (if_neg Bool.false_ne_true).trans ((if_neg Bool.false_ne_true).trans ((if_neg Bool.false_ne_true).trans
      (if_pos ?_)))
    show (Attribute.entry .minimal id (items.map (Attribute.map (Property.toJson .minimal)))).isSome = true
    rw [Attribute.isSome_entry]
    cases items with
    | none => cases ho
    | some a => exact ho

/-- Where there are none, the values do. -/
theorem ofFields?_of_not_hasOwn (ho : p.shape.hasOwn = false) :
    ofFields? base (p.written .minimal none) =
      match Attribute.entry .minimal allowedToJson p.allowed, Attribute.entry .minimal Value.toJson p.default with
      | some (.array values), _ => ofAllowed? base values
      | _, some json => ofValue? json
      | _, none => base.map (·.typeName) := by
  have hs : (p.shape.map (Property.toJson .minimal)).outline .minimal = {} :=
    Shape.outline_of_not_hasOwn ((Shape.hasOwn_map _ _).trans ho)
  rw [written, ofFields?_fields, outline, hs]
  rfl

end Detection

end Inference

/-! ## Beginning with the base -/

section Begins

variable {base : Option Property} {p : Property}

theorem Property.written_of_not_hasOwn (ho : p.shape.hasOwn = false) (type? : Option Json) :
    p.written .minimal type? = Fields.present [("default", Attribute.entry .minimal Value.toJson p.default),
      ("enum", Attribute.entry .minimal allowedToJson p.allowed),
      ("required", (p.requiredEntry .minimal).map Json.bool), ("type", type?)] := by
  have hs : (p.shape.map (Property.toJson .minimal)).outline .minimal = {} :=
    Shape.outline_of_not_hasOwn ((Shape.hasOwn_map _ _).trans ho)
  have hr := p.required_outline .minimal (p.shape.map (Property.toJson .minimal))
  rw [← hr, written, outline, hs]
  rfl

theorem Property.written_none (form : Form) (p : Property) :
    p.written form none = (p.outline form (p.shape.map (Property.toJson form))).fields := by
  have ht : (p.outline form (p.shape.map (Property.toJson form))).type = none := by
    cases hs : p.shape <;> rfl
  rw [written, ← ht]

theorem Property.toJson_minimal (p : Property) : p.toJson .minimal =
    if p.hasOwn = false then if p.derived then .object [] else .string p.typeName.text
    else if p.hasOwnAllowedOnly then allowedToJson (p.allowed?.getD [])
    else if p.derived || (Inference.ofFields? none (p.written .minimal none)).map (·.kind) == some p.kind then
      .object (p.written .minimal none)
    else .object (p.written .minimal (some (.string p.kind.text))) := by
  rw [toJson_eq, written_none]
  cases ho : p.hasOwn with
  | false => simp [write, ho]
  | true =>
    rw [if_neg (by simp)]
    show (if !p.hasOwn then _ else _) = _
    rw [ho]
    rfl

theorem Property.RestsOn.exists_base (h : RestsOn base p) (hd : p.derived = true) : ∃ c, base = some c := by
  cases h with
  | intro _ _ _ _ derived => exact Option.ne_none_iff_exists'.1 (derived hd)

/-- An array that does not rest on a base has the type of its items from its own definition. -/
theorem Property.RestsOn.kind_ne_array (h : RestsOn base p) (htyped : p.shape ≠ .array none) (hd : p.derived = false)
    (ho : p.shape.hasOwn = false) : p.kind ≠ .array := by
  intro hk
  cases h with
  | intro _ _ _ _ _ plain =>
    cases hi : p.items? with
    | none => exact htyped (array_none_of_items? hk hi)
    | some q =>
      obtain ⟨inherited, hs⟩ := items?_eq_some_iff.1 hi
      have hown : inherited = false := plain hd _ hs
      rw [hs, hown] at ho
      cases ho

/-- Without a base and with nothing of its own a type is named by its kind. -/
theorem Property.RestsOn.typeName_eq_kind (h : RestsOn base p) (hd : p.derived = false)
    (ho : p.shape.hasOwn = false) : p.typeName = .plain p.kind := by
  by_cases hs : p.shape = .array none
  · rw [typeName_of_array_none hs, Property.kind, hs]
    rfl
  · exact typeName_eq_plain (h.kind_ne_array hs hd ho)

/-- Nothing of its own: the base as it is, or the name of the kind. -/
theorem Property.RestsOn.begins_untouched (h : RestsOn base p) (ho : p.hasOwn = false) : p.Begins .minimal base := by
  obtain ⟨⟨⟨hs, ha⟩, hd⟩, hr⟩ : ((p.shape.hasOwn = false ∧ Attribute.isOwn p.allowed = false) ∧
      Attribute.isOwn p.default = false) ∧ p.required.inherited = true := by
    simpa [hasOwn, and_assoc] using ho
  have hwritten : p.written .minimal none = [] := by
    rw [written_of_not_hasOwn hs, Attribute.entry_eq_none ha, Attribute.entry_eq_none hd]
    simp [requiredEntry, hr, Fields.present]
  refine ⟨none, ?_⟩
  rw [toJson_minimal, if_pos ho, hwritten, Draft.readAll]
  cases hder : p.derived with
  | true =>
    obtain ⟨c, rfl⟩ := h.exists_base hder
    have hk : c.kind = p.kind := h.ground_kind
    have htype : Definition.typeOf (some c) [] = .ok c.typeName := rfl
    rw [if_pos rfl, Property.ofJson, htype, ← hk]
    show (Draft.start c.typeName (some c) >>= fun d => Draft.readAll (some c) d [] >>= Draft.finish) = _
    rw [Draft.start_typeName]
    show Draft.readAll (some c) _ [] >>= Draft.finish = _
    rw [Draft.readAll]
  | false =>
    have htext : TypeName.ofText p.typeName.text = .ok (.plain p.kind) := by
      rw [h.typeName_eq_kind hder hs]
      exact TypeName.ofText_text (.plain p.kind)
    rw [if_neg Bool.false_ne_true, Property.ofJson, htext]
    exact congrArg (· >>= Draft.finish) (Draft.start_plain h)

/-- A list of allowed values shows the type of the base, or else the kind of its values. -/
theorem Property.RestsOn.start_ofAllowed (h : RestsOn base p) (hs : p.shape.hasOwn = false) {list : List Value}
    (ha : p.allowed = some ⟨list, false⟩) : ∃ name, Inference.ofAllowed? base (list.map Value.toJson) = some name ∧
      Draft.start name base = .ok { property := untouched base p.kind } := by
  cases base with
  | some c =>
    have hk : c.kind = p.kind := h.ground_kind
    exact ⟨c.typeName, rfl, hk ▸ Draft.start_typeName c⟩
  | none =>
    have hd : p.derived = false := by
      cases hder : p.derived with
      | false => rfl
      | true =>
        obtain ⟨_, he⟩ := h.exists_base hder
        cases he
    have hown : list ≠ [] ∧ ∀ v ∈ list, ∃ json, p.shape.convert json = .ok v := h.allowed_own ha
    cases list with
    | nil => exact absurd rfl hown.1
    | cons v rest =>
      obtain ⟨json, hjson⟩ := hown.2 v List.mem_cons_self
      have hv : v.kind = p.kind := Shape.kind_of_convert hjson
      have hk := h.kind_ne_array (Shape.ne_array_none_of_convert hjson) hd hs
      refine ⟨.plain p.kind, ?_, Draft.start_plain h⟩
      show Inference.ofValue? v.toJson = _
      rw [Inference.ofValue?_of_ne_array (hv ▸ hk), hv]

theorem Property.RestsOn.kind_of_default (h : RestsOn base p) {v : Value} (hd : p.default = some ⟨v, false⟩) :
    v.kind = p.kind := by
  obtain ⟨json, hjson⟩ := h.default_own hd
  exact kind_of_convert hjson

theorem Property.RestsOn.typed_of_default (h : RestsOn base p) {v : Value} (hd : p.default = some ⟨v, false⟩) :
    p.shape ≠ .array none := by
  obtain ⟨json, hjson⟩ := h.default_own hd
  exact Shape.ne_array_none_of_convert (convert_ok_iff.1 hjson).1

/-- A default shows the type of the base, if it shows a type at all. -/
theorem Property.RestsOn.start_ofValue (h : RestsOn base p) (hs : p.shape.hasOwn = false) {v : Value}
    (hd : p.default = some ⟨v, false⟩) {name : TypeName} (hname : Inference.ofValue? v.toJson = some name) :
    Draft.start name base = .ok { property := untouched base p.kind } := by
  obtain ⟨json, hjson⟩ := h.default_own hd
  have htyped : p.shape ≠ .array none := h.typed_of_default hd
  have hv : v.kind = p.kind := h.kind_of_default hd
  by_cases hk : p.kind = .array
  · obtain ⟨list, rfl⟩ : ∃ list, v = .array list := by
      rw [hk] at hv
      cases v <;> cases hv
      exact ⟨_, rfl⟩
    obtain ⟨x, hx, hxk, rfl⟩ := Inference.ofValue?_array hname
    cases hder : p.derived with
    | false => exact absurd hk (h.kind_ne_array htyped hder hs)
    | true =>
      obtain ⟨c, rfl⟩ := h.exists_base hder
      have hck : c.kind = p.kind := h.ground_kind
      -- the items have the type that the base gives them
      have hitems : p.items? = c.items? := by
        cases h with
        | intro shape =>
          rcases shape.items?_eq with ⟨q, hq⟩ | he
          · rw [hq] at hs
            cases hs
          · exact he
      cases hi : p.items? with
      | none => exact absurd (array_none_of_items? hk hi) htyped
      | some q =>
        obtain ⟨json', hjson'⟩ := convert_item hi hjson hx
        have hxq : x.kind = q.kind := kind_of_convert hjson'
        rw [← hck]
        refine Draft.start_over (hk.symm.trans hck.symm) fun items he => ⟨q, hitems.symm.trans hi, ?_⟩
        rw [typeName_eq_plain (hxq ▸ hxk), ← hxq]
        exact TypeName.arrayOf.inj he
  · rw [Inference.ofValue?_of_ne_array (hv ▸ hk), hv] at hname
    obtain rfl := Option.some.inj hname
    exact Draft.start_plain h

/-- The attributes that are written show the type of the base, or else its kind. -/
theorem Property.RestsOn.start_ofFields (h : RestsOn base p)
    (hshows : p.derived = true → p.shape.hasOwn = false → Attribute.isOwn p.allowed = false →
      ∀ v, p.default = some ⟨v, false⟩ → (Inference.ofValue? v.toJson).isSome = true)
    (hdetect : base = none →
      (Inference.ofFields? none (p.written .minimal none)).map (·.kind) = some p.kind) :
    ∃ name, Inference.ofFields? base (p.written .minimal none) = some name ∧
      Draft.start name base = .ok { property := untouched base p.kind } := by
  cases hs : p.shape.hasOwn with
  | true => exact ⟨.plain p.kind, Inference.ofFields?_of_hasOwn h hs, Draft.start_plain h⟩
  | false =>
    rw [Inference.ofFields?_of_not_hasOwn hs]
    cases ha : Attribute.isOwn p.allowed with
    | true =>
      obtain ⟨list, hlist⟩ := Attribute.isOwn_iff.1 ha
      obtain ⟨name, hname, hstart⟩ := h.start_ofAllowed hs hlist
      refine ⟨name, ?_, hstart⟩
      rw [hlist]
      exact hname
    | false =>
      rw [Attribute.entry_eq_none ha]
      cases hd : Attribute.isOwn p.default with
      | true =>
        obtain ⟨v, hv⟩ := Attribute.isOwn_iff.1 hd
        have hsome : (Inference.ofValue? v.toJson).isSome = true := by
          cases hder : p.derived with
          | true => exact hshows hder hs ha v hv
          | false =>
            have hk : v.kind ≠ .array := h.kind_of_default hv ▸ h.kind_ne_array (h.typed_of_default hv) hder hs
            rw [Inference.ofValue?_of_ne_array hk]
            rfl
        obtain ⟨name, hname⟩ := Option.isSome_iff_exists.1 hsome
        refine ⟨name, ?_, h.start_ofValue hs hv hname⟩
        rw [hv]
        exact hname
      | false =>
        rw [Attribute.entry_eq_none hd]
        cases base with
        | none =>
          have hnone := hdetect rfl
          rw [Inference.ofFields?_of_not_hasOwn hs, Attribute.entry_eq_none ha, Attribute.entry_eq_none hd] at hnone
          cases hnone
        | some c =>
          have hk : c.kind = p.kind := h.ground_kind
          exact ⟨c.typeName, rfl, hk ▸ Draft.start_typeName c⟩

/-- A bare list of allowed values begins with the base. -/
theorem Property.RestsOn.begins_allowedOnly (h : RestsOn base p) (ho : p.hasOwnAllowedOnly = true) :
    p.Begins .minimal base := by
  obtain ⟨⟨⟨ha, hs⟩, hd⟩, hr⟩ : ((Attribute.isOwn p.allowed = true ∧ p.shape.hasOwn = false) ∧
      Attribute.isOwn p.default = false) ∧ p.required.inherited = true := by
    simpa [hasOwnAllowedOnly, and_assoc] using ho
  obtain ⟨list, hlist⟩ := Attribute.isOwn_iff.1 ha
  have hown : p.hasOwn = true := by simp [hasOwn, ha]
  have hjson : p.toJson .minimal = .array (list.map Value.toJson) := by
    rw [toJson_minimal, if_neg (by simp [hown]), if_pos ho, allowed?, hlist]
    rfl
  have hwritten : p.written .minimal none = [("enum", .array (list.map Value.toJson))] := by
    rw [written_of_not_hasOwn hs, Attribute.entry_eq_none hd, hlist]
    simp [requiredEntry, hr, Fields.present, Attribute.entry, Attribute.written?, allowedToJson]
  obtain ⟨name, hname, hstart⟩ := h.start_ofAllowed hs hlist
  refine ⟨none, ?_⟩
  rw [hjson, hwritten, Draft.readAll_cons, Draft.readOne_of_ne _ (by decide) (by decide), Property.ofJson, hname]
  show (Draft.start name base >>= fun d => ({ d with allowed := some (.array _) } : Draft).finish) = _
  rw [hstart]
  show Draft.finish _ = Draft.readAll base _ [] >>= Draft.finish
  rw [Draft.readAll]
  rfl

/-- **The minimal form begins with the base**, if what is written shows the type. -/
theorem Property.RestsOn.begins_minimal (h : RestsOn base p)
    (hshows : p.derived = true → p.shape.hasOwn = false → Attribute.isOwn p.allowed = false →
      ∀ v, p.default = some ⟨v, false⟩ → (Inference.ofValue? v.toJson).isSome = true) : p.Begins .minimal base := by
  by_cases ho : p.hasOwn = false
  · exact h.begins_untouched ho
  · by_cases hallowed : p.hasOwnAllowedOnly = true
    · exact h.begins_allowedOnly hallowed
    · by_cases hd :
          (p.derived || (Inference.ofFields? none (p.written .minimal none)).map (·.kind) == some p.kind) = true
      · have hdetect : base = none →
            (Inference.ofFields? none (p.written .minimal none)).map (·.kind) = some p.kind := by
          rintro rfl
          rcases Bool.or_eq_true_iff.1 hd with hder | hkind
          · obtain ⟨_, he⟩ := h.exists_base hder
            cases he
          · exact beq_iff_eq.1 hkind
        obtain ⟨name, hname, hstart⟩ := h.start_ofFields hshows hdetect
        have htype : Definition.typeOf base (p.written .minimal none) = .ok name := by
          have hnone : Fields.get? (p.written .minimal none) "type" = none := Outline.get?_fields _ _
          rw [Definition.typeOf, hnone, hname]
        refine ⟨none, ?_⟩
        rw [toJson_minimal, if_neg ho, if_neg hallowed, if_pos hd, Property.ofJson, htype]
        show (Draft.start name base >>= fun d => Draft.readAll base d _ >>= Draft.finish) = _
        rw [hstart]
        rfl
      · -- what is written does not show the kind, so the kind is named
        have htype : Definition.typeOf base (p.written .minimal (some (.string p.kind.text))) =
            .ok (.plain p.kind) := by
          have hsome : Fields.get? (p.written .minimal (some (.string p.kind.text))) "type" =
              some (.string p.kind.text) := Outline.get?_fields _ _
          rw [Definition.typeOf, hsome]
          exact TypeName.ofText_text (.plain p.kind)
        refine ⟨some (.string p.kind.text), ?_⟩
        rw [toJson_minimal, if_neg ho, if_neg hallowed, if_neg hd, Property.ofJson, htype]
        show (Draft.start (.plain p.kind) base >>= fun d => Draft.readAll base d _ >>= Draft.finish) = _
        rw [Draft.start_plain h]
        rfl

end Begins

/-! ## Places that the minimal form reaches -/

namespace Property

/-- A type and what lies over it in the base, found inside a type and its base by going through the types of items and
members that the definition gives itself. -/
inductive Place : Option Property → Property → Option Property → Property → Prop
  | here {base : Option Property} {p : Property} : Place base p base p
  | items {base b : Option Property} {p q r : Property} (h : p.shape = .array (some ⟨q, false⟩))
      (hr : Place (base.bind items?) q b r) : Place base p b r
  | member {base b : Option Property} {p q r : Property} {o : ObjectType} {name : String}
      (h : p.shape = .object ⟨o, false⟩) (hm : (name, q) ∈ o.properties)
      (hr : Place ((base.bind object?).bind (·.get? name)) q b r) : Place base p b r

/-- The definition gives the value itself, as the default or among the allowed values. -/
def Gives (p : Property) (v : Value) : Prop :=
  p.default = some ⟨v, false⟩ ∨ ∃ list, p.allowed = some ⟨list, false⟩ ∧ v ∈ list

/-- What the minimal form cannot tell from what lies below it: whether a closed object type lies over an open one,
whether an array has a type for its items, and the type of an array whose default does not show it. -/
structure Told (base : Option Property) (p : Property) : Prop where
  typed : p.shape ≠ .array none
  closed : ∀ o, p.shape = .object ⟨o, false⟩ → o.isOpen = false → (base.bind object?).any (·.isOpen) = false
  shown : p.derived = true → p.shape.hasOwn = false → Attribute.isOwn p.allowed = false →
    ∀ v, p.default = some ⟨v, false⟩ → (Inference.ofValue? v.toJson).isSome = true

/-- **The minimal form of a type reads back over its base**, if it tells everything and the values that definitions give
themselves are values of their types. -/
theorem RestsOn.readsBack_minimal {base : Option Property} {p : Property} (h : RestsOn base p) (hw : p.WellFormed)
    (htold : ∀ b r, Place base p b r → r.Told b)
    (hvalues : ∀ b r v, Place base p b r → r.Gives v → r.Accepts v) : p.ReadsBack .minimal base := by
  induction p using byChildren generalizing base with
  | step p ih =>
    obtain ⟨htyped, hclosed, hshown⟩ := htold base p .here
    have hbegins := h.begins_minimal hshown
    have hchecked : p.Checked := (hw p (.refl p)).2
    refine h.readsBack hchecked hbegins (fun he => by cases he) htyped (fun a ha hwr => ?_) (fun a ha hwr => ?_)
      (fun type ht hwr => ?_) (fun a ha hwr => ?_) fun type ht hwr name q hq => ?_
    · obtain ⟨list, rfl⟩ := Attribute.own_of_written hwr
      exact ⟨(h.allowed_own ha).1, fun v hv => (hvalues base p v .here (.inr ⟨list, ha, hv⟩)).shape⟩
    · obtain ⟨v, rfl⟩ := Attribute.own_of_written hwr
      exact hvalues base p v .here (.inl ha)
    · obtain ⟨o, rfl⟩ := Attribute.own_of_written hwr
      exact hclosed o ht
    · obtain ⟨q, rfl⟩ := Attribute.own_of_written hwr
      have hq : Child q p := .items (items?_eq_some_iff.2 ⟨false, ha⟩)
      exact ih q hq (h.items_own ha) (hw.child hq) (fun b r hr => htold b r (.items ha hr)) fun b r v hr =>
        hvalues b r v (.items ha hr)
    · obtain ⟨o, rfl⟩ := Attribute.own_of_written hwr
      have hc : Child q p := .member (object?_eq_some_iff.2 ⟨false, ht⟩) hq
      exact ih q hc (h.member_own ht hq) (hw.child hc) (fun b r hr => htold b r (.member ht hq hr)) fun b r v hr =>
        hvalues b r v (.member ht hq hr)

end Property

end Capability
