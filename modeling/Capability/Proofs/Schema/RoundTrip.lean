import Capability.Proofs.Schema.Outline
import Capability.Proofs.Schema.TypeNames

/-!
# Reading back a written type

A type reads back if its written form is read, over the same base, as a type with the same limits, values and types
inside (`Property.ReadsBack`); what is lost is only where the attributes came from.

* `RestsOn.readsBack`: a type that rests on a base reads back, if its written form begins as the base, the types
  inside that are written read back, and the values that are written are still values of the type.
-/

namespace Capability

open Property

/-! ## Written forms -/

theorem Property.membersToJson_eq_mapValues (form : Form) (properties : Fields Property) :
    membersToJson form properties = Fields.mapValues (Property.toJson form) properties := by
  induction properties with
  | nil => rfl
  | cons m rest ih =>
    rw [membersToJson, ih]
    rfl

theorem Property.toJson_eq (form : Form) (p : Property) :
    p.toJson form = p.write form p.typeName (p.shape.map (Property.toJson form)) := by
  obtain ⟨shape, allowed, default, required, derived⟩ := p
  cases shape with
  | object type =>
    obtain ⟨⟨properties, isOpen⟩, inherited⟩ := type
    rw [Property.toJson, membersToJson_eq_mapValues]
    rfl
  | array items => cases items <;> rfl
  | _ => rfl

namespace Property

/-- What a definition begins with, before any attribute is read. -/
def untouched (base : Option Property) (kind : Kind) : Property :=
  match base with
  | none => .ofTypeName (.plain kind)
  | some c => c.taken

section Untouched

variable {base : Option Property} {p : Property}

theorem RestsOn.shape_from (h : RestsOn base p) : p.shape.From (untouched base p.kind).shape := by
  cases h with
  | intro shape =>
    cases base with
    | none => exact shape
    | some c => exact shape.map_inherit

theorem RestsOn.allowed_from (h : RestsOn base p) : Attribute.From p.allowed (untouched base p.kind).allowed := by
  cases h with
  | intro _ allowed =>
    cases base with
    | none => exact allowed
    | some c => exact Attribute.From.map_inherit allowed

theorem RestsOn.default_from (h : RestsOn base p) : Attribute.From p.default (untouched base p.kind).default := by
  cases h with
  | intro _ _ default =>
    cases base with
    | none => exact default
    | some c => exact Attribute.From.map_inherit default

theorem RestsOn.required_from (h : RestsOn base p) :
    Attribute.From (some p.required) (some (untouched base p.kind).required) := by
  cases h with
  | intro _ _ _ required =>
    cases base with
    | none => exact required
    | some c => exact Attribute.From.map_inherit required

end Untouched

/-- The form is read, over the same base, as a type that is the same but for where the attributes came from. -/
def ReadsBack (form : Form) (base : Option Property) (p : Property) : Prop :=
  ∃ q, Property.ofJson base (p.toJson form) = .ok q ∧ q.bare = p.bare

/-! ## Shapes with the same limits -/

theorem checkShape_of_shape_eq {p q : Property} (h : p.shape = q.shape) : p.checkShape = q.checkShape := by
  rw [checkShape, checkShape, h]

theorem checkShape_bare (p : Property) : p.bare.checkShape = p.checkShape := by
  obtain ⟨shape, _, _, _, _⟩ := p
  rw [bare_eq]
  cases shape with
  | integer range => exact Bounds.checkLimits_inherit range
  | number range => exact Bounds.checkLimits_inherit range
  | string lengths => exact Length.checkLimits_inherit lengths
  | array items => cases items <;> rfl
  | _ => rfl

section SameShape

variable {p q : Property}

theorem bare_shape_eq (h : (p.shape.map bare).inherit = (q.shape.map bare).inherit) : p.bare.shape = q.bare.shape := by
  rw [bare_eq, bare_eq]
  exact h

theorem checkShape_congr (h : (p.shape.map bare).inherit = (q.shape.map bare).inherit) :
    p.checkShape = q.checkShape := by
  rw [← checkShape_bare p, checkShape_of_shape_eq (bare_shape_eq h), checkShape_bare]

theorem convert_shape_congr (h : (p.shape.map bare).inherit = (q.shape.map bare).inherit) :
    p.shape.convert = q.shape.convert := by
  rw [← Shape.convert_map_bare fun r _ => convert_bare r, ← Shape.convert_inherit, h, Shape.convert_inherit,
    Shape.convert_map_bare fun r _ => convert_bare r]

theorem convert_congr (hs : (p.shape.map bare).inherit = (q.shape.map bare).inherit)
    (ha : p.allowed.map Attribute.inherit = q.allowed.map Attribute.inherit) : p.convert = q.convert := by
  funext json
  rw [convert_eq, convert_eq, convert_shape_congr hs, ← checkAllowed_inherit p.allowed, ha, checkAllowed_inherit]

end SameShape

end Property

/-! ## Values -/

section Values

variable {form : Form}

/-- The allowed values are read again, if they are still values of the shape. -/
theorem Property.readAllowed_entry {p : Property} {allowed? : Option (Attribute (List Value))}
    (h : ∀ a, allowed? = some a → a.Written form → a.value ≠ [] ∧ ∀ v ∈ a.value, p.shape.convert v.toJson = .ok v) :
    p.readAllowed (Attribute.entry form allowedToJson allowed?) =
      .ok { p with allowed := Attribute.restore form allowed? p.allowed } := by
  unfold Attribute.entry Attribute.restore
  cases allowed? with
  | none => cases p; rfl
  | some a =>
    rw [Option.bind_some]
    by_cases hw : a.Written form
    · obtain ⟨hne, hv⟩ := h a rfl hw
      have hlist : (a.value.map Value.toJson).mapM ({ p with allowed := none } : Property).convert = .ok a.value := by
        refine Fault.mapM_map_ok_iff.2 fun v hm => ?_
        exact convert_ok_iff.2 ⟨hv v hm, fun _ ha => nomatch ha⟩
      rw [Attribute.written?_of_written hw]
      cases hl : a.value with
      | nil => exact absurd hl hne
      | cons v vs =>
        rw [hl] at hlist
        exact Fault.bind_ok_iff.2 ⟨v :: vs, Fault.mapError_ok_iff.2 hlist, rfl⟩
    · rw [Attribute.written?_of_not_written hw]
      cases p
      rfl

/-- The default is read again, if it is still a value of the type. -/
theorem Property.readDefault_entry {p : Property} {default? : Option (Attribute Value)}
    (h : ∀ a, default? = some a → a.Written form → p.Accepts a.value) :
    p.readDefault (Attribute.entry form Value.toJson default?) =
      .ok { p with default := Attribute.restore form default? p.default } := by
  unfold Attribute.entry Attribute.restore
  cases default? with
  | none => cases p; rfl
  | some a =>
    rw [Option.bind_some]
    by_cases hw : a.Written form
    · rw [Attribute.written?_of_written hw]
      exact Fault.bind_ok_iff.2 ⟨a.value, Fault.mapError_ok_iff.2 (h a rfl hw), rfl⟩
    · rw [Attribute.written?_of_not_written hw]
      cases p
      rfl

end Values

/-! ## Whole types -/

section Whole

variable {form : Form} {base : Option Property} {p : Property}

/-- The flag that a form writes for `required`. -/
def Property.requiredEntry (form : Form) (p : Property) : Option Bool :=
  match form with
  | .full => if p.required.value then some true else none
  | .minimal => if p.required.inherited then none else some p.required.value

theorem Property.requiredEntry_restores {required : Attribute Bool}
    (h : Attribute.From (some p.required) (some required))
    (hfull : form = .full → required.value = false) :
    (((p.requiredEntry form).map Attribute.own).getD required).inherit = p.required.inherit := by
  unfold requiredEntry
  cases form with
  | full =>
    have hfalse := hfull rfl
    cases hv : p.required.value with
    | true => exact congrArg (Attribute.mk · true) hv.symm
    | false => exact congrArg (Attribute.mk · true) (hfalse.trans hv.symm)
  | minimal =>
    cases hi : p.required.inherited with
    | false => rfl
    | true =>
      have hown : Attribute.isOwn (some p.required) = false := by simp [Attribute.isOwn, hi]
      exact (Option.some.inj (h.inherit_eq hown)).symm

theorem Property.required_outline (form : Form) (p : Property) (shape : Shape Json) :
    (p.outline form shape).required = (p.requiredEntry form).map Json.bool := by
  cases form with
  | full => cases hv : p.required.value <;> simp [outline, requiredEntry, hv]
  | minimal => cases hi : p.required.inherited <;> simp [outline, requiredEntry, hi]

/-- The attributes of the written form, with or without a name of the type. -/
def Property.written (form : Form) (p : Property) (type? : Option Json) : Fields Json :=
  ({ p.outline form (p.shape.map (Property.toJson form)) with type := type? } : Outline).fields

/-- **Reading the attributes of the written form restores everything but the values.** -/
theorem Property.RestsOn.exists_readAll (hrests : RestsOn base p) (hfull : form = .full → base = none)
    (hclosed : ∀ type, p.shape = .object type → type.Written form → type.value.isOpen = false →
      (base.bind object?).any (·.isOpen) = false)
    (hitems : ∀ a, p.shape = .array (some a) → a.Written form → a.value.ReadsBack form (base.bind items?))
    (hmembers : ∀ type, p.shape = .object type → type.Written form → ∀ name q, (name, q) ∈ type.value.properties →
      q.ReadsBack form ((base.bind object?).bind (·.get? name))) (type? : Option Json) :
    ∃ d s required, Draft.readAll base { property := untouched base p.kind } (p.written form type?) = .ok d ∧
      d.allowed = Attribute.entry form allowedToJson p.allowed ∧
        d.default = Attribute.entry form Value.toJson p.default ∧
        d.settleOpen = { untouched base p.kind with shape := s, required := required } ∧
          (s.map bare).inherit = (p.shape.map bare).inherit ∧ required.inherit = p.required.inherit := by
  obtain ⟨s, isOpen, hopen, hlimits, hshape⟩ := Draft.restores_shape hrests.shape_from hclosed hitems hmembers
  have hflag := p.required_outline form (p.shape.map (Property.toJson form))
  have hread := Draft.readAll_outline (o := { p.outline form (p.shape.map (Property.toJson form)) with type := type? })
    hopen hlimits hflag
  refine ⟨_, s.settle isOpen, _, hread, rfl, rfl, Draft.settleOpen_eq _, hshape, ?_⟩
  refine requiredEntry_restores hrests.required_from fun h => ?_
  rw [hfull h]
  rfl

/-- The written form of the type is read by reading its attributes, beginning with what is there without them. -/
def Property.Begins (form : Form) (base : Option Property) (p : Property) : Prop :=
  ∃ type?, Property.ofJson base (p.toJson form) =
    Draft.readAll base { property := untouched base p.kind } (p.written form type?) >>= Draft.finish

/-- **A type reads back, if the types inside that are written do and the values that are written fit.** -/
theorem Property.RestsOn.readsBack (hrests : RestsOn base p) (hchecked : p.Checked) (hbegins : p.Begins form base)
    (hfull : form = .full → base = none) (htyped : p.shape ≠ .array none)
    (hallowed : ∀ a, p.allowed = some a → a.Written form →
      a.value ≠ [] ∧ ∀ v ∈ a.value, p.shape.convert v.toJson = .ok v)
    (hdefault : ∀ a, p.default = some a → a.Written form → p.Accepts a.value)
    (hclosed : ∀ type, p.shape = .object type → type.Written form → type.value.isOpen = false →
      (base.bind object?).any (·.isOpen) = false)
    (hitems : ∀ a, p.shape = .array (some a) → a.Written form → a.value.ReadsBack form (base.bind items?))
    (hmembers : ∀ type, p.shape = .object type → type.Written form → ∀ name q, (name, q) ∈ type.value.properties →
      q.ReadsBack form ((base.bind object?).bind (·.get? name))) : p.ReadsBack form base := by
  obtain ⟨type?, hread⟩ := hbegins
  obtain ⟨d, s, required, hall, hdAllowed, hdDefault, hsettle, hshape, hrequired⟩ :=
    hrests.exists_readAll hfull hclosed hitems hmembers type?
  -- the type once its limits are read, then its allowed values, then its default
  let p₀ : Property := untouched base p.kind
  let p₁ : Property := { p₀ with shape := s, required := required }
  let p₂ : Property := { p₁ with allowed := Attribute.restore form p.allowed p₀.allowed }
  let p₃ : Property := { p₂ with default := Attribute.restore form p.default p₀.default }
  have hcheck : p₁.checkShape = .ok () := (checkShape_congr (p := p₁) (q := p) hshape).trans (hchecked htyped)
  have hconvert : p₁.shape.convert = p.shape.convert := convert_shape_congr (p := p₁) (q := p) hshape
  have hlist : p₁.readAllowed (Attribute.entry form allowedToJson p.allowed) = .ok p₂ :=
    readAllowed_entry fun a ha hw => hconvert ▸ hallowed a ha hw
  have hlists : p₂.allowed.map Attribute.inherit = p.allowed.map Attribute.inherit :=
    Attribute.restore_inherit hrests.allowed_from
  have hvalue : p₂.readDefault (Attribute.entry form Value.toJson p.default) = .ok p₃ := by
    refine readDefault_entry fun a ha hw => ?_
    rw [Accepts, convert_congr (p := p₂) (q := p) hshape hlists]
    exact hdefault a ha hw
  have hvalues : p₃.default.map Attribute.inherit = p.default.map Attribute.inherit :=
    Attribute.restore_inherit hrests.default_from
  refine ⟨p₃, ?_, ?_⟩
  · rw [hread]
    refine Fault.bind_ok_iff.2 ⟨d, hall, ?_⟩
    rw [Draft.finish, hsettle, hdAllowed, hdDefault]
    exact Fault.bind_ok_iff.2 ⟨(), hcheck, Fault.bind_ok_iff.2 ⟨p₂, hlist, hvalue⟩⟩
  · rw [bare_eq, bare_eq, show p₃.allowed.map Attribute.inherit = p.allowed.map Attribute.inherit from hlists, hvalues,
      show p₃.required.inherit = p.required.inherit from hrequired]
    exact congrArg (fun s => Property.mk s _ _ _ _) hshape

/-! ## Types inside that are read -/

theorem Property.RestsOn.untouched_array (hrests : RestsOn base p) {items : Option (Attribute Property)}
    (hp : p.shape = .array items) : ∃ items₀, (untouched base p.kind).shape = .array items₀ := by
  have hfrom := hrests.shape_from
  rw [hp] at hfrom
  cases hu : (untouched base p.kind).shape <;> rw [hu] at hfrom <;> first | exact hfrom.elim | exact ⟨_, rfl⟩

theorem Property.RestsOn.untouched_object (hrests : RestsOn base p) {type : Attribute ObjectType}
    (hp : p.shape = .object type) : ∃ type₀, (untouched base p.kind).shape = .object type₀ := by
  have hfrom := hrests.shape_from
  rw [hp] at hfrom
  cases hu : (untouched base p.kind).shape <;> rw [hu] at hfrom <;> first | exact hfrom.elim | exact ⟨_, rfl⟩

/-- The written form of an array is read only if that of its items is. -/
theorem Property.RestsOn.ofJson_items_of_readAll (hrests : RestsOn base p) {a : Attribute Property}
    (hp : p.shape = .array (some a)) (hw : a.Written form) {type? : Option Json} {d : Draft}
    (h : Draft.readAll base { property := untouched base p.kind } (p.written form type?) = .ok d) :
    ∃ q, Property.ofJson (base.bind items?) (a.value.toJson form) = .ok q ∧
      d.settleOpen.shape = .array (some (.own q)) := by
  obtain ⟨items₀, hs⟩ := hrests.untouched_array hp
  have hrequired := p.required_outline form (p.shape.map (Property.toJson form))
  rw [hp] at hrequired
  let o : Outline := { p.outline form (Shape.map (Property.toJson form) (.array (some a))) with type := type? }
  have h : Draft.readAll base { property := untouched base p.kind } o.fields = .ok d := by
    rw [written, hp] at h
    exact h
  have hopen : Draft.readIf base { property := untouched base p.kind } ("additionalProperties", o.isOpen) =
      .ok { property := untouched base p.kind, isOpen := none } := rfl
  obtain ⟨q, hq⟩ : ∃ q, Property.ofJson (base.bind items?) (a.value.toJson form) = .ok q := by
    obtain ⟨d₁, d₂, hd, hlimits⟩ := Draft.limits_of_readAll hopen h
    rw [Outline.limits, List.foldlM_cons] at hlimits
    obtain ⟨d₃, hitems, _⟩ := Fault.bind_ok_iff.1 hlimits
    rw [show o.items = some (a.value.toJson form) from
      (Draft.items_outline form a).trans (by rw [Attribute.written?_of_written hw]; rfl)] at hitems
    exact Draft.ofJson_of_readOne_items (hd ▸ hs) hitems
  have hall := Draft.readAll_outline hopen (fun d hd => Draft.foldlM_limits_array hw (hd ▸ hs) hq) hrequired
  obtain rfl := Except.ok.inj (h.symm.trans hall)
  exact ⟨q, hq, congrArg Property.shape (Draft.settleOpen_eq _)⟩

/-- The written form of an object is read only if those of its members are. -/
theorem Property.RestsOn.ofMembers_of_readAll (hrests : RestsOn base p) {type : Attribute ObjectType}
    (hp : p.shape = .object type) (hw : type.Written form) {type? : Option Json} {d : Draft}
    (h : Draft.readAll base { property := untouched base p.kind } (p.written form type?) = .ok d) :
    ∃ properties isOpen, ObjectType.ofMembers (base.bind object?)
        (Fields.mapValues (Property.toJson form) type.value.properties) = .ok properties ∧
      d.settleOpen.shape = .object (.own ⟨properties, isOpen⟩) := by
  obtain ⟨type₀, hs⟩ := hrests.untouched_object hp
  have hrequired := p.required_outline form (p.shape.map (Property.toJson form))
  rw [hp] at hrequired
  let o : Outline := { p.outline form (Shape.map (Property.toJson form) (.object type)) with type := type? }
  have h : Draft.readAll base { property := untouched base p.kind } o.fields = .ok d := by
    rw [written, hp] at h
    exact h
  let isOpen := (type.written? form).bind fun o => if o.isOpen then some true else none
  have hopen : Draft.readIf base { property := untouched base p.kind } ("additionalProperties", o.isOpen) =
      .ok { property := untouched base p.kind, isOpen := isOpen } := by
    rw [show o.isOpen = isOpen.map Json.bool from Draft.isOpen_outline form type]
    exact Draft.readIf_isOpen hs isOpen
  obtain ⟨properties, hproperties⟩ : ∃ properties, ObjectType.ofMembers (base.bind object?)
      (Fields.mapValues (Property.toJson form) type.value.properties) = .ok properties := by
    obtain ⟨d₁, d₂, hd, hlimits⟩ := Draft.limits_of_readAll hopen h
    change List.foldlM (Draft.readIf base) d₁ [("properties", o.properties)] = _ at hlimits
    rw [List.foldlM_cons] at hlimits
    obtain ⟨d₃, hmembers, _⟩ := Fault.bind_ok_iff.1 hlimits
    rw [show o.properties = some (.object (Fields.mapValues (Property.toJson form) type.value.properties)) from
      (Draft.properties_outline form type).trans (by rw [Attribute.written?_of_written hw]; rfl)] at hmembers
    exact Draft.ofMembers_of_readOne_properties (hd ▸ hs) hmembers
  have hall := Draft.readAll_outline hopen (fun d hd => Draft.foldlM_limits_object hw (hd ▸ hs) hproperties) hrequired
  obtain rfl := Except.ok.inj (h.symm.trans hall)
  refine ⟨properties, isOpen.getD ((base.bind object?).any (·.isOpen)), hproperties, ?_⟩
  rw [Draft.settleOpen_eq]
  cases isOpen <;> rfl

end Whole

end Capability
