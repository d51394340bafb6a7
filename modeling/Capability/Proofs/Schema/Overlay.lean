import Capability.Proofs.Schema.Outline

/-!
# Reading attributes over others

`Overlay` says of one attribute that it is what is given, as it is read, or else what it was before. Of the attributes
that are particular to a kind `Shape.Overlays` says so, and of a definition under way `Draft.Overlays`.

* `Overlay.trans`: of what is given one after the other, the last counts.
* `Draft.overlays_readOne`: reading one attribute overlays this one attribute, whatever was read before.
* `Draft.overlays_readAll`: so reading the attributes of a definition overlays those that it has. The induction is on
  the definition.
-/

namespace Capability

open Property

/-! ## One attribute -/

/-- What is given is read as the new thing. Where nothing is given the old one stays. -/
structure Overlay {α : Type} (Reads : Json → α → Prop) (given : Option Json) (old new : α) : Prop where
  read : ∀ json, given = some json → Reads json new
  kept : given = none → new = old

namespace Overlay

variable {α : Type} {Reads : Json → α → Prop} {old mid new : α}

theorem refl (a : α) : Overlay Reads none a a :=
  ⟨nofun, fun _ => rfl⟩

/-- The attribute has the key that is given. -/
theorem this {key : String} {json : Json} (h : Reads json new) :
    Overlay Reads (Fields.get? [(key, json)] key) old new := by
  rw [Fields.get?_cons, if_pos rfl]
  exact ⟨fun _ he => Option.some.inj he ▸ h, nofun⟩

/-- The attribute has another key than the one that is given. -/
theorem other {key other : String} (h : other ≠ key) (json : Json) (a : α) :
    Overlay Reads (Fields.get? [(key, json)] other) a a := by
  rw [Fields.get?_cons, if_neg h]
  exact refl a

/-- Of two that are given in turn the second counts. -/
theorem trans {first second : Option Json} (h : Overlay Reads first old mid) (h' : Overlay Reads second mid new) :
    Overlay Reads (second.or first) old new := by
  cases second with
  | some json => exact ⟨h'.read, nofun⟩
  | none =>
    obtain rfl := h'.kept rfl
    exact h

end Overlay

/-- The definition gives the attribute itself, as what its JSON value is read as. -/
def Attribute.Given {α : Type} (Reads : Json → α → Prop) (json : Json) (a? : Option (Attribute α)) : Prop :=
  ∃ v, Reads json v ∧ a? = some (.own v)

/-- The definition gives the attribute itself, as a truth value. -/
def Attribute.GivenBool (json : Json) (a : Attribute Bool) : Prop :=
  ∃ b, json = .bool b ∧ a = .own b

/-- An attribute over one that is taken over is the definition's own exactly if it is given. -/
theorem Overlay.isOwn_eq {α : Type} {Reads : Json → α → Prop} {given : Option Json} {old new : Option (Attribute α)}
    (h : Overlay (Attribute.Given Reads) given (old.map .inherit) new) : Attribute.isOwn new = given.isSome := by
  cases given with
  | some json =>
    obtain ⟨v, _, rfl⟩ := h.read json rfl
    rfl
  | none =>
    rw [h.kept rfl]
    exact Attribute.isOwn_map_inherit old

/-! ## What is particular to a kind -/

/-- Both limits over those of other bounds. -/
structure Bounds.Overlays {α : Type} (Reads : Json → α → Prop) (low high : Option Json) (old new : Bounds α) :
    Prop where
  lower : Overlay (Attribute.Given Reads) low old.lower new.lower
  upper : Overlay (Attribute.Given Reads) high old.upper new.upper

theorem Bounds.Overlays.trans {α : Type} {Reads : Json → α → Prop} {low high low' high' : Option Json}
    {old mid new : Bounds α} (h : Overlays Reads low high old mid) (h' : Overlays Reads low' high' mid new) :
    Overlays Reads (low'.or low) (high'.or high) old new :=
  ⟨h.lower.trans h'.lower, h.upper.trans h'.upper⟩

/-- The shape is over another one of its kind, with what is given under these keys: limits as numbers, items as a
definition over the type of the items, members as definitions over those of the base. Whether an object is open is
decided apart from its members. -/
inductive Shape.Overlays (base : Property) (given : String → Option Json) : Shape Property → Shape Property → Prop
  | integer {old new : Bounds Int64}
      (range : Bounds.Overlays (fun json n => json.toInt64? = some n) (given "minimum") (given "maximum") old new) :
      Overlays base given (.integer old) (.integer new)
  | number {old new : Bounds Double}
      (range : Bounds.Overlays (fun json d => json.toDouble? = some d) (given "minimum") (given "maximum") old new) :
      Overlays base given (.number old) (.number new)
  | boolean : Overlays base given .boolean .boolean
  | string {old new : Bounds Length}
      (lengths : Bounds.Overlays (fun json length => ∃ n, json.toInt64? = some n ∧ n.toInt = length.val)
        (given "minLength") (given "maxLength") old new) : Overlays base given (.string old) (.string new)
  | array {old new : Option (Attribute Property)}
      (items : Overlay (Attribute.Given fun json q => Property.ofJson base.items? json = .ok q) (given "items") old
        new) : Overlays base given (.array old) (.array new)
  | object {old new : Attribute ObjectType}
      (properties : Overlay (fun json ps => ∃ defs, json = .object defs ∧
        ObjectType.ofMembers base.object? defs = .ok ps) (given "properties") old.value.properties
          new.value.properties)
      (isOpen : Overlay (fun json b => json = .bool b) (given "additionalProperties") old.value.isOpen
        new.value.isOpen)
      (inherited : new.inherited =
        (old.inherited && (given "properties").isNone && (given "additionalProperties").isNone)) :
      Overlays base given (.object old) (.object new)

namespace Shape

variable {base : Property}

/-- The keys of the attributes that are particular to a kind. -/
def keys : List String :=
  ["minimum", "maximum", "minLength", "maxLength", "items", "properties", "additionalProperties"]

/-- Where nothing is given under these keys the shape stays. -/
theorem Overlays.refl {given : String → Option Json} (h : ∀ key ∈ keys, given key = none) (s : Shape Property) :
    s.Overlays base given s := by
  simp only [keys, List.forall_mem_cons] at h
  obtain ⟨hmin, hmax, hminLength, hmaxLength, hitems, hproperties, hopen, _⟩ := h
  cases s with
  | integer range => exact .integer (by rw [hmin, hmax]; exact ⟨.refl _, .refl _⟩)
  | number range => exact .number (by rw [hmin, hmax]; exact ⟨.refl _, .refl _⟩)
  | boolean => exact .boolean
  | string lengths => exact .string (by rw [hminLength, hmaxLength]; exact ⟨.refl _, .refl _⟩)
  | array items => exact .array (by rw [hitems]; exact .refl _)
  | object type =>
    refine .object ?_ ?_ ?_
    · rw [hproperties]
      exact .refl _
    · rw [hopen]
      exact .refl _
    · rw [hproperties, hopen]
      simp

theorem Overlays.trans {first second : String → Option Json} {s t u : Shape Property} (h : s.Overlays base first t)
    (h' : t.Overlays base second u) : s.Overlays base (fun key => (second key).or (first key)) u := by
  cases h with
  | integer range => cases h' with | integer range' => exact .integer (range.trans range')
  | number range => cases h' with | number range' => exact .number (range.trans range')
  | boolean => cases h' with | boolean => exact .boolean
  | string lengths => cases h' with | string lengths' => exact .string (lengths.trans lengths')
  | array items => cases h' with | array items' => exact .array (items.trans items')
  | object properties isOpen inherited =>
    cases h' with
    | object properties' isOpen' inherited' =>
      refine .object (properties.trans properties') (isOpen.trans isOpen') ?_
      rw [inherited', inherited]
      cases first "properties" <;> cases first "additionalProperties" <;> cases second "properties" <;>
        cases second "additionalProperties" <;> simp

/-- Only objects are opened or closed. -/
theorem settle_of_object? {s : Shape Property} (h : s.object? = none) (isOpen : Option Bool) :
    s.settle isOpen = s := by
  cases isOpen <;> cases s <;> first | rfl | cases h

end Shape

/-! ## Definitions under way -/

/-- Reading an attribute of a length gives a number that is not negative. -/
theorem Length.ofJson_ok {key : String} {json : Json} {length : Length} (h : Length.ofJson key json = .ok length) :
    ∃ n, json.toInt64? = some n ∧ n.toInt = length.val := by
  unfold Length.ofJson at h
  split at h
  · cases h
  · rename_i n hn
    refine ⟨n, hn, ?_⟩
    unfold ofInt64? at h
    split at h
    · rename_i length' hlength
      obtain rfl := Except.ok.inj h
      split at hlength
      · rename_i hpos
        obtain rfl := Option.some.inj hlength
        exact (Int.toNat_of_nonneg hpos).symm
      · cases hlength
    · cases h

theorem Bounds.readLimit_ok {α : Type} [Numeral α] {key : String} {json : Json} {limit : α}
    (h : Bounds.readLimit key json = .ok limit) : Numeral.ofJson? json = some limit := by
  unfold Bounds.readLimit at h
  split at h
  · rename_i limit' hlimit
    rw [hlimit, Except.ok.inj h]
  · cases h

namespace Draft

/-- A draft is over another one, with what is given under these keys. The values are set aside until all attributes are
read. -/
structure Overlays (base : Property) (given : String → Option Json) (d d' : Draft) : Prop where
  shape : Shape.Overlays base given d.settleOpen.shape d'.settleOpen.shape
  required : Overlay Attribute.GivenBool ((given "required").or (given "isRequired")) d.property.required
    d'.property.required
  allowed : Overlay (fun json a => a = some json) (given "enum") d.allowed d'.allowed
  default : Overlay (fun json a => a = some json) (given "default") d.default d'.default
  values : d'.property.allowed = d.property.allowed ∧ d'.property.default = d.property.default ∧
    d'.property.derived = d.property.derived

/-- An object type is as open as that of the base until the draft is finished. -/
def OpenAs (base : Property) (d : Draft) : Prop :=
  ∀ o, d.property.object? = some o → o.isOpen = base.object?.any (·.isOpen)

theorem OpenAs.of_object? {base : Property} {d d' : Draft} (hd : d.OpenAs base)
    (h : d'.property.object? = d.property.object?) : d'.OpenAs base :=
  fun o ho => hd o (h.symm.trans ho)

section Single

variable {base : Property} {d d' : Draft} {key : String} {json : Json}

theorem overlay_required_other (hr : "required" ≠ key) (hi : "isRequired" ≠ key) (json : Json) (r : Attribute Bool) :
    Overlay Attribute.GivenBool ((Fields.get? [(key, json)] "required").or (Fields.get? [(key, json)] "isRequired"))
      r r := by
  rw [Fields.get?_cons, Fields.get?_cons, if_neg hr, if_neg hi]
  exact .refl r

/-- An attribute of the shape is read. -/
theorem overlays_shape (s : Shape Property) (isOpen : Option Bool) (hk : key ∈ Shape.keys)
    (h : Shape.Overlays base (Fields.get? [(key, json)]) (d.property.shape.settle d.isOpen) (s.settle isOpen)) :
    d.Overlays base (Fields.get? [(key, json)]) { d.setShape s with isOpen := isOpen } := by
  have hne : ∀ other, other ∉ Shape.keys → other ≠ key := fun other ho he => ho (he ▸ hk)
  refine ⟨?_, overlay_required_other (hne _ (by decide)) (hne _ (by decide)) json _,
    .other (hne _ (by decide)) json _, .other (hne _ (by decide)) json _, rfl, rfl, rfl⟩
  rw [settleOpen_eq, settleOpen_eq]
  exact h

/-- An attribute of a shape other than that of objects is read. -/
theorem overlays_setShape {α : Type} {x : Except Fault α} {mk : α → Shape Property}
    (h : (do return d.setShape (mk (← x))) = .ok d') (hk : key ∈ Shape.keys) {s : Shape Property}
    (hs : d.property.shape = s) (ho : s.object? = none) (ho' : ∀ v, (mk v).object? = none)
    (hx : ∀ v, x = .ok v → s.Overlays base (Fields.get? [(key, json)]) (mk v)) :
    d.Overlays base (Fields.get? [(key, json)]) d' ∧ d'.property.object? = d.property.object? := by
  obtain ⟨v, hv, h⟩ := Fault.bind_ok_iff.1 h
  obtain rfl := Except.ok.inj h
  refine ⟨overlays_shape (mk v) d.isOpen hk ?_, ?_⟩
  · rw [hs, Shape.settle_of_object? ho, Shape.settle_of_object? (ho' v)]
    exact hx v hv
  · rw [object?, object?, hs, ho]
    exact ho' v

/-- An attribute of another key leaves the shape as it is. -/
theorem shape_other (hk : key ∉ Shape.keys) (hs : d'.property.shape = d.property.shape) (ho : d'.isOpen = d.isOpen)
    (json : Json) : Shape.Overlays base (Fields.get? [(key, json)]) d.settleOpen.shape d'.settleOpen.shape := by
  rw [settleOpen_eq, settleOpen_eq, hs, ho]
  refine .refl (fun other hother => ?_) _
  rw [Fields.get?_cons, if_neg fun he : other = key => hk (he ▸ hother)]
  rfl

/-- The definition says whether a value is required. -/
theorem overlays_required (hk : key = "required" ∨ key = "isRequired") (b : Bool) :
    d.Overlays base (Fields.get? [(key, .bool b)]) { d with property := d.property.setRequired b } := by
  have hgiven : (Fields.get? [(key, Json.bool b)] "required").or (Fields.get? [(key, .bool b)] "isRequired") =
      some (.bool b) := by
    rcases hk with rfl | rfl <;> rfl
  have hne : ∀ other, other ≠ "required" → other ≠ "isRequired" → other ≠ key := fun other hr hi he => by
    rcases hk with rfl | rfl
    · exact hr he
    · exact hi he
  refine ⟨shape_other ?_ ?_ ?_ (.bool b), ?_, .other (hne _ (by decide) (by decide)) _ _,
    .other (hne _ (by decide) (by decide)) _ _, rfl, rfl, rfl⟩
  · rcases hk with rfl | rfl <;> decide
  · rfl
  · rfl
  · rw [hgiven]
    exact ⟨fun json he => ⟨b, (Option.some.inj he).symm, rfl⟩, nofun⟩

/-- The definition opens or closes an object type. -/
theorem overlays_isOpen {type : Attribute ObjectType} (hs : d.property.shape = .object type) (b : Bool) :
    d.Overlays base (Fields.get? [("additionalProperties", .bool b)]) { d with isOpen := some b } := by
  have hself : d.setShape d.property.shape = d := setShape_self rfl
  have hoverlays : d.Overlays base (Fields.get? [("additionalProperties", .bool b)])
      { d.setShape d.property.shape with isOpen := some b } := by
    refine overlays_shape d.property.shape (some b) (by decide) ?_
    rw [hs]
    cases d.isOpen with
    | none => exact .object (.other (by decide) _ _) (.this rfl) (Bool.and_false _).symm
    | some c => exact .object (.other (by decide) _ _) (.this rfl) (Bool.and_false _).symm
  rwa [hself] at hoverlays

/-- The definition gives an object type its members. -/
theorem overlays_properties {type : Attribute ObjectType} (hs : d.property.shape = .object type) (hd : d.OpenAs base)
    {defs : Fields Json} {properties : Fields Property} (h : ObjectType.ofMembers base.object? defs = .ok properties) :
    d.Overlays base (Fields.get? [("properties", .object defs)])
      (d.setShape (.object (.own ⟨properties, base.object?.any (·.isOpen)⟩))) := by
  refine overlays_shape _ d.isOpen (by decide) ?_
  rw [hs]
  have hopen : type.value.isOpen = base.object?.any (·.isOpen) :=
    hd _ (object?_eq_some_iff.2 ⟨type.inherited, hs⟩)
  cases d.isOpen with
  | none =>
    refine .object (.this ⟨defs, rfl, h⟩) ?_ ?_
    · show Overlay _ _ type.value.isOpen (base.object?.any (·.isOpen))
      rw [hopen]
      exact .other (by decide) _ _
    · show false = (type.inherited && false && true)
      rw [Bool.and_false, Bool.false_and]
  | some c => exact .object (.this ⟨defs, rfl, h⟩) (.other (by decide) _ _) rfl

/-- Reading one attribute without definitions in it overlays this attribute. -/
theorem overlays_readAttribute (h : d.readAttribute key json = .ok d') :
    d.Overlays base (Fields.get? [(key, json)]) d' ∧ d'.property.object? = d.property.object? := by
  unfold readAttribute at h
  split at h
  · obtain rfl := Except.ok.inj h
    exact ⟨⟨shape_other (by decide) rfl rfl json, overlay_required_other (by decide) (by decide) json _,
      .other (by decide) json _, .other (by decide) json _, rfl, rfl, rfl⟩, rfl⟩
  · obtain rfl := Except.ok.inj h
    exact ⟨⟨shape_other (by decide) rfl rfl json, overlay_required_other (by decide) (by decide) json _,
      .this rfl, .other (by decide) json _, rfl, rfl, rfl⟩, rfl⟩
  · obtain rfl := Except.ok.inj h
    exact ⟨⟨shape_other (by decide) rfl rfl json, overlay_required_other (by decide) (by decide) json _,
      .other (by decide) json _, .this rfl, rfl, rfl, rfl⟩, rfl⟩
  · split at h
    · rename_i b hb
      obtain rfl := Except.ok.inj h
      obtain rfl := Json.toBool?_eq_some_iff.1 hb
      exact ⟨overlays_required (.inl rfl) b, rfl⟩
    · cases h
  · split at h
    · rename_i b hb
      obtain rfl := Except.ok.inj h
      obtain rfl := Json.toBool?_eq_some_iff.1 hb
      exact ⟨overlays_required (.inr rfl) b, rfl⟩
    · cases h
  · split at h
    case h_1 range hs _ _ _ _ _ =>
      exact overlays_setShape h (by decide) hs rfl (fun _ => rfl) fun limit hlimit =>
        .integer ⟨.this ⟨limit, Bounds.readLimit_ok hlimit, rfl⟩, .other (by decide) json _⟩
    case h_2 range hs _ _ _ _ _ =>
      exact overlays_setShape h (by decide) hs rfl (fun _ => rfl) fun limit hlimit =>
        .integer ⟨.other (by decide) json _, .this ⟨limit, Bounds.readLimit_ok hlimit, rfl⟩⟩
    case h_3 range hs _ _ _ _ _ =>
      exact overlays_setShape h (by decide) hs rfl (fun _ => rfl) fun limit hlimit =>
        .number ⟨.this ⟨limit, Bounds.readLimit_ok hlimit, rfl⟩, .other (by decide) json _⟩
    case h_4 range hs _ _ _ _ _ =>
      exact overlays_setShape h (by decide) hs rfl (fun _ => rfl) fun limit hlimit =>
        .number ⟨.other (by decide) json _, .this ⟨limit, Bounds.readLimit_ok hlimit, rfl⟩⟩
    case h_5 lengths hs _ _ _ _ _ =>
      exact overlays_setShape h (by decide) hs rfl (fun _ => rfl) fun length hlength =>
        .string ⟨.this ⟨length, Length.ofJson_ok hlength, rfl⟩, .other (by decide) json _⟩
    case h_6 lengths hs _ _ _ _ _ =>
      exact overlays_setShape h (by decide) hs rfl (fun _ => rfl) fun length hlength =>
        .string ⟨.other (by decide) json _, .this ⟨length, Length.ofJson_ok hlength, rfl⟩⟩
    case h_7 type hs _ _ _ _ _ =>
      split at h
      · rename_i b hb
        obtain rfl := Except.ok.inj h
        obtain rfl := Json.toBool?_eq_some_iff.1 hb
        exact ⟨overlays_isOpen hs b, rfl⟩
      · cases h
    all_goals cases h

/-- **Reading one attribute overlays this attribute**, and leaves an object type as open as that of the base. -/
theorem overlays_readOne (hd : d.OpenAs base) (h : d.readOne (some base) key json = .ok d') :
    d.Overlays base (Fields.get? [(key, json)]) d' ∧ d'.OpenAs base := by
  unfold readOne at h
  split at h
  · rename_i items hs
    exact And.imp_right hd.of_object? (overlays_setShape h (by decide) hs rfl (fun _ => rfl) fun q hq =>
      .array (.this ⟨q, hq, rfl⟩))
  · rename_i defs hs
    obtain ⟨o, ho, h⟩ := Fault.bind_ok_iff.1 h
    obtain ⟨properties, hproperties, ho⟩ := Fault.bind_ok_iff.1 ho
    obtain rfl := Except.ok.inj ho
    obtain rfl := Except.ok.inj h
    refine ⟨overlays_properties hs hd hproperties, fun o ho => ?_⟩
    obtain rfl := Option.some.inj ho
    rfl
  · exact And.imp_right hd.of_object? (overlays_readAttribute h)

end Single

section Run

variable {base : Property} {d d' d'' : Draft}

theorem Overlays.refl (d : Draft) : d.Overlays base (Fields.get? []) d := by
  have hshape : Shape.Overlays base (Fields.get? []) d.settleOpen.shape d.settleOpen.shape := .refl (fun _ _ => rfl) _
  exact ⟨hshape, .refl _, .refl _, .refl _, rfl, rfl, rfl⟩

/-- Both spellings of `required` set the same attribute, so they must be given in the order of their names. -/
theorem Overlays.trans {first second : String → Option Json} (h : d.Overlays base first d')
    (h' : d'.Overlays base second d'') (hr : first "required" = none ∨ second "isRequired" = none) :
    d.Overlays base (fun key => (second key).or (first key)) d'' := by
  obtain ⟨hallowed, hdefault, hderived⟩ := h.values
  obtain ⟨hallowed', hdefault', hderived'⟩ := h'.values
  refine ⟨h.shape.trans h'.shape, ?_, h.allowed.trans h'.allowed, h.default.trans h'.default,
    hallowed'.trans hallowed, hdefault'.trans hdefault, hderived'.trans hderived⟩
  have hgiven : ((second "required").or (second "isRequired")).or ((first "required").or (first "isRequired")) =
      ((second "required").or (first "required")).or ((second "isRequired").or (first "isRequired")) := by
    rcases hr with hr | hr
    · rw [hr, Option.none_or, Option.or_none, Option.or_assoc]
    · rw [hr, Option.or_none, Option.none_or, Option.or_assoc]
  rw [← hgiven]
  exact h.required.trans h'.required

/-- **Reading the attributes of a definition overlays those that it has.** -/
theorem overlays_readAll {fields : Fields Json} (hs : Fields.Sorted fields) (hd : d.OpenAs base)
    (h : readAll (some base) d fields = .ok d') : d.Overlays base fields.get? d' := by
  induction fields generalizing d with
  | nil =>
    rw [readAll] at h
    obtain rfl := Except.ok.inj h
    exact .refl d
  | cons f rest ih =>
    obtain ⟨key, json⟩ := f
    rw [readAll_cons] at h
    obtain ⟨d₁, h₁, h⟩ := Fault.bind_ok_iff.1 h
    obtain ⟨hstep, hd₁⟩ := overlays_readOne hd h₁
    have hget : Fields.get? ((key, json) :: rest) =
        fun other => (Fields.get? rest other).or (Fields.get? [(key, json)] other) := by
      funext other
      rw [Fields.get?_cons, Fields.get?_cons]
      split
      · rename_i he
        rw [he, hs.get?_tail, Option.none_or]
      · exact (Option.or_none ..).symm
    rw [hget]
    refine hstep.trans (ih hs.tail hd₁ h) ?_
    by_cases hk : "required" = key
    · refine .inr (Fields.get?_eq_none_iff.2 fun p hp he => ?_)
      have hlt : "required" < "isRequired" := by
        rw [hk, ← he]
        exact hs.lt_of_mem hp
      exact absurd hlt (by decide)
    · refine .inl ?_
      rw [Fields.get?_cons, if_neg hk]
      rfl

end Run

end Draft

end Capability
