import Capability.Proofs.Schema.Provenance
import Capability.Proofs.Schema.Reading
import Capability.Schema.Writing

/-!
# Reading the attributes of a written definition

The attributes of a written definition are read back one by one (`readAll_fields`): where one is written, the type
takes its value, and where none is, the type keeps what it had from the base. A written attribute that is given or
comes from the base is restored by that (`Attribute.restore_inherit`), in either form.

* `Draft.readAll_outline`: reading all attributes of a written type gives the type with its limits restored, its values
  set aside, and its flags.
* `Draft.restores_shape`: the limits of a written type are restored over the base of the type, if the types inside that
  are written are restored themselves.
-/

namespace Capability

open Property

/-! ## Single attributes -/

namespace Attribute

variable {α : Type}

/-- Whether the form writes the attribute. -/
def Written (form : Form) (a : Attribute α) : Prop :=
  form = .full ∨ a.inherited = false

theorem written?_of_written {form : Form} {a : Attribute α} (h : a.Written form) : a.written? form = some a.value :=
  if_pos h

theorem written?_of_not_written {form : Form} {a : Attribute α} (h : ¬a.Written form) : a.written? form = none :=
  if_neg h

theorem written?_map {β : Type} (f : α → β) (form : Form) (a : Attribute α) :
    (a.map f).written? form = (a.written? form).map f := by
  unfold written?
  show (if form = .full ∨ a.inherited = false then some (f a.value) else none) = _
  split <;> rfl

theorem inherited_of_not_written {form : Form} {a : Attribute α} (h : ¬a.Written form) : a.inherited = true := by
  cases ha : a.inherited with
  | false => exact absurd (.inr ha) h
  | true => rfl

/-- What an attribute is when its written form is read over another one. -/
def restore (form : Form) (a? base? : Option (Attribute α)) : Option (Attribute α) :=
  ((a?.bind (written? form)).map own).or base?

/-- **An attribute that is given or is that of the base is restored.** -/
theorem restore_inherit {form : Form} {a? base? : Option (Attribute α)} (h : From a? base?) :
    (restore form a? base?).map inherit = a?.map inherit := by
  cases a? with
  | none => exact (h.inherit_eq rfl).symm
  | some a =>
    by_cases hw : a.Written form
    · rw [restore, Option.bind_some, written?_of_written hw]
      rfl
    · have ho : isOwn (some a) = false := by simp [isOwn, inherited_of_not_written hw]
      rw [restore, Option.bind_some, written?_of_not_written hw]
      exact (h.inherit_eq ho).symm

end Attribute

namespace Bounds

variable {α : Type}

/-- What the bounds are when their written form is read over other bounds. -/
def restore (form : Form) (b base : Bounds α) : Bounds α :=
  ⟨Attribute.restore form b.lower base.lower, Attribute.restore form b.upper base.upper⟩

theorem restore_inherit {form : Form} {b base : Bounds α} (h : b.From base) :
    (restore form b base).inherit = b.inherit := by
  show Bounds.mk ((Attribute.restore form b.lower base.lower).map .inherit)
    ((Attribute.restore form b.upper base.upper).map .inherit) = ⟨b.lower.map .inherit, b.upper.map .inherit⟩
  rw [Attribute.restore_inherit h.1, Attribute.restore_inherit h.2]

end Bounds

/-! ## Attributes in order -/

namespace Outline

/-- The entry under a key. -/
def get? (o : Outline) (key : String) : Option Json :=
  ([("additionalProperties", o.isOpen), ("default", o.default), ("enum", o.allowed), ("items", o.items),
    ("maxLength", o.maxLength), ("maximum", o.maximum), ("minLength", o.minLength), ("minimum", o.minimum),
    ("properties", o.properties), ("required", o.required), ("type", o.type)].lookup key).join

theorem get?_fields (o : Outline) (key : String) : Fields.get? o.fields key = o.get? key := by
  refine Fields.get?_present ?_ key
  show ["additionalProperties", "default", "enum", "items", "maxLength", "maximum", "minLength", "minimum",
    "properties", "required", "type"].Nodup
  decide

end Outline

theorem Bounds.readLimit_toJson {α : Type} [Numeral α] {n : α} (h : Numeral.ofJson? (Numeral.toJson n) = some n)
    (key : String) : Bounds.readLimit key (Numeral.toJson n) = .ok n := by
  rw [readLimit, h]

theorem Length.toInt_ofInt (n : Length) : (Int64.ofInt n.val).toInt = n.val := by
  have hn : (n.val : Int) < 2 ^ 63 := by exact_mod_cast n.isLt
  exact Int64.toInt_ofInt_of_le (by omega) (by omega)

theorem Length.ofInt64?_ofInt (n : Length) : ofInt64? (Int64.ofInt n.val) = some n := by
  have hint := n.toInt_ofInt
  have hpos : 0 ≤ (Int64.ofInt n.val).toInt := by omega
  rw [ofInt64?, dif_pos hpos]
  exact congrArg some (Fin.ext (by simp [hint]))

theorem Length.ofJson_toJson (n : Length) (key : String) : Length.ofJson key n.toJson = .ok n := by
  have hread : n.toJson.toInt64? = some (Int64.ofInt n.val) := by
    have h := Json.toInt64?_integer (Int64.ofInt n.val)
    rwa [n.toInt_ofInt] at h
  rw [ofJson, hread]
  simp only [ofInt64?_ofInt]

namespace Draft

variable {base : Option Property}

/-- Reads an attribute, if it is there. -/
def readIf (base : Option Property) (d : Draft) (entry : String × Option Json) : Except Fault Draft :=
  match entry.2 with
  | none => .ok d
  | some json => d.readOne base entry.1 json

theorem foldlM_readIf {d d' : Draft} {entry : String × Option Json} (h : readIf base d entry = .ok d')
    {rest : List (String × Option Json)} : (entry :: rest).foldlM (readIf base) d = rest.foldlM (readIf base) d' := by
  rw [List.foldlM_cons, h]
  rfl

theorem readAll_present (entries : List (String × Option Json)) (d : Draft) :
    readAll base d (Fields.present entries) = entries.foldlM (readIf base) d := by
  induction entries generalizing d with
  | nil =>
    show readAll base d [] = .ok d
    rw [readAll]
  | cons e rest ih =>
    obtain ⟨key, json?⟩ := e
    rw [List.foldlM_cons]
    cases json? with
    | none => exact ih d
    | some json =>
      rw [Fields.present_cons_some, readAll_cons]
      exact congrArg (d.readOne base key json >>= ·) (funext ih)

/-! ## Values and flags -/

theorem readIf_default {d : Draft} (h : d.default = none) (json? : Option Json) :
    readIf base d ("default", json?) = .ok { d with default := json? } := by
  cases json? with
  | none =>
    obtain ⟨_, _, _, _⟩ := d
    cases h
    rfl
  | some json =>
    show d.readOne base "default" json = _
    exact readOne_of_ne d (by decide) (by decide) json

theorem readIf_allowed {d : Draft} (h : d.allowed = none) (json? : Option Json) :
    readIf base d ("enum", json?) = .ok { d with allowed := json? } := by
  cases json? with
  | none =>
    obtain ⟨_, _, _, _⟩ := d
    cases h
    rfl
  | some json =>
    show d.readOne base "enum" json = _
    exact readOne_of_ne d (by decide) (by decide) json

theorem readIf_required (d : Draft) (required? : Option Bool) :
    readIf base d ("required", required?.map .bool) =
      .ok { d with property := { d.property with required := (required?.map .own).getD d.property.required } } := by
  cases required? with
  | none =>
    obtain ⟨⟨_, _, _, _, _⟩, _, _, _⟩ := d
    rfl
  | some b =>
    show d.readOne base "required" (.bool b) = _
    exact readOne_of_ne d (by decide) (by decide) (.bool b)

theorem readIf_type (d : Draft) (json? : Option Json) : readIf base d ("type", json?) = .ok d := by
  cases json? with
  | none => rfl
  | some json =>
    show d.readOne base "type" json = _
    exact readOne_of_ne d (by decide) (by decide) json

theorem setShape_self {d : Draft} {s : Shape Property} (h : d.property.shape = s) : d.setShape s = d := by
  obtain ⟨⟨_, _, _, _, _⟩, _, _, _⟩ := d
  rw [← h]
  rfl

/-! ## Limits -/

section Limits

variable {d : Draft}

theorem readOne_minimum_integer {range : Bounds Int64} (hs : d.property.shape = .integer range) (n : Int64) :
    d.readOne base "minimum" (Numeral.toJson n) = .ok (d.setShape (.integer (range.setLower n))) := by
  rw [readOne_of_ne d (by decide) (by decide)]
  obtain ⟨⟨_, _, _, _, _⟩, _, _, _⟩ := d
  cases hs
  exact Fault.bind_ok_iff.2 ⟨n, Bounds.readLimit_toJson (Json.toInt64?_integer n) _, rfl⟩

theorem readOne_maximum_integer {range : Bounds Int64} (hs : d.property.shape = .integer range) (n : Int64) :
    d.readOne base "maximum" (Numeral.toJson n) = .ok (d.setShape (.integer (range.setUpper n))) := by
  rw [readOne_of_ne d (by decide) (by decide)]
  obtain ⟨⟨_, _, _, _, _⟩, _, _, _⟩ := d
  cases hs
  exact Fault.bind_ok_iff.2 ⟨n, Bounds.readLimit_toJson (Json.toInt64?_integer n) _, rfl⟩

theorem readOne_minimum_number {range : Bounds Double} (hs : d.property.shape = .number range) (x : Double) :
    d.readOne base "minimum" (Numeral.toJson x) = .ok (d.setShape (.number (range.setLower x))) := by
  rw [readOne_of_ne d (by decide) (by decide)]
  obtain ⟨⟨_, _, _, _, _⟩, _, _, _⟩ := d
  cases hs
  exact Fault.bind_ok_iff.2 ⟨x, Bounds.readLimit_toJson rfl _, rfl⟩

theorem readOne_maximum_number {range : Bounds Double} (hs : d.property.shape = .number range) (x : Double) :
    d.readOne base "maximum" (Numeral.toJson x) = .ok (d.setShape (.number (range.setUpper x))) := by
  rw [readOne_of_ne d (by decide) (by decide)]
  obtain ⟨⟨_, _, _, _, _⟩, _, _, _⟩ := d
  cases hs
  exact Fault.bind_ok_iff.2 ⟨x, Bounds.readLimit_toJson rfl _, rfl⟩

theorem readOne_minLength {lengths : Bounds Length} (hs : d.property.shape = .string lengths) (n : Length) :
    d.readOne base "minLength" (Length.toJson n) = .ok (d.setShape (.string (lengths.setLower n))) := by
  rw [readOne_of_ne d (by decide) (by decide)]
  obtain ⟨⟨_, _, _, _, _⟩, _, _, _⟩ := d
  cases hs
  exact Fault.bind_ok_iff.2 ⟨n, Length.ofJson_toJson n _, rfl⟩

theorem readOne_maxLength {lengths : Bounds Length} (hs : d.property.shape = .string lengths) (n : Length) :
    d.readOne base "maxLength" (Length.toJson n) = .ok (d.setShape (.string (lengths.setUpper n))) := by
  rw [readOne_of_ne d (by decide) (by decide)]
  obtain ⟨⟨_, _, _, _, _⟩, _, _, _⟩ := d
  cases hs
  exact Fault.bind_ok_iff.2 ⟨n, Length.ofJson_toJson n _, rfl⟩

/-- **Both limits of a kind are restored**, once the written form of each is read as it is. -/
theorem readIf_bounds {α : Type} {form : Form} {toJson : α → Json} {mk : Bounds α → Shape Property}
    {low high : String}
    (hlow : ∀ {d : Draft} {b : Bounds α} (_ : d.property.shape = mk b) (v : α),
      d.readOne base low (toJson v) = .ok (d.setShape (mk (b.setLower v))))
    (hhigh : ∀ {d : Draft} {b : Bounds α} (_ : d.property.shape = mk b) (v : α),
      d.readOne base high (toJson v) = .ok (d.setShape (mk (b.setUpper v))))
    {b₀ : Bounds α} (hs : d.property.shape = mk b₀) (b : Bounds α) :
    (do
      let d ← d.readIf base (high, Attribute.entry form toJson b.upper)
      d.readIf base (low, Attribute.entry form toJson b.lower)) = .ok (d.setShape (mk (Bounds.restore form b b₀))) := by
  have hself : d.setShape (mk b₀) = d := setShape_self hs
  unfold Attribute.entry Bounds.restore Attribute.restore
  cases b.upper.bind (Attribute.written? form) with
  | none =>
    cases b.lower.bind (Attribute.written? form) with
    | none => exact congrArg Except.ok hself.symm
    | some low => exact hlow hs low
  | some high =>
    have hread := hhigh hs high
    cases b.lower.bind (Attribute.written? form) with
    | none => exact Fault.bind_ok_iff.2 ⟨_, hread, rfl⟩
    | some low =>
      exact Fault.bind_ok_iff.2 ⟨_, hread, hlow (d := d.setShape (mk (b₀.setUpper high))) rfl low⟩

end Limits

/-! ## Types inside -/

theorem readOne_items {d : Draft} {items : Option (Attribute Property)} (hs : d.property.shape = .array items)
    {json : Json} {q : Property} (hq : Property.ofJson (base.bind items?) json = .ok q) :
    d.readOne base "items" json = .ok (d.setShape (.array (some (.own q)))) := by
  unfold readOne
  rw [hs]
  exact Fault.bind_ok_iff.2 ⟨q, hq, rfl⟩

theorem readOne_properties {d : Draft} {type : Attribute ObjectType} (hs : d.property.shape = .object type)
    {fields : Fields Json} {properties : Fields Property}
    (hp : ObjectType.ofMembers (base.bind object?) fields = .ok properties) :
    d.readOne base "properties" (.object fields) =
      .ok (d.setShape (.object (.own ⟨properties, (base.bind object?).any (·.isOpen)⟩))) := by
  unfold readOne
  rw [hs]
  exact Fault.bind_ok_iff.2 ⟨_, Fault.bind_ok_iff.2 ⟨properties, hp, rfl⟩, rfl⟩

theorem readOne_isOpen {d : Draft} {type : Attribute ObjectType} (hs : d.property.shape = .object type) (b : Bool) :
    d.readOne base "additionalProperties" (.bool b) = .ok { d with isOpen := some b } := by
  rw [readOne_of_ne d (by decide) (by decide)]
  obtain ⟨⟨_, _, _, _, _⟩, _, _, _⟩ := d
  cases hs
  rfl

/-- The members are restored one by one. -/
theorem exists_ofMembers {type : Option ObjectType} {form : Form} {properties : Fields Property}
    (h : ∀ name q, (name, q) ∈ properties →
      ∃ q', Property.ofJson (type.bind (·.get? name)) (q.toJson form) = .ok q' ∧ q'.bare = q.bare) :
    ∃ properties', ObjectType.ofMembers type (Fields.mapValues (Property.toJson form) properties) = .ok properties' ∧
      Fields.mapValues bare properties' = Fields.mapValues bare properties := by
  induction properties with
  | nil => exact ⟨[], by rw [Fields.mapValues, List.map_nil, ObjectType.ofMembers], rfl⟩
  | cons m rest ih =>
    obtain ⟨name, q⟩ := m
    obtain ⟨q', hq', hbare⟩ := h name q List.mem_cons_self
    obtain ⟨rest', hrest', hbares⟩ := ih fun n r hr => h n r (List.mem_cons_of_mem _ hr)
    refine ⟨(name, q') :: rest', ?_, ?_⟩
    · show ObjectType.ofMembers type ((name, q.toJson form) :: Fields.mapValues (Property.toJson form) rest) = _
      rw [ObjectType.ofMembers, hq', hrest']
      rfl
    · show (name, q'.bare) :: Fields.mapValues bare rest' = (name, q.bare) :: Fields.mapValues bare rest
      rw [hbare, hbares]

end Draft

/-! ## Whole outlines -/

/-- The limits among the attributes, and the types inside. -/
def Outline.limits (o : Outline) : List (String × Option Json) :=
  [("items", o.items), ("maxLength", o.maxLength), ("maximum", o.maximum), ("minLength", o.minLength),
    ("minimum", o.minimum), ("properties", o.properties)]

namespace Draft

variable {base : Option Property}

theorem readAll_fields (o : Outline) (d : Draft) :
    readAll base d o.fields =
      (("additionalProperties", o.isOpen) :: ("default", o.default) :: ("enum", o.allowed) ::
        (o.limits ++ [("required", o.required), ("type", o.type)])).foldlM (readIf base) d :=
  readAll_present _ d

/-- Reading a written definition: the values are set aside, the limits make the shape. -/
theorem readAll_outline {o : Outline} {p : Property} {s : Shape Property} {isOpen required : Option Bool}
    (hopen : readIf base { property := p } ("additionalProperties", o.isOpen) = .ok { property := p, isOpen := isOpen })
    (hlimits : ∀ d : Draft, d.property = p → o.limits.foldlM (readIf base) d = .ok (d.setShape s))
    (hrequired : o.required = required.map .bool) :
    readAll base { property := p } o.fields =
      .ok ⟨{ p with shape := s, required := (required.map .own).getD p.required }, o.allowed, o.default, isOpen⟩ := by
  rw [readAll_fields, foldlM_readIf hopen, foldlM_readIf (readIf_default rfl o.default),
    foldlM_readIf (readIf_allowed rfl o.allowed), List.foldlM_append, hrequired]
  refine Fault.bind_ok_iff.2 ⟨_, hlimits _ rfl, ?_⟩
  rw [foldlM_readIf (readIf_required _ required), foldlM_readIf (readIf_type _ o.type)]
  rfl

theorem limits_of_readAll {o : Outline} {p : Property} {isOpen : Option Bool} {d : Draft}
    (hopen : readIf base { property := p } ("additionalProperties", o.isOpen) = .ok { property := p, isOpen := isOpen })
    (h : readAll base { property := p } o.fields = .ok d) :
    ∃ d₁ d₂ : Draft, d₁.property = p ∧ o.limits.foldlM (readIf base) d₁ = .ok d₂ := by
  rw [readAll_fields, foldlM_readIf hopen, foldlM_readIf (readIf_default rfl o.default),
    foldlM_readIf (readIf_allowed rfl o.allowed), List.foldlM_append] at h
  obtain ⟨d₂, h, _⟩ := Fault.bind_ok_iff.1 h
  exact ⟨_, d₂, rfl, h⟩

end Draft

/-! ## Shapes -/

/-- A shape once it is known whether the definition opens or closes it. -/
def Shape.settle (isOpen : Option Bool) (s : Shape Property) : Shape Property :=
  match isOpen, s with
  | some isOpen, .object type => .object (.own (ObjectType.setOpen type.value isOpen))
  | _, s => s

@[simp] theorem Shape.kind_settle (isOpen : Option Bool) (s : Shape Property) : (s.settle isOpen).kind = s.kind := by
  cases isOpen <;> cases s <;> rfl

namespace Draft

theorem settleOpen_eq (d : Draft) : d.settleOpen = { d.property with shape := d.property.shape.settle d.isOpen } := by
  obtain ⟨⟨shape, _, _, _, _⟩, _, _, isOpen⟩ := d
  cases isOpen <;> cases shape <;> rfl

/-- The limits of an outline, read over a type, make a shape with the same limits and types inside. -/
def Restores (base : Option Property) (o : Outline) (p : Property) (s : Shape Property) : Prop :=
  ∃ s' isOpen, readIf base { property := p } ("additionalProperties", o.isOpen) = .ok { property := p, isOpen := isOpen } ∧
    (∀ d : Draft, d.property = p → o.limits.foldlM (readIf base) d = .ok (d.setShape s')) ∧
      ((s'.settle isOpen).map bare).inherit = (s.map bare).inherit

variable {base : Option Property}

section Shapes

variable {form : Form} {p : Property}

theorem restores_integer {range range₀ : Bounds Int64} (hp : p.shape = .integer range₀) (h : range.From range₀) :
    Restores base (Shape.outline form (.integer range)) p (.integer range) := by
  refine ⟨.integer (Bounds.restore form range range₀), none, rfl, fun d hd => ?_, ?_⟩
  · obtain ⟨d', hhigh, hlow⟩ := Fault.bind_ok_iff.1
      (readIf_bounds readOne_minimum_integer readOne_maximum_integer (by rw [hd]; exact hp) range)
    exact (foldlM_readIf hhigh).trans (foldlM_readIf hlow)
  · exact congrArg Shape.integer (Bounds.restore_inherit h)

theorem restores_number {range range₀ : Bounds Double} (hp : p.shape = .number range₀) (h : range.From range₀) :
    Restores base (Shape.outline form (.number range)) p (.number range) := by
  refine ⟨.number (Bounds.restore form range range₀), none, rfl, fun d hd => ?_, ?_⟩
  · obtain ⟨d', hhigh, hlow⟩ := Fault.bind_ok_iff.1
      (readIf_bounds readOne_minimum_number readOne_maximum_number (by rw [hd]; exact hp) range)
    exact (foldlM_readIf hhigh).trans (foldlM_readIf hlow)
  · exact congrArg Shape.number (Bounds.restore_inherit h)

theorem restores_string {lengths lengths₀ : Bounds Length} (hp : p.shape = .string lengths₀)
    (h : lengths.From lengths₀) : Restores base (Shape.outline form (.string lengths)) p (.string lengths) := by
  refine ⟨.string (Bounds.restore form lengths lengths₀), none, rfl, fun d hd => ?_, ?_⟩
  · obtain ⟨d', hhigh, hlow⟩ := Fault.bind_ok_iff.1
      (readIf_bounds readOne_minLength readOne_maxLength (by rw [hd]; exact hp) lengths)
    exact (foldlM_readIf hhigh).trans (foldlM_readIf hlow)
  · exact congrArg Shape.string (Bounds.restore_inherit h)

theorem items_outline (form : Form) (a : Attribute Property) :
    (Shape.outline form (Shape.map (Property.toJson form) (.array (some a)))).items =
      (a.written? form).map (Property.toJson form) := by
  rw [← Attribute.written?_map]
  exact congrFun Option.map_id _

theorem properties_outline (form : Form) (type : Attribute ObjectType) :
    (Shape.outline form (Shape.map (Property.toJson form) (.object type))).properties =
      (type.written? form).map fun o => .object (Fields.mapValues (Property.toJson form) o.properties) := by
  show ((type.map (ObjectOf.map (Property.toJson form))).written? form).map _ = _
  rw [Attribute.written?_map, Option.map_map]
  rfl

theorem isOpen_outline (form : Form) (type : Attribute ObjectType) :
    (Shape.outline form (Shape.map (Property.toJson form) (.object type))).isOpen =
      ((type.written? form).bind fun o => if o.isOpen then some true else none).map Json.bool := by
  show ((type.map (ObjectOf.map (Property.toJson form))).written? form).bind _ = _
  rw [Attribute.written?_map]
  cases type.written? form with
  | none => rfl
  | some o => cases ho : o.isOpen <;> simp [ObjectOf.map, ho]

/-- Where the type of the items is written, it is read. -/
theorem foldlM_limits_array {a : Attribute Property} (hw : a.Written form) {d : Draft}
    {items : Option (Attribute Property)} (hs : d.property.shape = .array items) {q : Property}
    (hq : Property.ofJson (base.bind items?) (a.value.toJson form) = .ok q) :
    (Shape.outline form (Shape.map (Property.toJson form) (.array (some a)))).limits.foldlM (readIf base) d =
      .ok (d.setShape (.array (some (.own q)))) := by
  refine foldlM_readIf ?_
  rw [items_outline, Attribute.written?_of_written hw]
  exact readOne_items hs hq

/-- Where the members are written, they are read. -/
theorem foldlM_limits_object {type : Attribute ObjectType} (hw : type.Written form) {d : Draft}
    {type₀ : Attribute ObjectType} (hs : d.property.shape = .object type₀) {properties : Fields Property}
    (hp : ObjectType.ofMembers (base.bind object?) (Fields.mapValues (Property.toJson form) type.value.properties) =
      .ok properties) :
    (Shape.outline form (Shape.map (Property.toJson form) (.object type))).limits.foldlM (readIf base) d =
      .ok (d.setShape (.object (.own ⟨properties, (base.bind object?).any (·.isOpen)⟩))) := by
  show List.foldlM (readIf base) d [("properties", _)] = _
  refine foldlM_readIf ?_
  rw [properties_outline, Attribute.written?_of_written hw]
  exact readOne_properties hs hp

/-- The flag that opens an object type is set aside. -/
theorem readIf_isOpen {type₀ : Attribute ObjectType} (hp : p.shape = .object type₀) (isOpen? : Option Bool) :
    readIf base { property := p } ("additionalProperties", isOpen?.map Json.bool) =
      .ok { property := p, isOpen := isOpen? } := by
  cases isOpen? with
  | none => rfl
  | some b => exact readOne_isOpen (d := { property := p }) hp b

/-- The type of the items is restored, if it is restored where it is written. -/
theorem restores_array {items items₀ : Option (Attribute Property)} (hp : p.shape = .array items₀)
    (h : Attribute.From items items₀)
    (hitems : ∀ a, items = some a → a.Written form →
      ∃ q, Property.ofJson (base.bind items?) (a.value.toJson form) = .ok q ∧ q.bare = a.value.bare) :
    Restores base (Shape.outline form (Shape.map (Property.toJson form) (.array items))) p (.array items) := by
  by_cases hw : ∃ a, items = some a ∧ a.Written form
  · obtain ⟨a, rfl, hw⟩ := hw
    obtain ⟨q, hq, hbare⟩ := hitems a rfl hw
    refine ⟨.array (some (.own q)), none, rfl, fun d hd => ?_, ?_⟩
    · exact foldlM_limits_array hw (by rw [hd]; exact hp) hq
    · show Shape.array (some ⟨q.bare, true⟩) = .array (some ⟨a.value.bare, true⟩)
      rw [hbare]
  · have hown : Attribute.isOwn items = false := by
      cases items with
      | none => rfl
      | some a => simp [Attribute.isOwn, Attribute.inherited_of_not_written fun h => hw ⟨a, rfl, h⟩]
    refine ⟨.array items₀, none, rfl, fun d hd => ?_, ?_⟩
    · rw [setShape_self (by rw [hd]; exact hp)]
      refine foldlM_readIf ?_
      cases items with
      | none => rfl
      | some a =>
        rw [items_outline, Attribute.written?_of_not_written fun h => hw ⟨a, rfl, h⟩]
        rfl
    · show ((Shape.array items₀).map bare).inherit = _
      rw [Shape.inherit_map, Shape.inherit_map]
      exact congrArg (fun i => Shape.map bare (.array i)) (h.inherit_eq hown).symm

/-- The members are restored, if each is restored where they are written and a closed type lies over a closed one. -/
theorem restores_object {type type₀ : Attribute ObjectType} (hp : p.shape = .object type₀)
    (h : Attribute.From (some type) (some type₀))
    (hclosed : type.Written form → type.value.isOpen = false → (base.bind object?).any (·.isOpen) = false)
    (hmembers : type.Written form → ∀ name q, (name, q) ∈ type.value.properties →
      ∃ q', Property.ofJson ((base.bind object?).bind (·.get? name)) (q.toJson form) = .ok q' ∧ q'.bare = q.bare) :
    Restores base (Shape.outline form (Shape.map (Property.toJson form) (.object type))) p (.object type) := by
  by_cases hw : type.Written form
  · obtain ⟨properties', hread, hbare⟩ := exists_ofMembers (hmembers hw)
    have hclosed := hclosed hw
    refine ⟨.object (.own ⟨properties', (base.bind object?).any (·.isOpen)⟩),
      if type.value.isOpen then some true else none, ?_, fun d hd => ?_, ?_⟩
    · rw [isOpen_outline, Attribute.written?_of_written hw]
      exact readIf_isOpen hp _
    · exact foldlM_limits_object hw (by rw [hd]; exact hp) hread
    · cases ho : type.value.isOpen with
      | true =>
        show Shape.object ⟨⟨Fields.mapValues bare properties', true⟩, true⟩ =
          .object ⟨⟨Fields.mapValues bare type.value.properties, type.value.isOpen⟩, true⟩
        rw [hbare, ho]
      | false =>
        show Shape.object ⟨⟨Fields.mapValues bare properties', (base.bind object?).any (·.isOpen)⟩, true⟩ =
          .object ⟨⟨Fields.mapValues bare type.value.properties, type.value.isOpen⟩, true⟩
        rw [hbare, ho, hclosed ho]
  · have hown : Attribute.isOwn (some type) = false := by
      simp [Attribute.isOwn, Attribute.inherited_of_not_written hw]
    refine ⟨.object type₀, none, ?_, fun d hd => ?_, ?_⟩
    · rw [isOpen_outline, Attribute.written?_of_not_written hw]
      rfl
    · rw [setShape_self (by rw [hd]; exact hp)]
      show List.foldlM (readIf base) d [("properties", _)] = _
      refine foldlM_readIf ?_
      rw [properties_outline, Attribute.written?_of_not_written hw]
      rfl
    · show ((Shape.object type₀).map bare).inherit = _
      rw [Shape.inherit_map, Shape.inherit_map]
      exact congrArg (fun t => Shape.map bare (.object t)) (Option.some.inj (h.inherit_eq hown)).symm

/-- **The shape of a type is restored, if the types inside are restored where they are written.** -/
theorem restores_shape {q : Property} (h : q.shape.From p.shape)
    (hclosed : ∀ type, q.shape = .object type → type.Written form → type.value.isOpen = false →
      (base.bind object?).any (·.isOpen) = false)
    (hitems : ∀ a, q.shape = .array (some a) → a.Written form →
      ∃ q', Property.ofJson (base.bind items?) (a.value.toJson form) = .ok q' ∧ q'.bare = a.value.bare)
    (hmembers : ∀ type, q.shape = .object type → type.Written form → ∀ name r, (name, r) ∈ type.value.properties →
      ∃ r', Property.ofJson ((base.bind object?).bind (·.get? name)) (r.toJson form) = .ok r' ∧ r'.bare = r.bare) :
    Restores base ((q.shape.map (Property.toJson form)).outline form) p q.shape := by
  cases hs : q.shape <;> cases hp : p.shape <;> rw [hs, hp] at h <;> first | exact h.elim | skip
  case integer.integer range range₀ => exact restores_integer hp h
  case number.number range range₀ => exact restores_number hp h
  case boolean.boolean =>
    refine ⟨.boolean, none, rfl, fun d hd => ?_, rfl⟩
    rw [setShape_self (by rw [hd]; exact hp)]
    rfl
  case string.string lengths lengths₀ => exact restores_string hp h
  case object.object type type₀ => exact restores_object hp h (hclosed type hs) (hmembers type hs)
  case array.array items items₀ =>
    refine restores_array hp h fun a ha => hitems a ?_
    rw [hs, ha]

end Shapes

/-! ## Types inside that are read -/

theorem ofJson_of_readOne_items {d d' : Draft} {items : Option (Attribute Property)} {json : Json}
    (hs : d.property.shape = .array items) (h : d.readOne base "items" json = .ok d') :
    ∃ q, Property.ofJson (base.bind items?) json = .ok q := by
  unfold readOne at h
  rw [hs] at h
  obtain ⟨q, hq, _⟩ := Fault.bind_ok_iff.1 h
  exact ⟨q, hq⟩

theorem ofJson_of_ofMembers {type : Option ObjectType} {fields : Fields Json} {properties : Fields Property}
    (h : ObjectType.ofMembers type fields = .ok properties) {name : String} {json : Json} (hm : (name, json) ∈ fields) :
    ∃ q, Property.ofJson (type.bind (·.get? name)) json = .ok q := by
  induction fields generalizing properties with
  | nil => cases hm
  | cons m rest ih =>
    obtain ⟨n, json'⟩ := m
    rw [ObjectType.ofMembers] at h
    obtain ⟨q, hq, h⟩ := Fault.bind_ok_iff.1 h
    obtain ⟨qs, hqs, _⟩ := Fault.bind_ok_iff.1 h
    rcases List.mem_cons.1 hm with he | hm
    · obtain ⟨rfl, rfl⟩ := Prod.mk.inj he
      exact ⟨q, Fault.mapError_ok_iff.1 hq⟩
    · exact ih hqs hm

theorem ofMembers_of_readOne_properties {d d' : Draft} {type : Attribute ObjectType} {fields : Fields Json}
    (hs : d.property.shape = .object type) (h : d.readOne base "properties" (.object fields) = .ok d') :
    ∃ properties, ObjectType.ofMembers (base.bind object?) fields = .ok properties := by
  unfold readOne at h
  rw [hs] at h
  obtain ⟨o, ho, _⟩ := Fault.bind_ok_iff.1 h
  obtain ⟨properties, hp, _⟩ := Fault.bind_ok_iff.1 ho
  exact ⟨properties, hp⟩

end Draft

end Capability
