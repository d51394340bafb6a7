import Capability.Proofs.Schema.MinimalForm
import Capability.Proofs.Schema.Overlay

/-!
# Attributes over those of a base

A definition over a base replaces those attributes that it has keys for, and takes over the others
(`Property.Overlays`). Just the first ones are marked as its own (`Property.Marked`).

* `Property.overlays_ofJson`: the attributes are read over those of the base, and the values that were set aside are
  read in the end.
* `Property.ofJson_empty`: a definition that gives nothing takes everything over.
* `Property.Read.overlays_spec`: both, for every base that is read over a chain of bases.
-/

namespace Capability

open Property

/-! ## Values -/

theorem Property.convert_of_shape_eq {p q : Property} (hs : p.shape = q.shape) (ha : p.allowed = q.allowed) :
    p.convert = q.convert := by
  funext json
  rw [convert_eq, convert_eq, hs, ha]

/-- What is set aside is what is given. -/
theorem Overlay.eq_given {given new : Option Json} (h : Overlay (fun json a => a = some json) given none new) :
    new = given := by
  cases given with
  | none => exact h.kept rfl
  | some json => exact h.read json rfl

/-- The JSON value is a list, not the empty one, of which the type takes each item for a value, whatever values are
allowed. -/
def Property.TakesAll (p : Property) (json : Json) (list : List Value) : Prop :=
  ∃ items, json = .array items ∧ items ≠ [] ∧ items.mapM { p with allowed := none }.convert = .ok list

theorem Property.takesAll_of_shape_eq {p q : Property} (hs : p.shape = q.shape) : p.TakesAll = q.TakesAll := by
  have hconvert : ({ p with allowed := none } : Property).convert = ({ q with allowed := none } : Property).convert :=
    convert_of_shape_eq hs rfl
  funext json list
  rw [TakesAll, TakesAll, hconvert]

theorem Property.overlay_readAllowed {p q : Property} {given : Option Json} (h : p.readAllowed given = .ok q) :
    Overlay (Attribute.Given p.TakesAll) given p.allowed q.allowed ∧ q = { p with allowed := q.allowed } := by
  unfold readAllowed at h
  split at h
  · obtain rfl := Except.ok.inj h
    exact ⟨.refl _, by cases p; rfl⟩
  · cases h
  · rename_i items hne
    obtain ⟨list, hlist, h⟩ := Fault.bind_ok_iff.1 h
    obtain rfl := Except.ok.inj h
    refine ⟨⟨fun json he => ?_, nofun⟩, rfl⟩
    obtain rfl := Option.some.inj he
    exact ⟨list, ⟨items, rfl, hne, Fault.mapError_ok_iff.1 hlist⟩, rfl⟩
  · cases h

theorem Property.overlay_readDefault {p q : Property} {given : Option Json} (h : p.readDefault given = .ok q) :
    Overlay (Attribute.Given fun json v => p.convert json = .ok v) given p.default q.default ∧
      q = { p with default := q.default } := by
  unfold readDefault at h
  split at h
  · obtain rfl := Except.ok.inj h
    exact ⟨.refl _, by cases p; rfl⟩
  · rename_i json
    obtain ⟨v, hv, h⟩ := Fault.bind_ok_iff.1 h
    obtain rfl := Except.ok.inj h
    refine ⟨⟨fun json' he => ?_, nofun⟩, rfl⟩
    obtain rfl := Option.some.inj he
    exact ⟨v, Fault.mapError_ok_iff.1 hv, rfl⟩

/-! ## Whole types -/

namespace Property

/-- The type is over a base, with what these fields give: allowed values that are values of the type apart from that,
a default that is a value of the type, and whether a value is required, under either of two names. -/
structure Overlays (base : Property) (fields : Fields Json) (p : Property) : Prop where
  shape : Shape.Overlays base fields.get? base.shape.inherit p.shape
  allowed : Overlay (Attribute.Given p.TakesAll) (fields.get? "enum") (base.allowed.map .inherit) p.allowed
  default : Overlay (Attribute.Given fun json v => p.convert json = .ok v) (fields.get? "default")
    (base.default.map .inherit) p.default
  required : Overlay Attribute.GivenBool ((fields.get? "required").or (fields.get? "isRequired"))
    base.required.inherit p.required
  derived : p.derived = true

section Reading

variable {base p : Property} {fields : Fields Json}

/-- A definition over a base is finished with the values that were set aside. -/
theorem overlays_finish {d : Draft} (h : Draft.Overlays base fields.get? { property := base.taken } d)
    (hp : d.finish = .ok p) : base.Overlays fields p := by
  have hshape : p.shape = d.settleOpen.shape := Draft.shape_of_finish hp
  obtain ⟨hallowed, hdefault, hderived⟩ := h.values
  obtain ⟨_, q, hq, hp⟩ := Draft.finish_cases hp
  obtain ⟨hlist, hq⟩ := overlay_readAllowed hq
  obtain ⟨hvalue, hp⟩ := overlay_readDefault hp
  rw [h.allowed.eq_given] at hlist
  rw [h.default.eq_given] at hvalue
  have htakes : p.TakesAll = d.settleOpen.TakesAll := takesAll_of_shape_eq hshape
  rw [← htakes, Draft.settleOpen_eq] at hlist
  rw [Draft.settleOpen_eq] at hq
  have hqd : q.default = base.default.map .inherit := by
    rw [hq]
    exact hdefault
  have hpa : p.allowed = q.allowed := by rw [hp]
  have hps : p.shape = q.shape := by rw [hp]
  have hpr : p.required = d.property.required := by rw [hp, hq]
  have hpd : p.derived = d.property.derived := by rw [hp, hq]
  refine ⟨?_, ?_, ?_, ?_, hpd.trans hderived⟩
  · rw [hshape]
    exact h.shape
  · rw [hpa, ← show d.property.allowed = base.allowed.map .inherit from hallowed]
    exact hlist
  · rw [← hqd, convert_of_shape_eq hps hpa]
    exact hvalue
  · rw [hpr]
    exact h.required

/-- Over a base that has a type for its items, if it is an array, a definition starts with everything taken over. -/
theorem start_eq (htyped : base.shape ≠ .array none) {name : TypeName} {d : Draft}
    (h : Draft.start name (some base) = .ok d) : d = { property := base.taken } := by
  obtain ⟨q, hq, h⟩ := Fault.bind_ok_iff.1 h
  obtain rfl := Except.ok.inj h
  obtain ⟨_, ⟨rfl, _⟩ | ⟨_, _, hs, _⟩⟩ := Draft.over_cases hq
  · rfl
  · exact absurd hs htyped

/-- **A definition over a base replaces the attributes that it has, and takes the others over.** -/
theorem overlays_ofJson (htyped : base.shape ≠ .array none) (hs : Fields.Sorted fields)
    (h : Property.ofJson (some base) (.object fields) = .ok p) : base.Overlays fields p := by
  obtain ⟨_, d, d', _, hd, hd', h⟩ := ofJson_object_ok_iff.1 h
  rw [start_eq htyped hd] at hd'
  refine overlays_finish (Draft.overlays_readAll hs (fun o ho => ?_) hd') h
  have ho : base.object? = some o := (Shape.object?_inherit base.shape).symm.trans ho
  rw [ho]
  rfl

end Reading

end Property

/-! ## Marks -/

/-- The attributes of a shape are the definition's own exactly where one is given. Members and openness of an object
have one mark. -/
def Shape.Marked (given : String → Option Json) : Shape Property → Prop
  | .integer range => Attribute.isOwn range.lower = (given "minimum").isSome ∧
      Attribute.isOwn range.upper = (given "maximum").isSome
  | .number range => Attribute.isOwn range.lower = (given "minimum").isSome ∧
      Attribute.isOwn range.upper = (given "maximum").isSome
  | .boolean => True
  | .string lengths => Attribute.isOwn lengths.lower = (given "minLength").isSome ∧
      Attribute.isOwn lengths.upper = (given "maxLength").isSome
  | .object type => type.inherited = ((given "properties").isNone && (given "additionalProperties").isNone)
  | .array items => Attribute.isOwn items = (given "items").isSome

theorem Shape.Overlays.marked {base : Property} {given : String → Option Json} {s t : Shape Property}
    (h : s.inherit.Overlays base given t) : Shape.Marked given t := by
  cases s with
  | integer range => cases h with | integer range' => exact ⟨range'.lower.isOwn_eq, range'.upper.isOwn_eq⟩
  | number range => cases h with | number range' => exact ⟨range'.lower.isOwn_eq, range'.upper.isOwn_eq⟩
  | boolean => cases h with | boolean => trivial
  | string lengths => cases h with | string lengths' => exact ⟨lengths'.lower.isOwn_eq, lengths'.upper.isOwn_eq⟩
  | array items => cases h with | array items' => exact items'.isOwn_eq
  | object type => cases h with | object _ _ inherited => exact inherited

namespace Property

/-- The attributes of a type are the definition's own exactly where the fields have their keys. -/
structure Marked (fields : Fields Json) (p : Property) : Prop where
  shape : Shape.Marked fields.get? p.shape
  allowed : Attribute.isOwn p.allowed = fields.has "enum"
  default : Attribute.isOwn p.default = fields.has "default"
  required : p.required.inherited = !(fields.has "required" || fields.has "isRequired")

theorem Overlays.marked {base p : Property} {fields : Fields Json} (h : base.Overlays fields p) : p.Marked fields := by
  refine ⟨h.shape.marked, h.allowed.isOwn_eq, h.default.isOwn_eq, ?_⟩
  rw [Fields.has, Fields.has, ← Option.isSome_or]
  cases hgiven : (fields.get? "required").or (fields.get? "isRequired") with
  | some json =>
    obtain ⟨b, _, hb⟩ := h.required.read json hgiven
    rw [hb]
    rfl
  | none =>
    rw [h.required.kept hgiven]
    rfl

end Property

/-! ## Definitions that give nothing -/

theorem Attribute.map_inherit_inherit {α : Type} (a? : Option (Attribute α)) :
    (a?.map inherit).map inherit = a?.map inherit := by
  cases a? <;> rfl

theorem Shape.inherit_inherit {τ : Type} (s : Shape τ) : s.inherit.inherit = s.inherit := by
  cases s <;> simp only [Shape.inherit, Bounds.inherit, Attribute.map_inherit_inherit, Attribute.inherit_inherit]

theorem Attribute.entry_full_inherit {α : Type} (toJson : α → Json) (a? : Option (Attribute α)) :
    entry .full toJson (a?.map inherit) = entry .full toJson a? := by
  cases a? <;> rfl

theorem Shape.outline_full_inherit (s : Shape Json) : s.inherit.outline .full = s.outline .full := by
  cases s with
  | integer range => simp only [Shape.inherit, outline, Bounds.inherit, Attribute.entry_full_inherit]
  | number range => simp only [Shape.inherit, outline, Bounds.inherit, Attribute.entry_full_inherit]
  | boolean => rfl
  | string lengths => simp only [Shape.inherit, outline, Bounds.inherit, Attribute.entry_full_inherit]
  | object type => rfl
  | array items => simp only [Shape.inherit, outline, Attribute.entry_full_inherit]

namespace Property

theorem bare_taken (p : Property) : p.taken.bare = p.bare := by
  rw [bare_eq, bare_eq]
  have hshape : (p.taken.shape.map bare).inherit = (p.shape.map bare).inherit := by
    show (p.shape.inherit.map bare).inherit = _
    rw [← Shape.inherit_map, Shape.inherit_inherit]
  have hallowed : p.taken.allowed.map Attribute.inherit = p.allowed.map Attribute.inherit :=
    Attribute.map_inherit_inherit p.allowed
  have hdefault : p.taken.default.map Attribute.inherit = p.default.map Attribute.inherit :=
    Attribute.map_inherit_inherit p.default
  rw [hshape, hallowed, hdefault]
  rfl

theorem typeName_taken (p : Property) : p.taken.typeName = p.typeName := by
  rw [← typeName_bare, bare_taken, typeName_bare]

theorem convert_taken (p : Property) : p.taken.convert = p.convert := by
  rw [← convert_bare, bare_taken, convert_bare]

theorem hasOwn_taken (p : Property) : p.taken.hasOwn = false := by
  simp [hasOwn, taken, Attribute.inherit]

theorem toJson_minimal_taken (p : Property) : p.taken.toJson .minimal = .object [] := by
  rw [toJson_minimal, if_pos p.hasOwn_taken]
  rfl

theorem toJson_full_taken (p : Property) : p.taken.toJson .full = p.toJson .full := by
  have hkind : p.taken.kind = p.kind := Shape.kind_inherit p.shape
  have houtline : p.taken.outline .full ((p.shape.map (Property.toJson .full)).inherit) =
      p.outline .full (p.shape.map (Property.toJson .full)) := by
    have hallowed :
        Attribute.entry .full allowedToJson p.taken.allowed = Attribute.entry .full allowedToJson p.allowed :=
      Attribute.entry_full_inherit ..
    have hdefault : Attribute.entry .full Value.toJson p.taken.default = Attribute.entry .full Value.toJson p.default :=
      Attribute.entry_full_inherit ..
    rw [Property.outline, Property.outline, Shape.outline_full_inherit, hallowed, hdefault]
    rfl
  rw [toJson_eq, toJson_eq, p.typeName_taken]
  show p.taken.write .full p.typeName (p.shape.inherit.map _) = _
  rw [← Shape.inherit_map, write, write, houtline, hkind]

/-- A type that is read has limits that leave room for values, and a type for its items. -/
theorem checkShape_of_ofJson {base : Option Property} {json : Json} {p : Property}
    (h : Property.ofJson base json = .ok p) : p.checkShape = .ok () := by
  obtain ⟨_, _, d, _, _, _, hd⟩ := exists_draft_of_ofJson h
  exact (checkShape_of_shape_eq (Draft.shape_of_finish hd)).trans (Draft.finish_cases hd).1

/-- An array that is read has a type for its items. -/
theorem typed_of_ofJson {base : Option Property} {json : Json} {p : Property} (h : Property.ofJson base json = .ok p) :
    p.shape ≠ .array none := by
  intro hs
  have hcheck := checkShape_of_ofJson h
  rw [checkShape, hs] at hcheck
  cases hcheck

theorem Read.exists_ofJson {bases : List Property} {p : Property} (h : Read bases p) :
    ∃ json, Property.ofJson bases.head? json = .ok p := by
  cases h with
  | plain _ h => exact ⟨_, h⟩
  | derived _ _ h => exact ⟨_, h⟩

theorem Read.typed {bases : List Property} {p : Property} (h : Read bases p) : p.shape ≠ .array none :=
  let ⟨_, h⟩ := h.exists_ofJson
  typed_of_ofJson h

/-- **A definition without attributes gives the base, with everything taken over.** -/
theorem ofJson_empty {base : Property} (h : base.checkShape = .ok ()) :
    Property.ofJson (some base) (.object []) = .ok base.taken := by
  have htype : Definition.typeOf (some base) [] = .ok base.typeName := rfl
  have hcheck : base.taken.checkShape = .ok () := by
    rw [← checkShape_bare, bare_taken, checkShape_bare]
    exact h
  rw [Property.ofJson, htype]
  show (Draft.start base.typeName (some base) >>= fun d => Draft.readAll (some base) d [] >>= Draft.finish) = _
  rw [Draft.start_typeName]
  show Draft.readAll (some base) { property := base.taken } [] >>= Draft.finish = _
  rw [Draft.readAll]
  show Draft.finish { property := base.taken } = _
  exact Fault.bind_ok_iff.2 ⟨(), hcheck, rfl⟩

end Property

/-! ## Chains of definitions -/

/-- **A type over a base, attribute by attribute.** A definition with attributes, read over a base, gives those that it
has keys for and takes the others over, and just the first ones are marked as its own. A definition without attributes
gives a type that is the same as the base, with the same full form, the empty minimal form, and the same answer to
every value. -/
theorem Property.Read.overlays_spec {bases : List Property} {base : Property} (hb : Read bases base) :
    (∀ fields p, Fields.Sorted fields → Property.ofJson (some base) (.object fields) = .ok p →
      base.Overlays fields p ∧ p.Marked fields) ∧
    ∃ p, Property.ofJson (some base) (.object []) = .ok p ∧ p.same base = true ∧
      p.toJson .full = base.toJson .full ∧ p.toJson .minimal = .object [] ∧ p.convert = base.convert := by
  obtain ⟨_, hbase⟩ := hb.exists_ofJson
  have hcheck : base.checkShape = .ok () := checkShape_of_ofJson hbase
  refine ⟨fun fields p hs h => ?_, base.taken, ofJson_empty hcheck, same_of_bare_eq base.bare_taken,
    base.toJson_full_taken, base.toJson_minimal_taken, base.convert_taken⟩
  have hoverlays := overlays_ofJson hb.typed hs h
  exact ⟨hoverlays, hoverlays.marked⟩

/-- A definition with a maximum takes the minimum and the default over. -/
theorem Property.Read.overlays_spec_maximum : ∃ b p,
    Property.ofJson none (.object [("default", .integer 5), ("minimum", .integer 0)]) = .ok b ∧
    Property.ofJson (some b) (.object [("isRequired", .bool true), ("maximum", .integer 8)]) = .ok p ∧
    b.Overlays [("isRequired", .bool true), ("maximum", .integer 8)] p ∧
    p.Marked [("isRequired", .bool true), ("maximum", .integer 8)] ∧
    p.shape = .integer ⟨some ⟨0, true⟩, some ⟨8, false⟩⟩ ∧ p.default = some ⟨.integer 5, true⟩ ∧
    p.required = ⟨true, false⟩ ∧
    ∃ q, Property.ofJson (some b) (.object []) = .ok q ∧ q.same b = true ∧ q.toJson .minimal = .object [] := by
  let b : Property := ⟨.integer ⟨some (.own 0), none⟩, none, some (.own (.integer 5)), ⟨false, true⟩, false⟩
  let p : Property := ⟨.integer ⟨some ⟨0, true⟩, some (.own 8)⟩, none, some ⟨.integer 5, true⟩, .own true, true⟩
  have hb : Property.ofJson none (.object [("default", .integer 5), ("minimum", .integer 0)]) = .ok b := rfl
  have hp : Property.ofJson (some b) (.object [("isRequired", .bool true), ("maximum", .integer 8)]) = .ok p := rfl
  have hread : Read [] b := by
    refine .plain ?_ hb
    exact ⟨List.pairwise_pair.2 (by decide), trivial, trivial, trivial⟩
  have hs : Fields.Sorted [("isRequired", Json.bool true), ("maximum", .integer 8)] :=
    List.pairwise_pair.2 (by decide)
  obtain ⟨hall, q, hq, hsame, _, hminimal, _⟩ := overlays_spec hread
  obtain ⟨hoverlays, hmarked⟩ := hall _ p hs hp
  exact ⟨b, p, hb, hp, hoverlays, hmarked, rfl, rfl, rfl, q, hq, hsame, hminimal⟩

end Capability
