import Capability.Proofs.Fields
import Capability.Schema.Property
import Mathlib.Logic.Relation

/-!
# The parts of a type

The types of the items and of the members of a type are its children. A type is larger than its children, so what
passes from all children to their parent holds of every type (`Property.byChildren`). The parts of a type are the
type itself and the parts of its children.

A function on types that keeps the shape acts on the children through `Shape.map`.
-/

namespace Capability

/-! ## Shapes with other types inside -/

section Map

variable {σ τ υ : Type}

/-- The object type with the types of its members seen through a function. -/
def ObjectOf.map (f : σ → τ) (o : ObjectOf σ) : ObjectOf τ :=
  ⟨Fields.mapValues f o.properties, o.isOpen⟩

/-- The shape with the types inside it seen through a function. -/
def Shape.map (f : σ → τ) : Shape σ → Shape τ
  | .integer range => .integer range
  | .number range => .number range
  | .boolean => .boolean
  | .string lengths => .string lengths
  | .object type => .object (type.map (ObjectOf.map f))
  | .array items => .array (items.map (Attribute.map f))

theorem Shape.inherit_map (f : σ → τ) (s : Shape σ) : (s.map f).inherit = s.inherit.map f := by
  cases s with
  | array items => cases items <;> rfl
  | _ => rfl

end Map

namespace Property

/-! ## Children -/

/-- The type of the items of an array, or of a member of an object. -/
inductive Child : Property → Property → Prop
  | items {p q : Property} (h : p.items? = some q) : Child q p
  | member {p q : Property} {o : ObjectType} {name : String} (ho : p.object? = some o)
      (hm : (name, q) ∈ o.properties) : Child q p

theorem items?_eq_some_iff {p q : Property} :
    p.items? = some q ↔ ∃ inherited, p.shape = .array (some ⟨q, inherited⟩) := by
  obtain ⟨shape, _, _, _, _⟩ := p
  constructor
  · intro h
    cases shape with
    | array items =>
      obtain ⟨⟨q', inherited⟩, ha, rfl⟩ := Option.map_eq_some_iff.1 h
      exact ⟨inherited, by rw [ha]⟩
    | _ => cases h
  · rintro ⟨inherited, rfl⟩
    rfl

theorem object?_eq_some_iff {p : Property} {o : ObjectType} :
    p.object? = some o ↔ ∃ inherited, p.shape = .object ⟨o, inherited⟩ := by
  obtain ⟨shape, _, _, _, _⟩ := p
  constructor
  · intro h
    cases shape with
    | object type => exact ⟨type.inherited, by rw [← Option.some.inj h]⟩
    | _ => cases h
  · rintro ⟨inherited, rfl⟩
    rfl

theorem exists_array_of_kind {p : Property} (hk : p.kind = .array) : ∃ items, p.shape = .array items := by
  obtain ⟨shape, _, _, _, _⟩ := p
  cases shape with
  | array items => exact ⟨items, rfl⟩
  | _ => cases hk

/-- An array whose items have no type is bare. -/
theorem array_none_of_items? {p : Property} (hk : p.kind = .array) (hi : p.items? = none) : p.shape = .array none := by
  obtain ⟨items, hs⟩ := exists_array_of_kind hk
  cases items with
  | none => exact hs
  | some items =>
    rw [items?, hs] at hi
    cases hi

theorem sizeOf_lt_of_child {p q : Property} (h : Child q p) : sizeOf q < sizeOf p := by
  obtain ⟨shape, _, _, _, _⟩ := p
  cases h with
  | items h =>
    obtain ⟨_, rfl⟩ := items?_eq_some_iff.1 h
    simp +arith
  | @member _ _ o name ho hm =>
    obtain ⟨_, rfl⟩ := object?_eq_some_iff.1 ho
    have hlt := List.sizeOf_lt_of_mem hm
    obtain ⟨properties, isOpen⟩ := o
    simp +arith at hlt ⊢
    omega

/-- **Induction over the parts of a type.** -/
theorem byChildren {motive : Property → Prop} (step : ∀ p, (∀ q, Child q p → motive q) → motive p)
    (p : Property) : motive p :=
  step p fun q _ => byChildren step q
termination_by sizeOf p
decreasing_by exact sizeOf_lt_of_child ‹_›

/-! ## Parts -/

/-- Whether the first type occurs in the second, at any depth. -/
def Part (q p : Property) : Prop :=
  Relation.ReflTransGen Child q p

theorem Part.refl (p : Property) : Part p p := Relation.ReflTransGen.refl

theorem Part.trans {r q p : Property} (h : Part r q) (h' : Part q p) : Part r p :=
  Relation.ReflTransGen.trans h h'

theorem Child.part {q p : Property} (h : Child q p) : Part q p := Relation.ReflTransGen.single h

/-- A part is the type itself or a part of a child. -/
theorem Part.cases {r p : Property} (h : Part r p) : r = p ∨ ∃ q, Child q p ∧ Part r q := by
  rcases Relation.ReflTransGen.cases_tail h with h | ⟨q, hr, hq⟩
  · exact Or.inl h.symm
  · exact Or.inr ⟨q, hq, hr⟩

/-- A type without types inside is its only part. -/
theorem Part.eq_of_leaf {r p : Property} (h : Part r p) (hi : p.items? = none) (ho : p.object? = none) : r = p := by
  rcases h.cases with rfl | ⟨q, hq, _⟩
  · rfl
  · cases hq with
    | items h => exact absurd (hi.symm.trans h) (by simp)
    | member h => exact absurd (ho.symm.trans h) (by simp)

/-! ## Initial values -/

theorem initialMembers_eq_mapValues (properties : Fields Property) :
    initialMembers properties = properties.mapValues initial := by
  induction properties with
  | nil => rfl
  | cons m rest ih =>
    rw [initialMembers, ih]
    rfl

end Property

end Capability
