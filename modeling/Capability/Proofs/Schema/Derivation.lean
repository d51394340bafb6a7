import Capability.Proofs.Schema.Conversion
import Capability.Schema.Definition

/-!
# What a definition makes of its base

`RestsOn base p` says how a type `p` may come from a base: each attribute is given by the definition itself or is that
of the base, the allowed values and the default that it gives are values of the type, and each type inside a part that
it gives rests on the type in the same place of the base. Without a base the attributes that are not given are those
of the bare kind.

* `RestsOn.self`: a type that rests on something rests on itself. This is how the members of the base come back in an
  object type that a definition only opens or closes.
* `WellFormed.opens_taken`: a definition starts as its base, with every attribute taken over.
* `Opens.setShape`, `Opens.setRequired`: what a definition may change before it gives values.
-/

namespace Capability

/-! ## Attributes that are given or taken over -/

namespace Attribute

variable {α : Type}

/-- The attribute is given, or is that of the base. -/
def From (a? base? : Option (Attribute α)) : Prop :=
  isOwn a? = true ∨ a?.map (·.value) = base?.map (·.value)

theorem From.refl (a? : Option (Attribute α)) : From a? a? := Or.inr rfl

theorem From.own (v : α) (base? : Option (Attribute α)) : From (some (.own v)) base? := Or.inl rfl

theorem From.inherit (a? : Option (Attribute α)) : From (a?.map inherit) a? :=
  Or.inr (by cases a? <;> rfl)

/-- An attribute that is not given is that of the base. -/
theorem From.inherit_eq {a? base? : Option (Attribute α)} (h : From a? base?) (ho : isOwn a? = false) :
    a?.map Attribute.inherit = base?.map Attribute.inherit := by
  have hv : a?.map (·.value) = base?.map (·.value) := by
    rcases h with h | h
    · rw [h] at ho
      cases ho
    · exact h
  have hm := congrArg (Option.map fun v => Attribute.inherit ⟨v, true⟩) hv
  rwa [Option.map_map, Option.map_map] at hm

/-- It does not matter where the base has the attribute from. -/
theorem From.map_inherit {a? base? : Option (Attribute α)} (h : From a? base?) :
    From a? (base?.map Attribute.inherit) := by
  rcases h with h | h
  · exact .inl h
  · refine .inr (h.trans ?_)
    cases base? <;> rfl

end Attribute

namespace Bounds

variable {α : Type}

/-- Each limit is given, or is that of the base. -/
def From (b base : Bounds α) : Prop :=
  Attribute.From b.lower base.lower ∧ Attribute.From b.upper base.upper

theorem From.refl (b : Bounds α) : From b b := ⟨.refl _, .refl _⟩

theorem From.inherit (b : Bounds α) : From b.inherit b := ⟨.inherit _, .inherit _⟩

theorem From.setLower {b base : Bounds α} (h : From b base) (limit : α) : From (b.setLower limit) base :=
  ⟨.own _ _, h.2⟩

theorem From.setUpper {b base : Bounds α} (h : From b base) (limit : α) : From (b.setUpper limit) base :=
  ⟨h.1, .own _ _⟩

theorem From.inherit_eq {b base : Bounds α} (h : b.From base) (ho : b.hasOwn = false) :
    Bounds.inherit b = Bounds.inherit base := by
  obtain ⟨hl, hu⟩ := Bool.or_eq_false_iff.1 ho
  rw [Bounds.inherit, Bounds.inherit, Attribute.From.inherit_eq h.1 hl, Attribute.From.inherit_eq h.2 hu]

theorem From.map_inherit {b base : Bounds α} (h : b.From base) : b.From (Bounds.inherit base) :=
  ⟨h.1.map_inherit, h.2.map_inherit⟩

end Bounds

namespace Shape

variable {τ : Type}

/-- The shapes are of one kind, and what is particular to the kind is given or is that of the base. -/
def From : Shape τ → Shape τ → Prop
  | .integer a, .integer b => a.From b
  | .number a, .number b => a.From b
  | .boolean, .boolean => True
  | .string a, .string b => a.From b
  | .object a, .object b => Attribute.From (some a) (some b)
  | .array a, .array b => Attribute.From a b
  | _, _ => False

theorem From.refl (s : Shape τ) : From s s := by
  cases s with
  | integer range => exact Bounds.From.refl range
  | number range => exact Bounds.From.refl range
  | boolean => trivial
  | string lengths => exact Bounds.From.refl lengths
  | object type => exact Attribute.From.refl _
  | array items => exact Attribute.From.refl items

theorem From.inherit (s : Shape τ) : From s.inherit s := by
  cases s with
  | integer range => exact Bounds.From.inherit range
  | number range => exact Bounds.From.inherit range
  | boolean => trivial
  | string lengths => exact Bounds.From.inherit lengths
  | object type => exact Attribute.From.inherit (some type)
  | array items => exact Attribute.From.inherit items

theorem From.kind_eq {s t : Shape τ} (h : From s t) : s.kind = t.kind := by
  cases s <;> cases t <;> first | rfl | exact h.elim

theorem From.ownItems (q : τ) {t : Shape τ} (hk : t.kind = .array) : From (.array (some (.own q))) t := by
  cases t with
  | array items => exact .own q items
  | _ => cases hk

theorem From.ownObject (o : ObjectOf τ) {t : Shape τ} (hk : t.kind = .object) : From (.object (.own o)) t := by
  cases t with
  | object type => exact .own o (some type)
  | _ => cases hk

/-- The items have the type that the definition gives them, or the one of the base. -/
theorem From.items?_eq {s t : Shape τ} (h : From s t) :
    (∃ q, s = .array (some ⟨q, false⟩)) ∨ s.items? = t.items? := by
  cases s with
  | array items =>
    cases t with
    | array items' =>
      rcases h with h | h
      · cases items with
        | none => cases h
        | some a =>
          obtain ⟨q, inherited⟩ := a
          obtain rfl : inherited = false := by simpa [Attribute.isOwn] using h
          exact .inl ⟨q, rfl⟩
      · exact .inr h
    | _ => exact h.elim
  | _ => cases t <;> first | exact .inr rfl | exact h.elim

/-- An object has the type that the definition gives it, or the one of the base. -/
theorem From.object?_eq {s t : Shape τ} (h : From s t) : (∃ o, s = .object ⟨o, false⟩) ∨ s.object? = t.object? := by
  cases s with
  | object type =>
    cases t with
    | object type' =>
      obtain ⟨o, inherited⟩ := type
      rcases h with h | h
      · obtain rfl : inherited = false := by simpa [Attribute.isOwn] using h
        exact .inl ⟨o, rfl⟩
      · exact .inr h
    | _ => exact h.elim
  | _ => cases t <;> first | exact .inr rfl | exact h.elim

/-- A shape with nothing of its own is that of the base. -/
theorem From.inherit_eq {s t : Shape τ} (h : s.From t) (ho : s.hasOwn = false) :
    Shape.inherit s = Shape.inherit t := by
  cases s <;> cases t <;> first | exact h.elim | skip
  case integer a b => exact congrArg Shape.integer (Bounds.From.inherit_eq h ho)
  case number a b => exact congrArg Shape.number (Bounds.From.inherit_eq h ho)
  case boolean => rfl
  case string a b => exact congrArg Shape.string (Bounds.From.inherit_eq h ho)
  case object a b =>
    have ho : Attribute.isOwn (some a) = false := ho
    exact congrArg Shape.object (Option.some.inj (Attribute.From.inherit_eq h ho))
  case array a b => exact congrArg Shape.array (Attribute.From.inherit_eq h ho)

/-- It does not matter where the base has its limits from. -/
theorem From.map_inherit {s t : Shape τ} (h : s.From t) : s.From (Shape.inherit t) := by
  cases s <;> cases t <;> first | exact h.elim | skip
  case integer a b => exact Bounds.From.map_inherit h
  case number a b => exact Bounds.From.map_inherit h
  case boolean => trivial
  case string a b => exact Bounds.From.map_inherit h
  case object a b => exact Attribute.From.map_inherit h
  case array a b => exact Attribute.From.map_inherit h

end Shape

namespace Property

/-! ## Resting on a base -/

/-- What the attributes are without a definition: the base, or else the bare kind. -/
def ground (base : Option Property) (kind : Kind) : Property :=
  base.getD (.ofTypeName (.plain kind))

/-- The type may come from the base by a definition. -/
inductive RestsOn : Option Property → Property → Prop
  | intro {base : Option Property} {p : Property}
      (shape : p.shape.From (ground base p.kind).shape)
      (allowed : Attribute.From p.allowed (ground base p.kind).allowed)
      (default : Attribute.From p.default (ground base p.kind).default)
      (required : Attribute.From (some p.required) (some (ground base p.kind).required))
      (derived : p.derived = true → base ≠ none)
      (plain : p.derived = false → ∀ items, p.shape = .array (some items) → items.inherited = false)
      (sorted : p.MembersSorted)
      (ownAllowed : ∀ list, p.allowed = some ⟨list, false⟩ →
        list ≠ [] ∧ ∀ v ∈ list, ∃ json, p.shape.convert json = .ok v)
      (ownDefault : ∀ v, p.default = some ⟨v, false⟩ → ∃ json, p.convert json = .ok v)
      (items : ∀ q, p.shape = .array (some ⟨q, false⟩) → RestsOn (base.bind items?) q)
      (members : ∀ o, p.shape = .object ⟨o, false⟩ → ∀ name q, (name, q) ∈ o.properties →
        RestsOn ((base.bind object?).bind (·.get? name)) q) : RestsOn base p

/-- The limits of the type leave room for values. Where the type of the items is missing there is nothing to check. -/
def Checked (p : Property) : Prop :=
  p.shape ≠ .array none → p.checkShape = .ok ()

/-- Every part of the type rests on something, and its limits leave room for values. -/
def WellFormed (p : Property) : Prop :=
  ∀ q, Part q p → (∃ base, RestsOn base q) ∧ q.Checked

theorem WellFormed.part {p q : Property} (h : p.WellFormed) (hq : Part q p) : q.WellFormed :=
  fun r hr => h r (hr.trans hq)

theorem WellFormed.child {p q : Property} (h : p.WellFormed) (hq : Child q p) : q.WellFormed :=
  h.part hq.part

theorem WellFormed.of_children {base : Option Property} {p : Property} (h : RestsOn base p) (hc : p.Checked)
    (hs : ∀ q, Child q p → q.WellFormed) : p.WellFormed := by
  intro r hr
  rcases hr.cases with rfl | ⟨q, hq, hr⟩
  · exact ⟨⟨base, h⟩, hc⟩
  · exact hs q hq r hr

/-- A type that rests on something rests on itself. -/
theorem RestsOn.self {base : Option Property} {p : Property} (h : RestsOn base p) : RestsOn (some p) p := by
  induction h with
  | @intro base p _ _ _ _ _ plain sorted ownAllowed ownDefault _ _ ihItems ihMembers =>
    refine .intro (.refl _) (.refl _) (.refl _) (.refl _) (fun _ he => by cases he) plain sorted ownAllowed ownDefault
      (fun q hq => ?_) fun o ho name q hq => ?_
    · have hi : p.items? = some q := items?_eq_some_iff.2 ⟨false, hq⟩
      rw [Option.bind_some, hi]
      exact ihItems q hq
    · have hi : p.object? = some o := object?_eq_some_iff.2 ⟨false, ho⟩
      have hget : ObjectType.get? o name = some q := (sorted o hi).get?_of_mem hq
      rw [Option.bind_some, hi, Option.bind_some, hget]
      exact ihMembers o ho name q hq

/-! ## Types inside a type -/

section Inside

variable {base : Option Property} {p : Property}

theorem RestsOn.ground_kind (h : RestsOn base p) : (ground base p.kind).kind = p.kind := by
  cases h with
  | intro shape => exact shape.kind_eq.symm

theorem RestsOn.membersSorted (h : RestsOn base p) : p.MembersSorted := by
  cases h with
  | intro _ _ _ _ _ _ sorted => exact sorted

/-- The members are in order in every part of a type. -/
theorem WellFormed.membersSorted (h : p.WellFormed) {r : Property} (hr : Part r p) : r.MembersSorted := by
  obtain ⟨⟨_, hrests⟩, _⟩ := h r hr
  exact hrests.membersSorted

theorem RestsOn.allowed_own (h : RestsOn base p) {list : List Value} (ha : p.allowed = some ⟨list, false⟩) :
    list ≠ [] ∧ ∀ v ∈ list, ∃ json, p.shape.convert json = .ok v := by
  cases h with
  | intro _ _ _ _ _ _ _ ownAllowed => exact ownAllowed list ha

theorem RestsOn.default_own (h : RestsOn base p) {v : Value} (hd : p.default = some ⟨v, false⟩) :
    ∃ json, p.convert json = .ok v := by
  cases h with
  | intro _ _ _ _ _ _ _ _ ownDefault => exact ownDefault v hd

theorem RestsOn.items_own (h : RestsOn base p) {q : Property} (hs : p.shape = .array (some ⟨q, false⟩)) :
    RestsOn (base.bind items?) q := by
  cases h with
  | intro _ _ _ _ _ _ _ _ _ items => exact items q hs

theorem RestsOn.member_own (h : RestsOn base p) {o : ObjectType} (hs : p.shape = .object ⟨o, false⟩) {name : String}
    {q : Property} (hq : (name, q) ∈ o.properties) : RestsOn ((base.bind object?).bind (·.get? name)) q := by
  cases h with
  | intro _ _ _ _ _ _ _ _ _ _ members => exact members o hs name q hq

theorem WellFormed.rests_self (h : p.WellFormed) : RestsOn (some p) p := by
  obtain ⟨⟨_, hr⟩, _⟩ := h p (.refl p)
  exact hr.self

/-- The type of the items rests on that of the base, whether it is given or taken over. -/
theorem RestsOn.of_items (h : RestsOn base p) (hb : ∀ c, base = some c → c.WellFormed) {q : Property}
    (hq : p.items? = some q) : RestsOn (base.bind items?) q := by
  cases id h with
  | intro shape =>
    rcases shape.items?_eq with ⟨q', hq'⟩ | he
    · obtain rfl : q' = q := Option.some.inj ((items?_eq_some_iff.2 ⟨false, hq'⟩).symm.trans hq)
      exact h.items_own hq'
    · rw [show p.shape.items? = some q from hq] at he
      cases base with
      | none => cases hk : p.kind <;> (rw [hk] at he; cases he)
      | some c =>
        have hc : c.items? = some q := he.symm
        rw [Option.bind_some, hc]
        exact ((hb c rfl).child (.items hc)).rests_self

/-- The type of a member rests on that of its name in the base, whether the object type is given or taken over. -/
theorem RestsOn.of_member (h : RestsOn base p) (hb : ∀ c, base = some c → c.WellFormed) {o : ObjectType}
    (ho : p.object? = some o) {name : String} {q : Property} (hq : (name, q) ∈ o.properties) :
    RestsOn ((base.bind object?).bind (·.get? name)) q := by
  have hsorted : Fields.Sorted o.properties := h.membersSorted o ho
  cases id h with
  | intro shape =>
    rcases shape.object?_eq with ⟨o', ho'⟩ | he
    · obtain rfl : o' = o := Option.some.inj ((object?_eq_some_iff.2 ⟨false, ho'⟩).symm.trans ho)
      exact h.member_own ho' hq
    · rw [show p.shape.object? = some o from ho] at he
      cases base with
      | none =>
        -- the bare object type has no members
        cases hk : p.kind <;> rw [hk] at he <;> cases he
        cases hq
      | some c =>
        have hc : c.object? = some o := he.symm
        have hget : ObjectType.get? o name = some q := hsorted.get?_of_mem hq
        rw [Option.bind_some, hc, Option.bind_some, hget]
        exact ((hb c rfl).child (.member hc hq)).rests_self

/-- **What a type has as soon as its base and the types inside it have it, all of its parts have**, if all parts of the
base do. -/
theorem RestsOn.forall_part {P : Property → Prop} {p : Property} : ∀ {base : Option Property}, RestsOn base p →
    p.WellFormed → (∀ c, base = some c → c.WellFormed ∧ ∀ r, Part r c → P r) →
    (∀ b r, Part r p → RestsOn b r → (∀ c, b = some c → P c) → (∀ q s, Child q r → Part s q → P s) → P r) →
      ∀ r, Part r p → P r := by
  induction p using byChildren with
  | step p ih =>
    intro base h hw hb step
    have hbw : ∀ c, base = some c → c.WellFormed := fun c hc => (hb c hc).1
    -- the types inside rest on the types in the same places of the base
    have hinside : ∀ q r, Child q p → Part r q → P r := by
      intro q r hq hr
      have hstep : ∀ b r, Part r q → RestsOn b r → (∀ c, b = some c → P c) →
          (∀ q s, Child q r → Part s q → P s) → P r := fun b r hr => step b r (hr.trans hq.part)
      have hin : ∀ {c q'}, base = some c → Child q' c → q'.WellFormed ∧ ∀ r, Part r q' → P r := by
        intro c q' hc hq'
        exact ⟨(hbw c hc).child hq', fun r hr => (hb c hc).2 r (hr.trans hq'.part)⟩
      cases hq with
      | items hi =>
        refine ih q (.items hi) (h.of_items hbw hi) (hw.child (.items hi)) (fun c hc => ?_) hstep r hr
        obtain ⟨b, hb, hc⟩ := Option.bind_eq_some_iff.1 hc
        exact hin hb (.items hc)
      | member ho hm =>
        refine ih q (.member ho hm) (h.of_member hbw ho hm) (hw.child (.member ho hm)) (fun c hc => ?_) hstep r hr
        obtain ⟨o, ho, hc⟩ := Option.bind_eq_some_iff.1 hc
        obtain ⟨b, hb, ho⟩ := Option.bind_eq_some_iff.1 ho
        exact hin hb (.member ho (Fields.mem_of_get? hc))
    intro r hr
    rcases hr.cases with rfl | ⟨q, hq, hr⟩
    · exact step base r (.refl r) h (fun c hc => (hb c hc).2 c (.refl c)) hinside
    · exact hinside q r hq hr

end Inside

/-! ## Types without limits -/

@[simp] theorem typeName_ofTypeName (name : TypeName) : (ofTypeName name).typeName = name := by
  induction name with
  | plain kind => cases kind <;> rfl
  | arrayOf items ih => exact congrArg TypeName.arrayOf ih

theorem restsOn_ofTypeName (name : TypeName) : RestsOn none (ofTypeName name) := by
  induction name with
  | plain kind =>
    have hk : (ofTypeName (.plain kind)).kind = kind := Shape.kind_ofKind kind
    refine .intro ?_ ?_ ?_ ?_ (fun h => by cases h) (fun _ items h => ?_) (fun o ho => ?_) (fun _ h => by cases h)
      (fun _ h => by cases h) (fun q h => ?_) fun o h => ?_
    · rw [hk]
      exact .refl _
    · exact .refl _
    · exact .refl _
    · exact .refl _
    · cases kind <;> cases h
    · obtain ⟨_, ho⟩ := object?_eq_some_iff.1 ho
      cases kind <;> cases ho
      exact Fields.sorted_nil
    · cases kind <;> cases h
    · cases kind <;> cases h
  | arrayOf items ih =>
    refine .intro (.inl rfl) (.refl _) (.refl _) (.refl _) (fun h => by cases h) (fun _ items h => ?_) (fun o ho => ?_)
      (fun _ h => by cases h) (fun _ h => by cases h) (fun q h => ?_) fun o h => by cases h
    · cases h
      rfl
    · cases ho
    · cases h
      exact ih

theorem checked_ofTypeName (name : TypeName) : (ofTypeName name).Checked := by
  intro h
  cases name with
  | plain kind =>
    cases kind with
    | array => exact absurd rfl h
    | _ => rfl
  | arrayOf items => rfl

theorem wellFormed_ofTypeName (name : TypeName) : (ofTypeName name).WellFormed := by
  induction name with
  | plain kind =>
    refine .of_children (restsOn_ofTypeName _) (checked_ofTypeName _) fun q hq => ?_
    cases hq with
    | items h =>
      obtain ⟨_, h⟩ := items?_eq_some_iff.1 h
      cases kind <;> cases h
    | member ho hm =>
      obtain ⟨_, ho⟩ := object?_eq_some_iff.1 ho
      cases kind <;> cases ho
      cases hm
  | arrayOf items ih =>
    refine .of_children (restsOn_ofTypeName _) (checked_ofTypeName _) fun q hq => ?_
    cases hq with
    | items h =>
      obtain ⟨_, h⟩ := items?_eq_some_iff.1 h
      cases h
      exact ih
    | member ho _ => cases ho

/-! ## Changes of single attributes -/

section Changes

variable {base : Option Property} {p : Property}

/-- The type with another shape, while no values are given. -/
theorem RestsOn.setShape (h : RestsOn base p) (ha : Attribute.isOwn p.allowed = false)
    (hd : Attribute.isOwn p.default = false) {s : Shape Property} (hs : s.From (ground base p.kind).shape)
    (plain : ∀ items, s = .array (some items) → items.inherited = false)
    (sorted : ∀ o inherited, s = .object ⟨o, inherited⟩ → Fields.Sorted o.properties)
    (items : ∀ q, s = .array (some ⟨q, false⟩) → RestsOn (base.bind items?) q)
    (members : ∀ o, s = .object ⟨o, false⟩ → ∀ name q, (name, q) ∈ o.properties →
      RestsOn ((base.bind object?).bind (·.get? name)) q) : RestsOn base { p with shape := s } := by
  have hk : s.kind = p.kind := hs.kind_eq.trans h.ground_kind
  cases h with
  | intro _ allowed default required derived _ _ _ _ _ _ =>
    have hg : ground base (Property.kind { p with shape := s }) = ground base p.kind := congrArg (ground base) hk
    refine .intro (hg ▸ hs) (hg ▸ allowed) (hg ▸ default) (hg ▸ required) derived (fun _ => plain) (fun o ho => ?_)
      (fun list hl => ?_) (fun v hv => ?_) items members
    · obtain ⟨inherited, ho⟩ := object?_eq_some_iff.1 ho
      exact sorted o inherited ho
    · rw [show p.allowed = some ⟨list, false⟩ from hl] at ha
      cases ha
    · rw [show p.default = some ⟨v, false⟩ from hv] at hd
      cases hd

theorem RestsOn.setRequired (h : RestsOn base p) (required : Bool) : RestsOn base (p.setRequired required) := by
  cases h with
  | intro shape allowed default _ derived plain sorted ownAllowed ownDefault items members =>
    refine .intro shape allowed default (.own _ _) derived plain sorted ownAllowed (fun v hv => ?_) items members
    obtain ⟨json, hjson⟩ := ownDefault v hv
    exact ⟨json, convert_ok_iff.2 ((convert_ok_iff (p := p)).1 hjson)⟩

theorem RestsOn.setAllowed (h : RestsOn base p) (hd : Attribute.isOwn p.default = false) {list : List Value}
    (hne : list ≠ []) (hlist : ∀ v ∈ list, ∃ json, p.shape.convert json = .ok v) :
    RestsOn base { p with allowed := some (.own list) } := by
  cases h with
  | intro shape allowed default required derived plain sorted ownAllowed ownDefault items members =>
    refine .intro shape (.own _ _) default required derived plain sorted (fun list' hl => ?_) (fun v hv => ?_) items
      members
    · cases hl
      exact ⟨hne, hlist⟩
    · rw [show p.default = some ⟨v, false⟩ from hv] at hd
      cases hd

theorem RestsOn.setDefault (h : RestsOn base p) {v : Value} {json : Json} (hv : p.convert json = .ok v) :
    RestsOn base { p with default := some (.own v) } := by
  cases h with
  | intro shape allowed default required derived plain sorted ownAllowed ownDefault items members =>
    refine .intro shape allowed (.own _ _) required derived plain sorted ownAllowed (fun w hw => ?_) items members
    cases hw
    exact ⟨json, convert_ok_iff.2 ((convert_ok_iff (p := p)).1 hv)⟩

end Changes

end Property

/-! ## Definitions that give no values yet -/

open Property

/-- A type rests on the base, and its definition gives no values yet. -/
structure Property.Opens (base : Option Property) (p : Property) : Prop where
  rests : RestsOn base p
  children : ∀ q, Child q p → q.WellFormed
  allowed : Attribute.isOwn p.allowed = false
  default : Attribute.isOwn p.default = false

/-- The base as a derived definition takes it over. -/
def Property.taken (c : Property) : Property :=
  ⟨c.shape.inherit, c.allowed.map .inherit, c.default.map .inherit, c.required.inherit, true⟩

theorem Property.child_taken_iff {c q : Property} : Child q c.taken ↔ Child q c := by
  have hi : c.taken.items? = c.items? := Shape.items?_inherit c.shape
  have ho : c.taken.object? = c.object? := Shape.object?_inherit c.shape
  constructor
  · intro h
    cases h with
    | items h => exact .items (hi ▸ h)
    | member h hm => exact .member (ho ▸ h) hm
  · intro h
    cases h with
    | items h => exact .items (hi.trans h)
    | member h hm => exact .member (ho.trans h) hm

theorem Property.WellFormed.opens_taken {c : Property} (hc : c.WellFormed) : Opens (some c) c.taken := by
  obtain ⟨⟨b, hrests⟩, _⟩ := hc c (.refl c)
  have hallowed : Attribute.isOwn c.taken.allowed = false := Attribute.isOwn_map_inherit c.allowed
  have hdefault : Attribute.isOwn c.taken.default = false := Attribute.isOwn_map_inherit c.default
  refine ⟨?_, fun q hq => hc.child (child_taken_iff.1 hq), hallowed, hdefault⟩
  cases hrests with
  | intro _ _ _ _ _ _ sorted =>
    refine .intro (.inherit c.shape) (.inherit c.allowed) (.inherit c.default) (.inherit (some c.required))
      (fun _ he => by cases he) (fun h => by cases h) (fun o ho => ?_) (fun list hl => ?_) (fun v hv => ?_)
      (fun q hq => ?_) fun o ho => ?_
    · exact sorted o ((Shape.object?_inherit c.shape).symm.trans ho)
    · rw [hl] at hallowed
      cases hallowed
    · rw [hv] at hdefault
      cases hdefault
    · cases hs : c.shape <;> simp [taken, hs, Shape.inherit, Attribute.inherit] at hq
    · cases hs : c.shape <;> simp [taken, hs, Shape.inherit, Attribute.inherit] at ho

namespace Property.Opens

variable {base : Option Property} {p : Property}

theorem setRequired (h : Opens base p) (required : Bool) : Opens base (p.setRequired required) := by
  refine ⟨h.rests.setRequired required, fun q hq => h.children q ?_, h.allowed, h.default⟩
  cases hq with
  | items h => exact .items h
  | member h hm => exact .member h hm

/-- Limits that are given, or those of the base, for a shape without types inside. -/
theorem setLimits (h : Opens base p) {s : Shape Property} (hs : ∀ g, p.shape.From g → s.From g)
    (hi : s.items? = none) (ho : s.object? = none) : Opens base { p with shape := s } := by
  have hfrom : p.shape.From (ground base p.kind).shape := by
    cases h.rests with
    | intro shape => exact shape
  refine ⟨h.rests.setShape h.allowed h.default (hs _ hfrom) (fun items he => ?_) (fun o _ he => ?_) (fun q he => ?_)
    fun o he => ?_, fun q hq => ?_, h.allowed, h.default⟩
  · rw [he] at hi
    cases hi
  · rw [he] at ho
    cases ho
  · rw [he] at hi
    cases hi
  · rw [he] at ho
    cases ho
  · cases hq with
    | items h => exact absurd (hi.symm.trans h) (by simp)
    | member h => exact absurd (ho.symm.trans h) (by simp)

/-- A type of the items that rests on the one of the base. -/
theorem setItems (h : Opens base p) (hk : p.kind = .array) {q : Property} (hq : RestsOn (base.bind items?) q)
    (hw : q.WellFormed) : Opens base { p with shape := .array (some (.own q)) } := by
  refine ⟨h.rests.setShape h.allowed h.default (.ownItems q (h.rests.ground_kind.trans hk)) (fun _ he => ?_)
    (fun _ _ he => ?_) (fun _ he => ?_) fun _ he => ?_, fun r hr => ?_, h.allowed, h.default⟩
  · cases he
    rfl
  · cases he
  · cases he
    exact hq
  · cases he
  · cases hr with
    | items h =>
      cases h
      exact hw
    | member h => cases h

/-- Members that rest on those of the base. -/
theorem setObject (h : Opens base p) (hk : p.kind = .object) {o : ObjectType} (hs : Fields.Sorted o.properties)
    (hm : ∀ name q, (name, q) ∈ o.properties →
      RestsOn ((base.bind object?).bind (·.get? name)) q ∧ q.WellFormed) :
    Opens base { p with shape := .object (.own o) } := by
  refine ⟨h.rests.setShape h.allowed h.default (.ownObject o (h.rests.ground_kind.trans hk)) (fun _ he => ?_)
    (fun _ _ he => ?_) (fun _ he => ?_) fun _ he name q hq => ?_, fun r hr => ?_, h.allowed, h.default⟩
  · cases he
  · cases he
    exact hs
  · cases he
  · cases he
    exact (hm name q hq).1
  · cases hr with
    | items h => cases h
    | member h hq =>
      cases h
      exact (hm _ r hq).2

/-- The members as they are, in an object type that is opened or closed. -/
theorem setOpen (h : Opens base p) (hb : ∀ c, base = some c → c.WellFormed) {o : ObjectType}
    (ho : p.object? = some o) (isOpen : Bool) :
    Opens base { p with shape := .object (.own (o.setOpen isOpen)) } := by
  have hk : p.kind = .object := by
    obtain ⟨_, hs⟩ := object?_eq_some_iff.1 ho
    rw [Property.kind, hs]
    rfl
  exact h.setObject hk (h.rests.membersSorted o ho) fun name q hq =>
    ⟨h.rests.of_member hb ho hq, h.children q (.member ho hq)⟩

end Property.Opens

end Capability
