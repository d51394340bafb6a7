import Capability.Proofs.Schema.Consistency
import Capability.Proofs.Schema.Overriding
import Capability.Proofs.Schema.Refusals

/-!
# What holds of every type that is read

A type that is read over a chain of bases is regular at every depth (`Property.Read.regular_spec`): limits are in order,
allowed values are listed only if there are any, and they and the default have the kind of the type. A limit may be the
definition's own while the other one is taken over, so that the order rests on the check at the end of each definition;
values that are taken over rest on the base, whose kind the definition keeps.

The items of an array have a type, unless the array is itself the item of an array: the name `array.array` says nothing
of the items inside (`items_refused_array_array`). These arrays are the only reason for which a conversion may lack a
type.
-/

namespace Capability

open Property

/-! ## Limits in order -/

/-- The lower limit is not greater than the upper one, where the limits stand for these numbers. -/
def Bounds.Ordered {α : Type} (number : α → Int) (b : Bounds α) : Prop :=
  ∀ low high, b.least? = some low → b.greatest? = some high → number low ≤ number high

namespace Bounds

variable {α : Type} [LT α] [DecidableLT α] {number : α → Int}

theorem crossed?_eq_none_iff (hlt : ∀ a b : α, a < b ↔ number a < number b) {b : Bounds α} :
    b.crossed? = none ↔ b.Ordered number := by
  unfold crossed? Ordered
  cases b.least? <;> cases b.greatest? <;> simp [hlt]

theorem checkLimits_ok_iff [Numeral α] (hlt : ∀ a b : α, a < b ↔ number a < number b) {b : Bounds α} :
    b.checkLimits = .ok () ↔ b.Ordered number := by
  rw [← crossed?_eq_none_iff hlt, checkLimits]
  cases b.crossed? with
  | none => exact ⟨fun _ => rfl, fun _ => rfl⟩
  | some limits => exact ⟨fun h => (by cases h), fun h => (by cases h)⟩

end Bounds

theorem Length.checkLimits_ok_iff {b : Bounds Length} :
    Length.checkLimits b = .ok () ↔ b.Ordered fun length => (length.val : Int) := by
  rw [← Bounds.crossed?_eq_none_iff fun a b => (Int.ofNat_lt (n := a.val) (m := b.val)).symm, checkLimits]
  cases b.crossed? with
  | none => exact ⟨fun _ => rfl, fun _ => rfl⟩
  | some limits => exact ⟨fun h => (by cases h), fun h => (by cases h)⟩

namespace Property

/-! ## Limits and values of one type -/

/-- The limits are in order, and the allowed values and the default have the kind of the type. -/
structure Regular (p : Property) : Prop where
  integer : ∀ range, p.shape = .integer range → range.Ordered Int64.toInt
  number : ∀ range, p.shape = .number range → range.Ordered Double.units
  string : ∀ lengths, p.shape = .string lengths → lengths.Ordered fun length => (length.val : Int)
  allowed : ∀ list, p.allowed? = some list → list ≠ [] ∧ ∀ v ∈ list, v.kind = p.kind
  default : ∀ v, p.default? = some v → v.kind = p.kind

section OneType

variable {base : Option Property} {p : Property}

/-- The allowed values are the definition's own, converted by the type, or those of the base. -/
theorem RestsOn.allowed_kind (h : RestsOn base p) (hb : ∀ c, base = some c → c.Regular) {list : List Value}
    (hl : p.allowed? = some list) : list ≠ [] ∧ ∀ v ∈ list, v.kind = p.kind := by
  obtain ⟨⟨_, inherited⟩, ha, rfl⟩ := Option.map_eq_some_iff.1 hl
  cases inherited with
  | false =>
    obtain ⟨hne, hconvert⟩ := h.allowed_own ha
    refine ⟨hne, fun v hv => ?_⟩
    obtain ⟨_, hjson⟩ := hconvert v hv
    exact Shape.kind_of_convert hjson
  | true =>
    obtain ⟨c, rfl, hlist⟩ := h.taken_allowed ha
    have hk : c.kind = p.kind := h.ground_kind
    rw [← hk]
    exact (hb c rfl).allowed _ hlist

theorem RestsOn.default_kind (h : RestsOn base p) (hb : ∀ c, base = some c → c.Regular) {v : Value}
    (hv : p.default? = some v) : v.kind = p.kind := by
  obtain ⟨⟨_, inherited⟩, hd, rfl⟩ := Option.map_eq_some_iff.1 hv
  cases inherited with
  | false => exact h.kind_of_default hd
  | true =>
    obtain ⟨c, rfl, hdefault⟩ := h.taken_default hd
    have hk : c.kind = p.kind := h.ground_kind
    rw [← hk]
    exact (hb c rfl).default _ hdefault

/-- **A type is regular, if its base is and its limits were checked.** -/
theorem RestsOn.regular (h : RestsOn base p) (hc : p.Checked) (hb : ∀ c, base = some c → c.Regular) : p.Regular := by
  have hcheck {s : Shape Property} (hs : p.shape = s) (hne : s ≠ .array none) : p.checkShape = .ok () :=
    hc (hs ▸ hne)
  refine ⟨fun range hs => ?_, fun range hs => ?_, fun lengths hs => ?_, fun list => h.allowed_kind hb,
    fun v => h.default_kind hb⟩
  · have hcheck := hcheck hs (fun he => by cases he)
    rw [checkShape, hs] at hcheck
    exact (Bounds.checkLimits_ok_iff fun _ _ => Int64.lt_iff_toInt_lt).1 hcheck
  · have hcheck := hcheck hs (fun he => by cases he)
    rw [checkShape, hs] at hcheck
    exact (Bounds.checkLimits_ok_iff fun _ _ => Double.lt_iff).1 hcheck
  · have hcheck := hcheck hs (fun he => by cases he)
    rw [checkShape, hs] at hcheck
    exact Length.checkLimits_ok_iff.1 hcheck

end OneType

/-- **Every part of a type that is read is regular.** -/
theorem Read.regular {bases : List Property} {p : Property} (h : Read bases p) : ∀ r, Part r p → r.Regular := by
  have hstep {base : Option Property} {p : Property} (hrests : RestsOn base p) (hw : p.WellFormed)
      (hb : ∀ c, base = some c → c.WellFormed ∧ ∀ r, Part r c → r.Regular) : ∀ r, Part r p → r.Regular :=
    hrests.forall_part hw hb fun _ r hr h hbase _ => h.regular (hw r hr).2 hbase
  induction h with
  | plain sorted h =>
    obtain ⟨hrests, hw⟩ := restsOn_ofJson _ sorted (fun _ he => by cases he) h
    exact hstep hrests hw fun _ he => by cases he
  | @derived _ base _ _ sorted hb h ih =>
    obtain ⟨hrests, hw⟩ := (Read.derived sorted hb h).spec
    refine hstep hrests hw fun c hc => ?_
    obtain rfl := Option.some.inj hc
    exact ⟨hb.spec.2, ih⟩

/-! ## Where the types inside come from -/

/-- A definition gives the type, over a type inside the base if there is one. -/
def GivenOver (base : Option Property) (q : Property) : Prop :=
  ∃ b json, Property.ofJson b json = .ok q ∧ ∀ c, b = some c → ∃ p, base = some p ∧ Child c p

/-- The types inside are given by definitions or are those of the base; the type of the items may also be one that is
only named. -/
structure Sourced (base : Option Property) (p : Property) : Prop where
  items : ∀ q, p.items? = some q →
    GivenOver base q ∨ (∃ b, base = some b ∧ b.items? = some q) ∨ ∃ name, q = .ofTypeName name
  members : ∀ o, p.object? = some o → ∀ m ∈ o.properties,
    GivenOver base m.2 ∨ ∃ b o', base = some b ∧ b.object? = some o' ∧ m ∈ o'.properties

section Sources

variable {base : Option Property} {p : Property}

theorem Sourced.of_shape_eq {q : Property} (h : Sourced base p) (hs : q.shape = p.shape) : Sourced base q := by
  refine ⟨fun r hr => h.items r ?_, fun o ho => h.members o ?_⟩
  · rwa [items?, ← hs]
  · rwa [object?, ← hs]

theorem sourced_start {name : TypeName} {d : Draft} (h : Draft.start name base = .ok d) :
    Sourced base d.property := by
  cases base with
  | none =>
    obtain rfl := Except.ok.inj h
    refine ⟨fun q hq => .inr (.inr ?_), fun o ho m hm => ?_⟩
    · cases name with
      | plain kind => cases kind <;> cases hq
      | arrayOf items =>
        cases hq
        exact ⟨items, rfl⟩
    · cases name with
      | plain kind =>
        cases kind <;> cases ho
        cases hm
      | arrayOf items => cases ho
  | some c =>
    obtain ⟨q, hq, h⟩ := Fault.bind_ok_iff.1 h
    obtain rfl := Except.ok.inj h
    obtain ⟨_, ⟨rfl, _⟩ | ⟨items, _, _, rfl⟩⟩ := Draft.over_cases hq
    · refine ⟨fun q hq => .inr (.inl ⟨c, rfl, ?_⟩), fun o ho m hm => .inr ⟨c, o, rfl, ?_, hm⟩⟩
      · exact (Shape.items?_inherit c.shape).symm.trans hq
      · exact (Shape.object?_inherit c.shape).symm.trans ho
    · refine ⟨fun q hq => .inr (.inr ⟨items, ?_⟩), fun o ho => ?_⟩
      · cases hq
        rfl
      · cases ho

theorem sourced_readOne {d d' : Draft} {key : String} {json : Json} (hd : Sourced base d.property)
    (h : d.readOne base key json = .ok d') : Sourced base d'.property := by
  rcases Draft.readOne_cases h with ⟨q, _, hq, rfl⟩ | ⟨fields, properties, _, _, hp, rfl⟩ | h
  · refine ⟨fun r hr => .inl ?_, fun o ho => ?_⟩
    · cases hr
      refine ⟨_, json, hq, fun c hc => ?_⟩
      obtain ⟨b, hb, hc⟩ := Option.bind_eq_some_iff.1 hc
      exact ⟨b, hb, .items hc⟩
    · cases ho
  · refine ⟨fun r hr => ?_, fun o ho m hm => .inl ?_⟩
    · cases hr
    · cases ho
      obtain ⟨f, _, _, hf⟩ := Fault.exists_left_of_mem (ObjectType.ofMembers_ok_iff.1 hp) hm
      refine ⟨_, f.2, hf, fun c hc => ?_⟩
      obtain ⟨o, ho, hc⟩ := Option.bind_eq_some_iff.1 hc
      obtain ⟨b, hb, ho⟩ := Option.bind_eq_some_iff.1 ho
      exact ⟨b, hb, .member ho (Fields.mem_of_get? hc)⟩
  · rcases Draft.readAttribute_cases h with he | ⟨_, he⟩ | ⟨s, he, _, hi, ho⟩
    · rwa [he]
    · rw [he]
      exact hd.of_shape_eq rfl
    · rw [he]
      exact ⟨fun q hq => absurd (hi.symm.trans hq) nofun, fun o hobject => absurd (ho.symm.trans hobject) nofun⟩

theorem sourced_finish {d : Draft} (hd : Sourced base d.property) (h : d.finish = .ok p) : Sourced base p := by
  have hshape : p.shape = d.property.shape.settle d.isOpen := by
    rw [Draft.shape_of_finish h, Draft.settleOpen_eq]
  cases ho : d.property.shape.object? with
  | none => exact hd.of_shape_eq (hshape.trans (Shape.settle_of_object? ho _))
  | some o =>
    obtain ⟨inherited, hs⟩ := object?_eq_some_iff.1 ho
    rw [hs] at hshape
    cases hopen : d.isOpen with
    | none =>
      rw [hopen] at hshape
      exact hd.of_shape_eq (hshape.trans hs.symm)
    | some isOpen =>
      rw [hopen] at hshape
      refine ⟨fun q hq => ?_, fun o' ho' => ?_⟩
      · rw [items?, hshape] at hq
        cases hq
      · rw [object?, hshape] at ho'
        cases ho'
        exact hd.members o ho

/-- **Where the types inside a type come from.** -/
theorem sourced_ofJson {json : Json} (h : Property.ofJson base json = .ok p) : Sourced base p := by
  obtain ⟨_, d, d', _, hd, hd', h⟩ := exists_draft_of_ofJson h
  have hread : Sourced base d'.property :=
    Draft.readAll_keeps (P := fun d => Sourced base d.property) sourced_readOne (sourced_start hd) hd'
  exact sourced_finish hread h

end Sources

/-! ## Arrays without a type for their items -/

/-- No member of an object, at any depth, is an array without a type for its items. -/
def MembersTyped (p : Property) : Prop :=
  ∀ r o, Part r p → r.object? = some o → ∀ m ∈ o.properties, m.2.shape ≠ .array none

theorem MembersTyped.child {p q : Property} (h : p.MembersTyped) (hq : Child q p) : q.MembersTyped :=
  fun r o hr => h r o (hr.trans hq.part)

theorem membersTyped_ofTypeName (name : TypeName) : (ofTypeName name).MembersTyped := by
  intro r o hr ho m hm
  induction name with
  | plain kind =>
    have hleaf : (ofTypeName (.plain kind)).items? = none := by cases kind <;> rfl
    rcases hr.cases with rfl | ⟨q, hq, _⟩
    · cases kind <;> cases ho
      cases hm
    · cases hq with
      | items hi => cases hleaf.symm.trans hi
      | member ho hm =>
        cases kind <;> cases ho
        cases hm
  | arrayOf items ih =>
    rcases hr.cases with rfl | ⟨q, hq, hr⟩
    · cases ho
    · cases hq with
      | items hi =>
        cases hi
        exact ih hr
      | member ho => cases ho

/-- **The members of a type that is read are typed**, if those of its base are. The induction is on the type: a
definition gives the types inside, a name gives the type of the items, or the base has them. -/
theorem membersTyped_of_ofJson {p : Property} : ∀ {base : Option Property} {json : Json},
    Property.ofJson base json = .ok p → (∀ b, base = some b → b.MembersTyped) → p.MembersTyped := by
  induction p using byChildren with
  | step p ih =>
    intro base json h hb
    have hsourced : Sourced base p := sourced_ofJson h
    have hgiven : ∀ q, Child q p → GivenOver base q → q.MembersTyped := fun q hq ⟨_, _, hread, hinside⟩ =>
      ih q hq hread fun c hc =>
        let ⟨b, hbase, hchild⟩ := hinside c hc
        (hb b hbase).child hchild
    have hchild : ∀ q, Child q p → q.MembersTyped := by
      intro q hq
      cases id hq with
      | items hi =>
        rcases hsourced.items q hi with hread | ⟨b, hbase, hi⟩ | ⟨name, rfl⟩
        · exact hgiven q hq hread
        · exact (hb b hbase).child (.items hi)
        · exact membersTyped_ofTypeName name
      | member ho hm =>
        rcases hsourced.members _ ho _ hm with hread | ⟨b, o, hbase, ho, hm⟩
        · exact hgiven q hq hread
        · exact (hb b hbase).child (.member ho hm)
    intro r o hr ho m hm
    rcases hr.cases with rfl | ⟨q, hq, hr⟩
    · rcases hsourced.members o ho m hm with ⟨_, _, hread, _⟩ | ⟨b, o, hbase, ho, hm⟩
      · exact typed_of_ofJson hread
      · exact hb b hbase b o (.refl b) ho m hm
    · exact hchild q hq r o hr ho m hm

theorem Read.membersTyped {bases : List Property} {p : Property} (h : Read bases p) : p.MembersTyped := by
  induction h with
  | plain _ h => exact membersTyped_of_ofJson h fun _ he => by cases he
  | derived _ _ h ih => exact membersTyped_of_ofJson h fun _ he => Option.some.inj he ▸ ih

/-- An array without a type for its items refuses even the empty array. -/
theorem convert_array_none {p : Property} (hs : p.shape = .array none) (list : List Json) :
    p.convert (.array list) = .error Conversion.noItemType := by
  rw [convert_eq, hs]
  rfl

/-! ## Whole types -/

/-- **Every type that is read is well-formed at every depth.** Limits are in order, allowed values are not an empty
list, and allowed values and defaults have the kind of their type. The type itself and the members of its objects have a
type for their items, if they are arrays. A value is refused for a missing type exactly if the items of some array lack
one, and this may only be an array that is the item of another one. -/
theorem Read.regular_spec {bases : List Property} {p : Property} (h : Read bases p) :
    (∀ r, Part r p → r.Regular) ∧ p.shape ≠ .array none ∧ p.MembersTyped ∧
      ((∀ r, Part r p → ∀ json f, r.convert json = .error f → f.hasCode .noTypeInfo = false) ↔
        ∀ r, Part r p → r.shape ≠ .array none) := by
  refine ⟨h.regular, h.typed, h.membersTyped, fun hall r hr hs => ?_, fun htyped r hr json f hf => ?_⟩
  · have hcode := hall r hr _ _ (convert_array_none hs [])
    cases hcode
  · refine (reports_of_convert hf).hasCode_eq_false ?_
    rintro (hmem | ⟨_, q, hq, hs⟩)
    · exact absurd hmem (by decide)
    · exact htyped q (hq.trans hr) hs

/-- Over arrays of integers, arrays of integers in a range with a default: no value is refused for a missing type. -/
theorem regular_spec_levels : ∃ b p,
    Property.ofJson none (.string "array.integer") = .ok b ∧
      Property.ofJson (some b) (.object [("default", .array [.integer 5]),
        ("items", .object [("maximum", .integer 9), ("minimum", .integer 0)])]) = .ok p ∧
      (∀ r, Part r p → r.Regular) ∧ p.convert (.array [.integer 12]) ≠ .ok (.array [.integer 12]) ∧
      ∀ json f, p.convert json = .error f → f.hasCode .noTypeInfo = false := by
  let item : Property := ⟨.integer ⟨some (.own 0), some (.own 9)⟩, none, none, ⟨false, true⟩, true⟩
  let p : Property := ⟨.array (some (.own item)), none, some (.own (.array [.integer 5])), ⟨false, true⟩, true⟩
  have hb : Property.ofJson none (.string "array.integer") = .ok (.ofTypeName (.arrayOf (.plain .integer))) := rfl
  have hp : Property.ofJson (some (.ofTypeName (.arrayOf (.plain .integer)))) (.object [("default",
      .array [.integer 5]), ("items", .object [("maximum", .integer 9), ("minimum", .integer 0)])]) = .ok p := rfl
  have hsorted : (Json.object [("default", .array [.integer 5]),
      ("items", .object [("maximum", .integer 9), ("minimum", .integer 0)])]).Sorted :=
    ⟨List.pairwise_pair.2 (by decide), ⟨trivial, trivial⟩, ⟨List.pairwise_pair.2 (by decide), trivial, trivial,
      trivial⟩, trivial⟩
  have hname : (Json.string "array.integer").Sorted := trivial
  have hread : Read [_] p := .derived hsorted (.plain hname hb) hp
  have htyped : ∀ r, Part r p → r.shape ≠ .array none := by
    intro r hr
    rcases hr.cases with rfl | ⟨q, hq, hr⟩
    · exact fun he => by cases he
    · cases hq with
      | items hi =>
        cases hi
        obtain rfl := hr.eq_of_leaf rfl rfl
        exact fun he => by cases he
      | member ho => cases ho
  obtain ⟨hregular, _, _, hiff⟩ := Read.regular_spec hread
  exact ⟨_, p, hb, hp, hregular, fun h => (by cases h), fun json f => hiff.2 htyped p (.refl p) json f⟩

/-- **Arrays of arrays whose items have no type are read, and refuse every array of arrays for the missing type.** -/
theorem items_refused_array_array : ∃ p, Property.ofJson none (.string "array.array") = .ok p ∧
    (∃ r, Part r p ∧ r.shape = .array none) ∧
    ∀ list rest, p.convert (.array (.array list :: rest)) = .error Conversion.noItemType := by
  have hchild : Child (ofTypeName (.plain .array)) (ofTypeName (.arrayOf (.plain .array))) := .items rfl
  exact ⟨_, rfl, ⟨_, hchild.part, rfl⟩, fun list rest => rfl⟩

end Property

end Capability
