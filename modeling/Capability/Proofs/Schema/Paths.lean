import Capability.Proofs.Schema.MinimalForm

/-!
# The types at a path

A path leads from a type to a type inside it, through members by their names and through the items of arrays. A
definition may refine its base in many ways, but wherever a path leads to a type in both, the kinds agree
(`RestsOn.at?`, `RestsOn.kind_eq`), and so do the full names unless the name of the base ends in `array`
(`RestsOn.typeName_eq`). An array of the base without a type for its items may be given any (`exists_longer_typeName`,
`exists_other_typeName`): the definition `{"items": "array.integer"}` makes `array.array.integer` of `array.array`
(`typeName_longer_array_array`).
-/

namespace Capability

/-- The kind at the end of a type name. -/
def TypeName.innermost : TypeName → Kind
  | .plain kind => kind
  | .arrayOf items => items.innermost

namespace Property

/-! ## Paths -/

/-- A step from a type to a type inside it. -/
inductive Step where
  | items
  | member (name : String)
  deriving DecidableEq, Repr

/-- The type one step inside. -/
def child? (p : Property) : Step → Option Property
  | .items => p.items?
  | .member name => p.object?.bind (·.get? name)

/-- The type at the end of a path. -/
def at? (p : Property) : List Step → Option Property
  | [] => some p
  | step :: path => (p.child? step).bind (·.at? path)

theorem child_of_child? {p q : Property} {step : Step} (h : p.child? step = some q) : Child q p := by
  cases step with
  | items => exact .items h
  | member name =>
    obtain ⟨o, ho, hq⟩ := Option.bind_eq_some_iff.1 h
    exact .member ho (Fields.mem_of_get? hq)

/-! ## A type and its base at one path -/

section Base

variable {c d p q : Property}

theorem RestsOn.kind_eq (h : RestsOn (some c) p) : p.kind = c.kind :=
  h.ground_kind.symm

/-- The types one step inside a type and its base rest on each other again. -/
theorem RestsOn.child? (h : RestsOn (some c) p) (hc : c.WellFormed) {step : Step} (hq : p.child? step = some q)
    (hd : c.child? step = some d) : RestsOn (some d) q := by
  have hbase : ∀ b, some c = some b → b.WellFormed := by
    intro b hb
    rwa [← Option.some.inj hb]
  cases step with
  | items =>
    have hrests : RestsOn c.items? q := h.of_items hbase hq
    have hd : c.items? = some d := hd
    rwa [hd] at hrests
  | member name =>
    obtain ⟨o, ho, hget⟩ := Option.bind_eq_some_iff.1 hq
    have hrests : RestsOn (c.object?.bind (·.get? name)) q := h.of_member hbase ho (Fields.mem_of_get? hget)
    have hd : c.object?.bind (·.get? name) = some d := hd
    rwa [hd] at hrests

/-- **At every path that leads to a type in both, the type rests on that of the base.** -/
theorem RestsOn.at? {path : List Step} (h : RestsOn (some c) p) (hc : c.WellFormed) (hq : p.at? path = some q)
    (hd : c.at? path = some d) : RestsOn (some d) q ∧ Part d c := by
  induction path generalizing c p with
  | nil =>
    obtain rfl := Option.some.inj hq
    obtain rfl := Option.some.inj hd
    exact ⟨h, .refl c⟩
  | cons step path ih =>
    obtain ⟨p', hp', hq⟩ := Option.bind_eq_some_iff.1 hq
    obtain ⟨c', hc', hd⟩ := Option.bind_eq_some_iff.1 hd
    have hchild : Child c' c := child_of_child? hc'
    obtain ⟨hrests, hpart⟩ := ih (h.child? hc hp' hc') (hc.child hchild) hq hd
    exact ⟨hrests, hpart.trans hchild.part⟩

/-- Where the base has a type for the items, the type has one. -/
theorem RestsOn.exists_items (h : RestsOn (some c) p) (hd : c.items? = some d) : ∃ q, p.items? = some q := by
  rcases h.shape_from.items?_eq with ⟨q, hq⟩ | he
  · exact ⟨q, items?_eq_some_iff.2 ⟨false, hq⟩⟩
  · have he : p.items? = c.items? := he.trans (Shape.items?_inherit c.shape)
    exact ⟨d, he.trans hd⟩

theorem typeName_of_items? (h : p.items? = some q) : p.typeName = .arrayOf q.typeName := by
  obtain ⟨shape, _, _, _, _⟩ := p
  obtain ⟨inherited, rfl⟩ := items?_eq_some_iff.1 h
  rfl

/-- Where all arrays have types for their items, the name does not end in `array`. -/
theorem innermost_ne_array (htyped : ∀ r, Part r c → r.shape ≠ .array none) : c.typeName.innermost ≠ .array := by
  induction c using byChildren with
  | step c ih =>
    by_cases harray : c.kind = .array
    · cases hd : c.items? with
      | none => exact absurd (array_none_of_items? harray hd) (htyped c (.refl c))
      | some d =>
        rw [typeName_of_items? hd]
        exact ih d (.items hd) fun r hr => htyped r (hr.trans (Child.items hd).part)
    · rwa [typeName_eq_plain harray]

/-- **The name is that of the base, unless the name of the base ends in `array`.** -/
theorem RestsOn.typeName_eq (h : RestsOn (some c) p) (hc : c.WellFormed) (hlast : c.typeName.innermost ≠ .array) :
    p.typeName = c.typeName := by
  induction c using byChildren generalizing p with
  | step c ih =>
    have hk : p.kind = c.kind := h.kind_eq
    by_cases harray : c.kind = .array
    · cases hd : c.items? with
      | none =>
        refine absurd ?_ hlast
        rw [typeName_of_array_none (array_none_of_items? harray hd)]
        rfl
      | some d =>
        obtain ⟨q, hq⟩ := h.exists_items hd
        have hchild : Child d c := .items hd
        have hchildren : p.child? .items = some q ∧ c.child? .items = some d := ⟨hq, hd⟩
        have hrests : RestsOn (some d) q := h.child? hc hchildren.1 hchildren.2
        rw [typeName_of_items? hd] at hlast
        have hname : q.typeName = d.typeName := ih d hchild hrests (hc.child hchild) hlast
        rw [typeName_of_items? hq, typeName_of_items? hd, hname]
    · have hne : p.kind ≠ .array := fun he => harray (hk.symm.trans he)
      rw [typeName_eq_plain hne, typeName_eq_plain harray, hk]

end Base

/-! ## Giving items a type -/

/-- A definition with one attribute, which shows the kind of its base. -/
theorem ofJson_single {c p : Property} {key : String} {json : Json} {d : Draft}
    (htype : Definition.typeOf (some c) [(key, json)] = .ok (.plain c.kind))
    (hread : Draft.readOne (some c) { property := c.taken } key json = .ok d) (hfinish : d.finish = .ok p) :
    Property.ofJson (some c) (.object [(key, json)]) = .ok p := by
  have hstart : Draft.start (.plain c.kind) (some c) = .ok { property := c.taken } :=
    Draft.start_over rfl fun _ he => by cases he
  rw [Property.ofJson, htype]
  show (Draft.start (.plain c.kind) (some c) >>= fun d => Draft.readAll (some c) d [(key, json)] >>= Draft.finish) = _
  rw [hstart]
  show Draft.readAll (some c) { property := c.taken } [(key, json)] >>= Draft.finish = _
  rw [Draft.readAll_cons, hread]
  exact hfinish

/-- A definition may give the items of an array another type, over the one that the base has for them. -/
theorem ofJson_items {c q : Property} {json : Json} (hk : c.kind = .array)
    (h : Property.ofJson c.items? json = .ok q) :
    Property.ofJson (some c) (.object [("items", json)]) =
      .ok { c.taken with shape := .array (some (.own q)) } := by
  have htype : Definition.typeOf (some c) [("items", json)] = .ok (.plain c.kind) := by
    rw [hk]
    rfl
  refine ofJson_single htype (d := { property := { c.taken with shape := .array (some (.own q)) } }) ?_ rfl
  obtain ⟨shape, _, _, _, _⟩ := c
  cases shape with
  | array items =>
    refine Fault.bind_ok_iff.2 ⟨q, h, rfl⟩
  | _ => cases hk

/-- **Where the name of the base ends in `array`, some definition makes it longer.** -/
theorem exists_other_typeName {c : Property} (hc : c.WellFormed) (hlast : c.typeName.innermost = .array) :
    ∃ json p, json.Sorted ∧ Property.ofJson (some c) json = .ok p ∧ p.typeName ≠ c.typeName := by
  induction c using byChildren with
  | step c ih =>
    have hk : c.kind = .array := by
      by_contra hne
      rw [typeName_eq_plain hne] at hlast
      exact hne hlast
    cases hd : c.items? with
    | none =>
      have hread : Property.ofJson c.items? (.string "integer") = .ok (.ofTypeName (.plain .integer)) := by
        rw [hd]
        rfl
      have hsorted : (Json.string "integer").Sorted := trivial
      refine ⟨_, _, hsorted.single _, ofJson_items hk hread, fun he => ?_⟩
      rw [typeName_of_array_none (array_none_of_items? hk hd)] at he
      cases he
    | some d =>
      have hchild : Child d c := .items hd
      rw [typeName_of_items? hd] at hlast
      obtain ⟨json, q, hsorted, hq, hne⟩ := ih d hchild (hc.child hchild) hlast
      rw [← hd] at hq
      refine ⟨_, _, hsorted.single _, ofJson_items hk hq, fun he => hne ?_⟩
      rw [typeName_of_items? hd] at he
      exact TypeName.arrayOf.inj he

/-- A definition may give one member of an object, over the member of that name in the base. -/
theorem ofJson_member {c q : Property} {o : ObjectType} {name : String} {json : Json} (ho : c.object? = some o)
    (h : Property.ofJson (o.get? name) json = .ok q) :
    Property.ofJson (some c) (.object [("properties", .object [(name, json)])]) =
      .ok { c.taken with shape := .object (.own ⟨[(name, q)], o.isOpen⟩) } := by
  obtain ⟨inherited, hs⟩ := object?_eq_some_iff.1 ho
  have hk : c.kind = .object := by
    rw [Property.kind, hs]
    rfl
  have htype : Definition.typeOf (some c) [("properties", .object [(name, json)])] = .ok (.plain c.kind) := by
    rw [hk]
    rfl
  refine ofJson_single htype
    (d := { property := { c.taken with shape := .object (.own ⟨[(name, q)], o.isOpen⟩) } }) ?_ rfl
  have hfields : ObjectType.ofFields c.object? [(name, json)] = .ok ⟨[(name, q)], o.isOpen⟩ := by
    rw [ho]
    exact ObjectType.ofFields_single h
  obtain ⟨shape, _, _, _, _⟩ := c
  obtain rfl : shape = .object ⟨o, inherited⟩ := hs
  exact Fault.bind_ok_iff.2 ⟨_, hfields, rfl⟩

/-- **Where an array of the base has no type for its items, some definition gives them one**, which makes the name
longer. -/
theorem exists_longer_typeName {c r : Property} (hc : c.WellFormed) (hr : Part r c) (hnone : r.shape = .array none) :
    ∃ json p path q d, json.Sorted ∧ Property.ofJson (some c) json = .ok p ∧ p.at? path = some q ∧
      c.at? path = some d ∧ q.typeName ≠ d.typeName := by
  induction c using byChildren with
  | step c ih =>
    rcases hr.cases with rfl | ⟨d, hd, hr⟩
    · -- the items of the base itself have no type
      have hlast : r.typeName.innermost = .array := by
        rw [typeName_of_array_none hnone]
        rfl
      obtain ⟨json, p, hsorted, hp, hne⟩ := exists_other_typeName hc hlast
      exact ⟨json, p, [], p, r, hsorted, hp, rfl, rfl, hne⟩
    · -- the definition leads to the child where the name changes
      obtain ⟨json, p, path, q, s, hsorted, hp, hq, hs, hne⟩ := ih d hd (hc.child hd) hr
      cases hd with
      | items hi =>
        have hk : c.kind = .array := by
          obtain ⟨_, hshape⟩ := items?_eq_some_iff.1 hi
          rw [Property.kind, hshape]
          rfl
        rw [← hi] at hp
        refine ⟨_, _, .items :: path, q, s, hsorted.single _, ofJson_items hk hp, hq, ?_, hne⟩
        show c.items?.bind (·.at? path) = some s
        rw [hi]
        exact hs
      | @member _ _ o name ho hm =>
        have hget : o.get? name = some d := (hc.membersSorted (.refl c) o ho).get?_of_mem hm
        rw [← hget] at hp
        refine ⟨_, _, .member name :: path, q, s, (hsorted.single _).single _, ofJson_member ho hp, ?_, ?_, hne⟩
        · show (Fields.get? [(name, p)] name).bind (·.at? path) = some q
          rw [Fields.get?_cons, if_pos rfl]
          exact hq
        · show (c.object?.bind (·.get? name)).bind (·.at? path) = some s
          rw [ho, Option.bind_some, hget]
          exact hs

/-! ## Definitions over a chain -/

/-- **Definitions over a base change no kind at any path, and they change no name exactly if every array in the base
has a type for its items.** -/
theorem Read.typeName_eq_iff {bases : List Property} {b : Property} (hb : Read bases b) :
    (∀ json p path q d, json.Sorted → Property.ofJson (some b) json = .ok p → p.at? path = some q →
        b.at? path = some d → q.kind = d.kind) ∧
      ((∀ json p path q d, json.Sorted → Property.ofJson (some b) json = .ok p → p.at? path = some q →
          b.at? path = some d → q.typeName = d.typeName) ↔ ∀ r, Part r b → r.shape ≠ .array none) := by
  obtain ⟨_, hw⟩ := hb.spec
  have hrests : ∀ {json p path q d}, json.Sorted → Property.ofJson (some b) json = .ok p → p.at? path = some q →
      b.at? path = some d → RestsOn (some d) q ∧ Part d b := by
    intro json p path q d hsorted hp hq hd
    exact (Read.derived hsorted hb hp).spec.1.at? hw hq hd
  refine ⟨fun json p path q d hsorted hp hq hd => ?_, fun h r hr hnone => ?_, fun htyped json p path q d => ?_⟩
  · exact (hrests hsorted hp hq hd).1.kind_eq
  · obtain ⟨json, p, path, q, d, hsorted, hp, hq, hd, hne⟩ := exists_longer_typeName hw hr hnone
    exact hne (h json p path q d hsorted hp hq hd)
  · intro hsorted hp hq hd
    obtain ⟨hqd, hd⟩ := hrests hsorted hp hq hd
    exact hqd.typeName_eq (hw.part hd) (innermost_ne_array fun r hr => htyped r (hr.trans hd))

/-- A limit for the items of an array inside an object leaves all names as they are. -/
theorem typeName_eq_level : ∃ b p,
    Property.ofJson none (.object [("properties", .object [("level", .string "array.integer")])]) = .ok b ∧
      Property.ofJson (some b) (.object [("properties", .object [("level", .object [("items",
        .object [("minimum", .integer 1)])])])]) = .ok p ∧
      ∀ path q d, p.at? path = some q → b.at? path = some d → q.typeName = d.typeName := by
  let level : Property := .ofTypeName (.arrayOf (.plain .integer))
  let b : Property := ⟨.object (.own ⟨[("level", level)], false⟩), none, none, ⟨false, true⟩, false⟩
  have hb : Property.ofJson none (.object [("properties", .object [("level", .string "array.integer")])]) = .ok b := rfl
  have hbs : Json.Sorted (.object [("properties", .object [("level", .string "array.integer")])]) :=
    ⟨List.pairwise_singleton _ _, ⟨List.pairwise_singleton _ _, trivial, trivial⟩, trivial⟩
  have hps : Json.Sorted (.object [("properties", .object [("level", .object [("items",
      .object [("minimum", .integer 1)])])])]) :=
    ⟨List.pairwise_singleton _ _, ⟨List.pairwise_singleton _ _, ⟨List.pairwise_singleton _ _,
      ⟨List.pairwise_singleton _ _, trivial, trivial⟩, trivial⟩, trivial⟩, trivial⟩
  have htyped : ∀ r, Part r b → r.shape ≠ .array none := by
    intro r hr
    rcases hr.cases with rfl | ⟨q, hq, hr⟩
    · exact fun he => by cases he
    · cases hq with
      | items hi => cases hi
      | member ho hm =>
        cases ho
        obtain ⟨_, rfl⟩ := Prod.mk.inj (List.mem_singleton.1 hm)
        rcases hr.cases with rfl | ⟨q, hq, hr⟩
        · exact fun he => by cases he
        · cases hq with
          | items hi =>
            cases hi
            obtain rfl := hr.eq_of_leaf rfl rfl
            exact fun he => by cases he
          | member ho => cases ho
  exact ⟨b, _, hb, rfl, fun path q d => (Read.typeName_eq_iff (.plain hbs hb)).2.2 htyped _ _ path q d hps rfl⟩

/-- **The items of an array of arrays may be given a type that the base does not have for them.** Where the name of
the type spells this out, it is refused. -/
theorem typeName_longer_array_array : ∃ b p,
    Property.ofJson none (.string "array.array") = .ok b ∧
      Property.ofJson (some b) (.object [("items", .string "array.integer")]) = .ok p ∧ p.typeName ≠ b.typeName ∧
      ∀ q, Property.ofJson (some b) (.string "array.array.integer") ≠ .ok q := by
  refine ⟨.ofTypeName (.arrayOf (.plain .array)), _, rfl, rfl, fun he => ?_, fun q h => ?_⟩
  · cases he
  · cases h

end Property

end Capability
