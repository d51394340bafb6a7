import Capability.Proofs.Schema.Derivation

/-!
# What a definition is read as

A definition starts as its base or as a bare type, each attribute changes one thing of it (`Draft.readAll_cons`), and
the values that it gives are read last. Every step keeps that the type rests on the base.

* `restsOn_ofJson`: what a definition is read as rests on its base, every part of it rests on something, and the limits
  of every part leave room for values. The induction is on the definition.
* `Property.Read`: the types that come out of a chain of definitions, each read over the one before.
-/

namespace Capability

open Property

namespace Draft

variable {base : Option Property}

/-! ## The start -/

/-- Over a base of the kind that is named everything is taken over. A named type of the items is that of the base, or
the only one where the base has none. -/
theorem over_cases {name : TypeName} {c p : Property} (h : (Property.ofTypeName name).over c = .ok p) :
    c.kind = name.kind ∧
      (p = c.taken ∧ (∀ items, name = .arrayOf items → ∃ q, c.items? = some q ∧ q.typeName = items) ∨
        ∃ items, name = .arrayOf items ∧ c.shape = .array none ∧
          p = { c.taken with shape := .array (some (.own (.ofTypeName items))) }) := by
  rw [Property.over] at h
  split at h
  · cases h
  · rename_i hk
    replace hk := Decidable.not_not.1 hk
    cases name with
    | plain kind =>
      have hi : (Property.ofTypeName (.plain kind)).items? = none := by cases kind <;> rfl
      rw [hi] at h
      change Except.ok c.taken = .ok p at h
      exact ⟨hk.trans (Shape.kind_ofKind kind), .inl ⟨(Except.ok.inj h).symm, fun _ he => by cases he⟩⟩
    | arrayOf items =>
      refine ⟨hk, ?_⟩
      have hi : (Property.ofTypeName (.arrayOf items)).items? = some (.ofTypeName items) := rfl
      rw [hi] at h
      cases hc : c.items? with
      | some q =>
        rw [hc] at h
        change (if _ then Except.error _ else Except.ok c.taken) = .ok p at h
        split at h
        · cases h
        · rename_i hname
          refine .inl ⟨(Except.ok.inj h).symm, fun _ he => ⟨q, rfl, ?_⟩⟩
          obtain rfl := TypeName.arrayOf.inj he
          exact (Decidable.not_not.1 hname).symm.trans (typeName_ofTypeName items)
      | none =>
        rw [hc] at h
        change Except.ok { c.taken with shape := .array (some (.own (.ofTypeName items))) } = .ok p at h
        exact .inr ⟨items, rfl, array_none_of_items? hk hc, (Except.ok.inj h).symm⟩

theorem opens_start {name : TypeName} {d : Draft} (hb : ∀ c, base = some c → c.WellFormed)
    (h : Draft.start name base = .ok d) : Opens base d.property := by
  cases base with
  | none =>
    obtain rfl := Except.ok.inj h
    refine ⟨restsOn_ofTypeName name, fun q hq => (wellFormed_ofTypeName name).child hq, ?_, ?_⟩
    · cases name <;> rfl
    · cases name <;> rfl
  | some c =>
    obtain ⟨p, hp, h⟩ := Fault.bind_ok_iff.1 h
    obtain rfl := Except.ok.inj h
    have hopens := (hb c rfl).opens_taken
    obtain ⟨_, ⟨rfl, _⟩ | ⟨items, _, hs, rfl⟩⟩ := over_cases hp
    · exact hopens
    · refine ⟨hopens.rests.setShape hopens.allowed hopens.default ?_ (fun _ h => ?_) (fun _ _ h => ?_) (fun q h => ?_)
        fun _ h => ?_, fun q hq => ?_, hopens.allowed, hopens.default⟩
      · show Shape.From _ c.shape
        rw [hs]
        exact .inl rfl
      · cases h
        rfl
      · cases h
      · cases h
        have : c.items? = none := by rw [Property.items?, hs]; rfl
        rw [Option.bind_some, this]
        exact restsOn_ofTypeName items
      · cases h
      · cases hq with
        | items h =>
          cases h
          exact wellFormed_ofTypeName items
        | member h => cases h

/-! ## Single attributes -/

/-- Reads one attribute. -/
def readOne (base : Option Property) (d : Draft) (key : String) (json : Json) : Except Fault Draft :=
  match d.property.shape, key, json with
  | .array _, "items", json => do
    return d.setShape (.array (some (.own (← Property.ofJson (base.bind Property.items?) json))))
  | .object _, "properties", .object fields => do
    return d.setShape (.object (.own (← ObjectType.ofFields (base.bind Property.object?) fields)))
  | _, _, json => d.readAttribute key json

/-- **Attributes are read one after the other.** -/
theorem readAll_cons (base : Option Property) (d : Draft) (key : String) (json : Json) (rest : Fields Json) :
    readAll base d ((key, json) :: rest) = d.readOne base key json >>= fun d => readAll base d rest := by
  unfold readOne
  split
  · rename_i heq
    rw [Draft.readAll.eq_2 _ _ _ _ _ heq, bind_assoc]
  · rename_i heq
    rw [Draft.readAll.eq_3 _ _ _ _ _ heq, bind_assoc, ObjectType.ofFields, bind_assoc]
    rfl
  · rename_i hitems hproperties
    exact Draft.readAll.eq_4 _ _ _ _ _ hitems hproperties

/-- **What every attribute keeps, a definition keeps.** -/
theorem readAll_keeps {P : Draft → Prop}
    (step : ∀ {d d' : Draft} {key : String} {json : Json}, P d → d.readOne base key json = .ok d' → P d')
    {fields : Fields Json} {d d' : Draft} (hd : P d) (h : readAll base d fields = .ok d') : P d' := by
  induction fields generalizing d with
  | nil =>
    rw [readAll] at h
    exact Except.ok.inj h ▸ hd
  | cons f rest ih =>
    obtain ⟨key, json⟩ := f
    rw [readAll_cons] at h
    obtain ⟨d₁, h₁, h⟩ := Fault.bind_ok_iff.1 h
    exact ih (step hd h₁) h

theorem readOne_of_ne (d : Draft) {key : String} (hi : key ≠ "items") (hp : key ≠ "properties") (json : Json) :
    d.readOne base key json = d.readAttribute key json := by
  unfold readOne
  split
  · exact absurd rfl hi
  · exact absurd rfl hp
  · rfl

theorem readOne_cases {d d' : Draft} {key : String} {json : Json} (h : d.readOne base key json = .ok d') :
    (∃ q, d.property.kind = .array ∧ Property.ofJson (base.bind items?) json = .ok q ∧
      d' = d.setShape (.array (some (.own q)))) ∨
    (∃ fields properties, d.property.kind = .object ∧ json = .object fields ∧
      ObjectType.ofMembers (base.bind object?) fields = .ok properties ∧
      d' = d.setShape (.object (.own ⟨properties, (base.bind object?).any (·.isOpen)⟩))) ∨
    d.readAttribute key json = .ok d' := by
  unfold readOne at h
  split at h
  · rename_i hs
    obtain ⟨q, hq, h⟩ := Fault.bind_ok_iff.1 h
    exact .inl ⟨q, congrArg Shape.kind hs, hq, (Except.ok.inj h).symm⟩
  · rename_i fields hs
    obtain ⟨o, ho, h⟩ := Fault.bind_ok_iff.1 h
    obtain ⟨properties, hproperties, ho⟩ := Fault.bind_ok_iff.1 ho
    obtain rfl := Except.ok.inj ho
    exact .inr (.inl ⟨fields, properties, congrArg Shape.kind hs, rfl, hproperties, (Except.ok.inj h).symm⟩)
  · exact .inr (.inr h)

/-- An attribute without definitions in it sets `required`, a limit, or nothing of the type. -/
theorem readAttribute_cases {d d' : Draft} {key : String} {json : Json} (h : d.readAttribute key json = .ok d') :
    d'.property = d.property ∨ (∃ b, d'.property = d.property.setRequired b) ∨
      ∃ s, d'.property = { d.property with shape := s } ∧ (∀ g, d.property.shape.From g → s.From g) ∧
        s.items? = none ∧ s.object? = none := by
  unfold readAttribute at h
  split at h
  · obtain rfl := Except.ok.inj h
    exact .inl rfl
  · obtain rfl := Except.ok.inj h
    exact .inl rfl
  · obtain rfl := Except.ok.inj h
    exact .inl rfl
  · split at h
    · obtain rfl := Except.ok.inj h
      exact .inr (.inl ⟨_, rfl⟩)
    · cases h
  · split at h
    · obtain rfl := Except.ok.inj h
      exact .inr (.inl ⟨_, rfl⟩)
    · cases h
  · split at h
    case h_1 range hs _ _ _ _ _ | h_3 range hs _ _ _ _ _ | h_5 range hs _ _ _ _ _ =>
      obtain ⟨limit, _, h⟩ := Fault.bind_ok_iff.1 h
      obtain rfl := Except.ok.inj h
      rw [hs]
      refine .inr (.inr ⟨_, rfl, fun g hg => ?_, rfl, rfl⟩)
      cases g <;> first | exact Bounds.From.setLower hg limit | exact hg.elim
    case h_2 range hs _ _ _ _ _ | h_4 range hs _ _ _ _ _ | h_6 range hs _ _ _ _ _ =>
      obtain ⟨limit, _, h⟩ := Fault.bind_ok_iff.1 h
      obtain rfl := Except.ok.inj h
      rw [hs]
      refine .inr (.inr ⟨_, rfl, fun g hg => ?_, rfl, rfl⟩)
      cases g <;> first | exact Bounds.From.setUpper hg limit | exact hg.elim
    case h_7 =>
      split at h
      · obtain rfl := Except.ok.inj h
        exact .inl rfl
      · cases h
    all_goals cases h

theorem opens_readAttribute {d d' : Draft} {key : String} {json : Json} (hd : Opens base d.property)
    (h : d.readAttribute key json = .ok d') : Opens base d'.property := by
  rcases readAttribute_cases h with he | ⟨b, he⟩ | ⟨s, he, hs, hi, ho⟩
  · exact he ▸ hd
  · exact he ▸ hd.setRequired b
  · exact he ▸ hd.setLimits hs hi ho

/-! ## The end -/

theorem opens_settleOpen {d : Draft} (hb : ∀ c, base = some c → c.WellFormed) (hd : Opens base d.property) :
    Opens base d.settleOpen := by
  unfold settleOpen
  split
  · rename_i isOpen o inherited _ hs
    exact hd.setOpen hb (object?_eq_some_iff.2 ⟨inherited, hs⟩) isOpen
  · exact hd

end Draft

theorem Property.readAllowed_cases {p p' : Property} {given : Option Json} (h : p.readAllowed given = .ok p') :
    p' = p ∨ ∃ list, p' = { p with allowed := some (.own list) } ∧ list ≠ [] ∧
      ∀ v ∈ list, ∃ json, p.shape.convert json = .ok v := by
  unfold readAllowed at h
  split at h
  · exact .inl (Except.ok.inj h).symm
  · cases h
  · rename_i jsons hne
    obtain ⟨list, hlist, h⟩ := Fault.bind_ok_iff.1 h
    replace hlist := Fault.mapError_ok_iff.1 hlist
    refine .inr ⟨list, (Except.ok.inj h).symm, fun he => ?_, fun v hv => ?_⟩
    · obtain rfl := List.forall₂_nil_right_iff.1 (he ▸ Fault.mapM_ok_iff.1 hlist)
      exact hne rfl
    · obtain ⟨json, _, hjson⟩ := Fault.exists_of_mem_mapM hlist hv
      exact ⟨json, (convert_ok_iff.1 hjson).1⟩
  · cases h

theorem Property.readDefault_cases {p p' : Property} {given : Option Json} (h : p.readDefault given = .ok p') :
    p' = p ∨ ∃ v json, p' = { p with default := some (.own v) } ∧ p.convert json = .ok v := by
  unfold readDefault at h
  split at h
  · exact .inl (Except.ok.inj h).symm
  · rename_i json
    obtain ⟨v, hv, h⟩ := Fault.bind_ok_iff.1 h
    exact .inr ⟨v, json, (Except.ok.inj h).symm, Fault.mapError_ok_iff.1 hv⟩

theorem Draft.finish_cases {d : Draft} {p : Property} (h : d.finish = .ok p) :
    d.settleOpen.checkShape = .ok () ∧
      ∃ q, d.settleOpen.readAllowed d.allowed = .ok q ∧ q.readDefault d.default = .ok p := by
  obtain ⟨_, hcheck, h⟩ := Fault.bind_ok_iff.1 h
  obtain ⟨q, hq, h⟩ := Fault.bind_ok_iff.1 h
  exact ⟨hcheck, q, hq, h⟩

/-- The values do not change the shape. -/
theorem Draft.shape_of_finish {d : Draft} {p : Property} (h : d.finish = .ok p) : p.shape = d.settleOpen.shape := by
  obtain ⟨_, q, hq, hp⟩ := finish_cases h
  have hs : q.shape = d.settleOpen.shape := by
    rcases readAllowed_cases hq with rfl | ⟨list, rfl, _⟩
    · rfl
    · rfl
  rcases readDefault_cases hp with rfl | ⟨v, json, rfl, _⟩
  · exact hs
  · exact hs

/-- The values come last, and are values of the type that the other attributes made. -/
theorem Draft.finish_spec {base : Option Property} {d : Draft} {p : Property}
    (hb : ∀ c, base = some c → c.WellFormed) (hd : Opens base d.property) (h : d.finish = .ok p) :
    RestsOn base p ∧ p.WellFormed := by
  have hs : p.shape = d.settleOpen.shape := shape_of_finish h
  have ho : Opens base d.settleOpen := opens_settleOpen hb hd
  obtain ⟨hcheck, q, hq, hp⟩ := finish_cases h
  have hallowed : RestsOn base q ∧ Attribute.isOwn q.default = false := by
    rcases readAllowed_cases hq with rfl | ⟨list, rfl, hne, hlist⟩
    · exact ⟨ho.rests, ho.default⟩
    · exact ⟨ho.rests.setAllowed ho.default hne hlist, ho.default⟩
  have hrests : RestsOn base p := by
    rcases readDefault_cases hp with rfl | ⟨v, json, rfl, hv⟩
    · exact hallowed.1
    · exact hallowed.1.setDefault hv
  refine ⟨hrests, .of_children hrests (fun _ => ?_) fun r hr => ho.children r ?_⟩
  · rw [checkShape, hs]
    exact hcheck
  · cases hr with
    | items h => exact .items (p := d.settleOpen) (by rw [items?, ← hs]; exact h)
    | member h hm => exact .member (p := d.settleOpen) (by rw [object?, ← hs]; exact h) hm

/-! ## Whole definitions -/

/-- Members are read one by one, each over the member of its name. -/
theorem ObjectType.ofMembers_ok_iff {base : Option ObjectType} {fields : Fields Json} {properties : Fields Property} :
    ObjectType.ofMembers base fields = .ok properties ↔
      List.Forall₂ (fun f m => m.1 = f.1 ∧ Property.ofJson (base.bind (·.get? f.1)) f.2 = .ok m.2) fields
        properties := by
  induction fields generalizing properties with
  | nil =>
    rw [ofMembers, List.forall₂_nil_left_iff]
    exact ⟨fun h => (Except.ok.inj h).symm, fun h => h ▸ rfl⟩
  | cons f rest ih =>
    obtain ⟨name, json⟩ := f
    rw [ofMembers, Fault.bind_ok_iff, List.forall₂_cons_left_iff]
    constructor
    · rintro ⟨p, hp, h⟩
      obtain ⟨ps, hps, h⟩ := Fault.bind_ok_iff.1 h
      exact ⟨(name, p), ps, ⟨rfl, Fault.mapError_ok_iff.1 hp⟩, ih.1 hps, (Except.ok.inj h).symm⟩
    · rintro ⟨⟨name', p⟩, ps, ⟨rfl, hp⟩, hps, rfl⟩
      exact ⟨p, Fault.mapError_ok_iff.2 hp, Fault.bind_ok_iff.2 ⟨ps, ih.2 hps, rfl⟩⟩

theorem ObjectType.names_ofFields {base : Option ObjectType} {fields : Fields Json} {type : ObjectType}
    (h : ObjectType.ofFields base fields = .ok type) : type.members.names = fields.names := by
  obtain ⟨properties, hproperties, h⟩ := Fault.bind_ok_iff.1 h
  obtain rfl := Except.ok.inj h
  exact Fields.names_of_forall₂
    (R := fun name json member => Property.ofJson (base.bind (·.get? name)) json = .ok member)
    (ofMembers_ok_iff.1 hproperties)

/-- A definition with attributes starts as the type that it names or shows, and its attributes are read in order. -/
theorem Property.ofJson_object_ok_iff {base : Option Property} {fields : Fields Json} {p : Property} :
    Property.ofJson base (.object fields) = .ok p ↔ ∃ name d d', Definition.typeOf base fields = .ok name ∧
      Draft.start name base = .ok d ∧ Draft.readAll base d fields = .ok d' ∧ d'.finish = .ok p := by
  rw [Property.ofJson]
  constructor
  · intro h
    obtain ⟨name, hname, h⟩ := Fault.bind_ok_iff.1 h
    obtain ⟨d, hd, h⟩ := Fault.bind_ok_iff.1 h
    obtain ⟨d', hd', h⟩ := Fault.bind_ok_iff.1 h
    exact ⟨name, d, d', hname, hd, hd', h⟩
  · rintro ⟨name, d, d', hname, hd, hd', h⟩
    exact Fault.bind_ok_iff.2 ⟨name, hname, Fault.bind_ok_iff.2 ⟨d, hd, Fault.bind_ok_iff.2 ⟨d', hd', h⟩⟩⟩

/-- Every definition starts as some type, and goes on with attributes: the name of a type with none, a bare list with
the allowed values. -/
theorem Property.exists_draft_of_ofJson {base : Option Property} {json : Json} {p : Property}
    (h : Property.ofJson base json = .ok p) : ∃ name d d' fields, Draft.start name base = .ok d ∧
      Draft.readAll base d fields = .ok d' ∧ d'.finish = .ok p := by
  cases json with
  | string text =>
    rw [Property.ofJson] at h
    obtain ⟨name, _, h⟩ := Fault.bind_ok_iff.1 h
    obtain ⟨d, hd, h⟩ := Fault.bind_ok_iff.1 h
    exact ⟨name, d, d, [], hd, by rw [Draft.readAll], h⟩
  | array values =>
    rw [Property.ofJson] at h
    split at h
    · rename_i name _
      obtain ⟨d, hd, h⟩ := Fault.bind_ok_iff.1 h
      refine ⟨name, d, { d with allowed := some (.array values) }, [("enum", .array values)], hd, ?_, h⟩
      rw [Draft.readAll_cons, Draft.readOne_of_ne _ (by decide) (by decide)]
      show Draft.readAll base _ [] = _
      rw [Draft.readAll]
    · cases h
  | object fields =>
    obtain ⟨name, d, d', _, hd, hd', h⟩ := ofJson_object_ok_iff.1 h
    exact ⟨name, d, d', fields, hd, hd', h⟩
  | _ => cases h

/-- One member is read over the member of that name in the base. -/
theorem ObjectType.ofFields_single {base : Option ObjectType} {q : Property} {name : String} {json : Json}
    (h : Property.ofJson (base.bind (·.get? name)) json = .ok q) :
    ObjectType.ofFields base [(name, json)] = .ok ⟨[(name, q)], base.any (·.isOpen)⟩ := by
  have hmembers : ObjectType.ofMembers base [(name, json)] = .ok [(name, q)] :=
    ofMembers_ok_iff.2 (.cons ⟨rfl, h⟩ .nil)
  exact Fault.bind_ok_iff.2 ⟨_, hmembers, rfl⟩

mutual
/-- **What a definition is read as rests on its base, and so does every part of it.** -/
theorem restsOn_ofJson : ∀ (json : Json) {base : Option Property} {p : Property}, json.Sorted →
    (∀ c, base = some c → c.WellFormed) → Property.ofJson base json = .ok p → RestsOn base p ∧ p.WellFormed
  | .string text, base, p, _, hb, h => by
    rw [Property.ofJson] at h
    obtain ⟨name, _, h⟩ := Fault.bind_ok_iff.1 h
    obtain ⟨d, hd, h⟩ := Fault.bind_ok_iff.1 h
    exact Draft.finish_spec hb (Draft.opens_start hb hd) h
  | .array values, base, p, _, hb, h => by
    rw [Property.ofJson] at h
    split at h
    · obtain ⟨d, hd, h⟩ := Fault.bind_ok_iff.1 h
      have hopens : Opens base d.property := Draft.opens_start hb hd
      exact Draft.finish_spec (d := { d with allowed := some (.array values) }) hb hopens h
    · cases h
  | .object fields, base, p, hsorted, hb, h => by
    obtain ⟨_, d, d', _, hd, hd', h⟩ := ofJson_object_ok_iff.1 h
    exact Draft.finish_spec hb (opens_readAll fields hsorted.2 hb (Draft.opens_start hb hd) hd') h
  | .null, _, _, _, _, h => by cases h
  | .bool _, _, _, _, _, h => by cases h
  | .number _, _, _, _, _, h => by cases h

/-- Reading attributes keeps that the type rests on the base. -/
theorem opens_readAll : ∀ (fields : List (String × Json)) {base : Option Property} {d d' : Draft},
    Json.SortedFields fields → (∀ c, base = some c → c.WellFormed) → Opens base d.property →
      Draft.readAll base d fields = .ok d' → Opens base d'.property
  | [], _, _, _, _, _, hd, h => by
    rw [Draft.readAll] at h
    exact Except.ok.inj h ▸ hd
  | (key, json) :: rest, base, d, d', hsorted, hb, hd, h => by
    rw [Draft.readAll_cons] at h
    obtain ⟨d₁, h₁, h⟩ := Fault.bind_ok_iff.1 h
    refine opens_readAll rest hsorted.2 hb ?_ h
    rcases Draft.readOne_cases h₁ with ⟨q, hk, hq, rfl⟩ | ⟨fields, properties, hk, rfl, hp, rfl⟩ | h₁
    · have hbq : ∀ c, base.bind items? = some c → c.WellFormed := fun c hc => by
        obtain ⟨b, rfl, hc⟩ := Option.bind_eq_some_iff.1 hc
        exact (hb b rfl).child (.items hc)
      obtain ⟨hrests, hwf⟩ := restsOn_ofJson json hsorted.1 hbq hq
      exact hd.setItems hk hrests hwf
    · have hbo : ∀ o, base.bind object? = some o → ∀ name c, o.get? name = some c → c.WellFormed := by
        intro o ho name c hc
        obtain ⟨b, rfl, ho⟩ := Option.bind_eq_some_iff.1 ho
        exact (hb b rfl).child (.member ho (Fields.mem_of_get? hc))
      obtain ⟨hnames, hmembers⟩ := ofMembers_spec fields hsorted.1.2 hbo hp
      exact hd.setObject hk (hsorted.1.1.of_names hnames) hmembers
    · exact Draft.opens_readAttribute hd h₁

/-- The members have the names of their definitions, and each rests on the member of its name. -/
theorem ofMembers_spec : ∀ (fields : List (String × Json)) {base : Option ObjectType}
    {properties : List (String × Property)}, Json.SortedFields fields →
      (∀ o, base = some o → ∀ name c, o.get? name = some c → c.WellFormed) →
        ObjectType.ofMembers base fields = .ok properties →
          Fields.names properties = Fields.names fields ∧
            ∀ name q, (name, q) ∈ properties → RestsOn (base.bind (·.get? name)) q ∧ q.WellFormed
  | [], _, _, _, _, h => by
    rw [ObjectType.ofMembers] at h
    obtain rfl := Except.ok.inj h
    exact ⟨rfl, fun _ _ hm => absurd hm List.not_mem_nil⟩
  | (name, json) :: rest, base, properties, hsorted, hb, h => by
    rw [ObjectType.ofMembers] at h
    obtain ⟨p, hp, h⟩ := Fault.bind_ok_iff.1 h
    obtain ⟨ps, hps, h⟩ := Fault.bind_ok_iff.1 h
    obtain rfl := Except.ok.inj h
    obtain ⟨hnames, hmembers⟩ := ofMembers_spec rest hsorted.2 hb hps
    have hbp : ∀ c, base.bind (·.get? name) = some c → c.WellFormed := fun c hc => by
      obtain ⟨o, ho, hc⟩ := Option.bind_eq_some_iff.1 hc
      exact hb o ho name c hc
    refine ⟨congrArg (name :: ·) hnames, fun n q hq => ?_⟩
    rcases List.mem_cons.1 hq with he | hq
    · obtain ⟨rfl, rfl⟩ := Prod.mk.inj he
      exact restsOn_ofJson json hsorted.1 hbp (Fault.mapError_ok_iff.1 hp)
    · exact hmembers n q hq
end

/-! ## Chains of definitions -/

/-- The type is read from a definition over the first of these types, which is read over the next one in turn. -/
inductive Property.Read : List Property → Property → Prop
  | plain {json : Json} {p : Property} (sorted : json.Sorted) (h : Property.ofJson none json = .ok p) : Read [] p
  | derived {json : Json} {base p : Property} {bases : List Property} (sorted : json.Sorted) (hb : Read bases base)
      (h : Property.ofJson (some base) json = .ok p) : Read (base :: bases) p

/-- **A type that is read over a chain rests on the first type of it, and so does every part.** -/
theorem Property.Read.spec {bases : List Property} {p : Property} (h : Read bases p) :
    RestsOn bases.head? p ∧ p.WellFormed := by
  induction h with
  | plain sorted h => exact restsOn_ofJson _ sorted (fun _ he => by cases he) h
  | derived sorted _ h ih => exact restsOn_ofJson _ sorted (fun _ he => Option.some.inj he ▸ ih.2) h

end Capability
