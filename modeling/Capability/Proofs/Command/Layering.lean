import Capability.Proofs.Command.Reading
import Capability.Proofs.Schema.Paths

/-!
# Commands over a base

A definition may leave out any part of a command, its visibility and its role; they are then those of the base. The
members that a part gives rest on the members of that name in the base (`Command.restsOn_ofFields`), so that a command
lies over that of its base like a layer (`Command.Layered`).

* `Dictionary.layered_readTree`: all commands of a tree lie over those of the base.
* `Dictionary.exists_tree_other_typeName`: some tree changes the name of a type, where this name ends in `array`.
-/

namespace Capability

open Property

namespace Command

variable {name category : String} {base : Option Command} {fields : Fields Json} {b c : Command}

/-- The types of all members are well-formed. -/
def WellFormed (c : Command) : Prop :=
  ∀ part member p, (c.type part).get? member = some p → p.WellFormed

/-- What a definition leaves out is as in the base, and so are the types of the members: their kinds always, their full
names unless those of the base end in `array`. -/
structure Layered (b : Command) (fields : Fields Json) (c : Command) : Prop where
  part : ∀ part, fields.get? part.text = none → c.type part = b.type part
  kind : ∀ part member q p, (b.type part).get? member = some q → (c.type part).get? member = some p → p.kind = q.kind
  typeName : ∀ part member q p, (b.type part).get? member = some q → (c.type part).get? member = some p →
    q.typeName.innermost ≠ .array → p.typeName = q.typeName
  visibility : fields.get? "visibility" = none → c.visibility = b.visibility
  role : fields.get? "minimalRole" = none → c.minimalRole = b.minimalRole

/-! ## What a definition gives -/

/-- **The members of a command rest on those of its base**, whether their part is given or left out. -/
theorem restsOn_ofFields (hs : (Json.object fields).Sorted) (hb : ∀ b, base = some b → b.WellFormed)
    (h : Command.ofFields name category base fields = .ok c) {part : Part} {member : String} {p : Property}
    (hp : (c.type part).get? member = some p) :
    p.WellFormed ∧ ∀ b q, base = some b → (b.type part).get? member = some q → RestsOn (some q) p := by
  have hpart : readPart name base fields part = .ok (c.type part) := (ofFields_ok_iff.1 h).1 part
  cases hget : fields.get? part.text with
  | none =>
    rw [readPart_of_none hget] at hpart
    rw [← Except.ok.inj hpart] at hp
    cases base with
    | none => cases hp
    | some b =>
      -- the member is that of the base itself
      have hw : p.WellFormed := hb b rfl part member p hp
      refine ⟨hw, fun b' q hb' hq => ?_⟩
      obtain rfl := Option.some.inj hb'
      obtain rfl := Option.some.inj (hp.symm.trans hq)
      exact hw.rests_self
  | some json =>
    obtain ⟨members, properties, rfl, hproperties, htype⟩ := readPart_of_some hget hpart
    have hmembers : (Json.object members).Sorted := Json.sortedFields_iff.1 hs.2 _ (Fields.mem_of_get? hget)
    have hbase : ∀ o, base.map (·.type part) = some o → ∀ name q, o.get? name = some q → q.WellFormed := by
      intro o ho name q hq
      obtain ⟨b, rfl, rfl⟩ := Option.map_eq_some_iff.1 ho
      exact hb b rfl part name q hq
    obtain ⟨_, hrests⟩ := ofMembers_spec members hmembers.2 hbase hproperties
    rw [htype] at hp
    obtain ⟨hrests, hw⟩ := hrests member p (Fields.mem_of_get? hp)
    refine ⟨hw, fun b q hb hq => ?_⟩
    rwa [hb, Option.map_some, Option.bind_some, hq] at hrests

theorem wellFormed_ofFields (hs : (Json.object fields).Sorted) (hb : ∀ b, base = some b → b.WellFormed)
    (h : Command.ofFields name category base fields = .ok c) : c.WellFormed :=
  fun _ _ _ hp => (restsOn_ofFields hs hb h hp).1

/-- **A command lies over that of its base.** -/
theorem layered_ofFields (hs : (Json.object fields).Sorted) (hb : b.WellFormed)
    (h : Command.ofFields name category (some b) fields = .ok c) : b.Layered fields c := by
  obtain ⟨hparts, hvisibility, hrole, _⟩ := ofFields_ok_iff.1 h
  have hrests : ∀ {part member q p}, (b.type part).get? member = some q → (c.type part).get? member = some p →
      RestsOn (some q) p :=
    fun hq hp => (restsOn_ofFields hs (fun _ he => Option.some.inj he ▸ hb) h hp).2 b _ rfl hq
  refine ⟨fun part hget => ?_, fun _ _ _ _ hq hp => (hrests hq hp).kind_eq,
    fun _ _ _ _ hq hp => (hrests hq hp).typeName_eq (hb _ _ _ hq), fun hget => ?_, fun hget => ?_⟩
  · have hpart := hparts part
    rw [readPart_of_none hget] at hpart
    exact (Except.ok.inj hpart).symm
  · rw [readVisibility, hget] at hvisibility
    exact (Except.ok.inj hvisibility).symm
  · rw [readRole, hget] at hrole
    exact (Except.ok.inj hrole).symm

/-! ## Definitions of one member -/

theorem Part.text_inj {part part' : Part} (h : part.text = part'.text) : part = part' := by
  revert h
  cases part <;> cases part' <;> decide

/-- Where all parts, the visibility and the role can be read, so can the command. -/
theorem exists_ofFields (hparts : ∀ part, ∃ type, readPart name base fields part = .ok type)
    (hvisibility : ∃ v, readVisibility name base fields = .ok v) (hrole : ∃ r, readRole name base fields = .ok r)
    (category : String) : ∃ c, Command.ofFields name category base fields = .ok c := by
  choose type htype using hparts
  obtain ⟨v, hv⟩ := hvisibility
  obtain ⟨r, hr⟩ := hrole
  refine ⟨⟨category, type .parameters, type .progress, type .results, v, r⟩, ofFields_ok_iff.2 ⟨?_, hv, hr, rfl⟩⟩
  intro part
  cases part with
  | parameters => exact htype .parameters
  | progress => exact htype .progress
  | results => exact htype .results

/-- A definition may give one member of one part, over the member of that name in the base. -/
theorem exists_ofFields_member {part : Part} {member : String} {json : Json} {p : Property}
    (h : Property.ofJson ((b.type part).get? member) json = .ok p) (name category : String) :
    ∃ c, Command.ofFields name category (some b) [(part.text, .object [(member, json)])] = .ok c ∧
      (c.type part).get? member = some p := by
  have hpart : readPart name (some b) [(part.text, .object [(member, json)])] part =
      .ok ⟨[(member, p)], (b.type part).isOpen⟩ := by
    unfold readPart
    rw [Fields.get?_cons, if_pos rfl]
    exact Fault.mapError_ok_iff.2 (ObjectType.ofFields_single h)
  have hparts : ∀ part', ∃ type,
      readPart name (some b) [(part.text, .object [(member, json)])] part' = .ok type := by
    intro part'
    by_cases he : part' = part
    · subst he
      exact ⟨_, hpart⟩
    · refine ⟨_, readPart_of_none ?_ _ _⟩
      rw [Fields.get?_cons, if_neg fun ht => he (Part.text_inj ht)]
      rfl
  -- neither the visibility nor the role is given
  obtain ⟨c, hc⟩ := exists_ofFields hparts (by cases part <;> exact ⟨_, rfl⟩) (by cases part <;> exact ⟨_, rfl⟩)
    category
  refine ⟨c, hc, ?_⟩
  have htype : c.type part = ⟨[(member, p)], (b.type part).isOpen⟩ :=
    Except.ok.inj (((ofFields_ok_iff.1 hc).1 part).symm.trans hpart)
  rw [htype]
  show Fields.get? [(member, p)] member = some p
  rw [Fields.get?_cons, if_pos rfl]

end Command

namespace Dictionary

variable {category name : String} {base : Option Dictionary} {json : Json} {loaded : Fields Command} {d : Dictionary}
  {b c : Command}

/-- The commands are well-formed and have proper names. -/
structure WellFormed (d : Dictionary) : Prop where
  named : ∀ name c, d.get? name = some c → ∃ package command, name = fullName package command ∧ Named package command
  command : ∀ name c, d.get? name = some c → c.WellFormed

theorem wellFormed_readTree (hs : json.Sorted) (h : readTree category none json = .ok loaded) :
    WellFormed ⟨loaded⟩ := by
  constructor
  · exact fun name c hc => named_of_readTree h hc
  · intro name c hc
    obtain ⟨package, command, definition, rfl, hdefinition, hread⟩ := exists_property_of_readTree hs h hc
    obtain ⟨_, _, fields, rfl, hfields⟩ := readCommand_ok_iff.1 hread
    exact Command.wellFormed_ofFields (hs.property? hdefinition) (fun _ he => by cases he) hfields

/-- **Each command of a tree is one of the base or starts with `_`, and lies over that of the base.** -/
theorem layered_readTree (hs : json.Sorted) (hd : d.WellFormed) (h : readTree category (some d) json = .ok loaded)
    (hc : loaded.get? name = some c) :
    ∃ package command fields, name = fullName package command ∧ Named package command ∧
      json.property? package command = some (.object fields) ∧
      ((d.get? name).isSome = true ∨ command.toList.head? = some '_') ∧
      ∀ b, d.get? name = some b → b.Layered fields c := by
  obtain ⟨package, command, definition, rfl, hdefinition, hread⟩ := exists_property_of_readTree hs h hc
  obtain ⟨hnamed, hadmitted, fields, rfl, hfields⟩ := readCommand_ok_iff.1 hread
  refine ⟨package, command, fields, rfl, hnamed, hdefinition, hadmitted d rfl, fun b hb => ?_⟩
  rw [Option.bind_some, hb] at hfields
  exact Command.layered_ofFields (hs.property? hdefinition) (hd.command _ _ hb) hfields

/-- A tree of one command, of the base. -/
theorem readTree_single {package command : String} {fields : Fields Json} (hnamed : Named package command)
    (hb : d.get? (fullName package command) = some b)
    (h : Command.ofFields (fullName package command) category (some b) fields = .ok c) :
    readTree category (some d) (.object [(package, .object [(command, .object fields)])]) =
      .ok [(fullName package command, c)] := by
  have hread : readCommand category (some d) package command (.object fields) = .ok c := by
    refine readCommand_ok_iff.2 ⟨hnamed, fun d' hd' => .inl ?_, fields, rfl, ?_⟩
    · rw [← Option.some.inj hd', hb]
      rfl
    · rw [Option.bind_some, hb]
      exact h
  have hpackage : readPackage category (some d) package [(command, .object fields)] =
      .ok [(fullName package command, c)] := by
    rw [readPackage, hread]
    rfl
  rw [readTree, readPackages, hpackage]
  rfl

/-- **Where the name of a type in the base ends in `array`, some tree changes this name.** -/
theorem exists_tree_other_typeName (hd : d.WellFormed) (hb : d.get? name = some b) {part : Command.Part}
    {member : String} {q : Property} (hq : (b.type part).get? member = some q)
    (hlast : q.typeName.innermost = .array) (category : String) :
    ∃ json c p, json.Sorted ∧ readTree category (some d) json = .ok [(name, c)] ∧
      (c.type part).get? member = some p ∧ p.typeName ≠ q.typeName := by
  obtain ⟨package, command, rfl, hnamed⟩ := hd.named _ _ hb
  obtain ⟨json, p, hs, hp, hne⟩ := exists_other_typeName (hd.command _ _ hb _ _ _ hq) hlast
  rw [← hq] at hp
  obtain ⟨c, hc, hget⟩ := Command.exists_ofFields_member hp (fullName package command) category
  have hfields : (Json.object [(part.text, .object [(member, json)])]).Sorted := (hs.single _).single _
  exact ⟨_, c, p, (hfields.single _).single _, readTree_single hnamed hb hc, hget, hne⟩

end Dictionary

end Capability
