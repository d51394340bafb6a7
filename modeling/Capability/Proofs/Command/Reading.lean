import Capability.Command.Dictionary
import Capability.Proofs.Fault
import Capability.Proofs.Json

/-!
# What commands are read from

A tree gives commands by package and name. Each command of it comes from one definition
(`Dictionary.exists_of_readTree`), under names without a dot that are not empty (`Dictionary.Named`), and over a base it
is a command of the base or starts with `_` (`Dictionary.readCommand_ok_iff`). Its parts, its visibility and its role
are read one by one (`Command.ofFields_ok_iff`).
-/

namespace Capability

namespace Command

variable {name category : String} {base : Option Command} {fields : Fields Json} {c : Command}

/-- **A command is read from a definition part by part.** -/
theorem ofFields_ok_iff : Command.ofFields name category base fields = .ok c ↔
    (∀ part, readPart name base fields part = .ok (c.type part)) ∧
      readVisibility name base fields = .ok c.visibility ∧ readRole name base fields = .ok c.minimalRole ∧
        c.category = category := by
  constructor
  · intro h
    obtain ⟨parameters, hparameters, h⟩ := Fault.bind_ok_iff.1 h
    obtain ⟨progress, hprogress, h⟩ := Fault.bind_ok_iff.1 h
    obtain ⟨results, hresults, h⟩ := Fault.bind_ok_iff.1 h
    obtain ⟨visibility, hvisibility, h⟩ := Fault.bind_ok_iff.1 h
    obtain ⟨role, hrole, h⟩ := Fault.bind_ok_iff.1 h
    obtain rfl := Except.ok.inj h
    refine ⟨fun part => ?_, hvisibility, hrole, rfl⟩
    cases part with
    | parameters => exact hparameters
    | progress => exact hprogress
    | results => exact hresults
  · rintro ⟨hparts, hvisibility, hrole, rfl⟩
    have hparameters : readPart name base fields .parameters = .ok c.parameters := hparts .parameters
    have hprogress : readPart name base fields .progress = .ok c.progress := hparts .progress
    have hresults : readPart name base fields .results = .ok c.results := hparts .results
    unfold ofFields
    rw [hparameters, hprogress, hresults, hvisibility, hrole]
    rfl

/-- A part that is left out is that of the base. -/
theorem readPart_of_none {part : Part} (h : fields.get? part.text = none) (name : String) (base : Option Command) :
    readPart name base fields part = .ok ((base.map (·.type part)).getD .empty) := by
  unfold readPart
  rw [h]

/-- A part that is given is read over that of the base. -/
theorem readPart_of_some {part : Part} {json : Json} (h : fields.get? part.text = some json) {type : ObjectType}
    (hread : readPart name base fields part = .ok type) : ∃ members properties, json = .object members ∧
      ObjectType.ofMembers (base.map (·.type part)) members = .ok properties ∧
        type = ⟨properties, (base.map (·.type part)).any (·.isOpen)⟩ := by
  unfold readPart at hread
  rw [h] at hread
  cases json with
  | object members =>
    obtain ⟨properties, hproperties, htype⟩ := Fault.bind_ok_iff.1 (Fault.mapError_ok_iff.1 hread)
    exact ⟨members, properties, rfl, hproperties, (Except.ok.inj htype).symm⟩
  | _ => cases hread

end Command

namespace Dictionary

variable {category : String} {base : Option Dictionary} {json : Json} {loaded : Fields Command}

/-- Neither name is empty or has a dot. -/
structure Named (package command : String) : Prop where
  package_ne : package ≠ ""
  package_dot : '.' ∉ package.toList
  command_ne : command ≠ ""
  command_dot : '.' ∉ command.toList

/-- Over a base, the name is one of the base or starts with `_`. -/
def Admitted (base : Option Dictionary) (package command : String) : Prop :=
  ∀ d, base = some d → (d.get? (fullName package command)).isSome = true ∨ command.toList.head? = some '_'

/-- **A command is read exactly from an object under proper names** that its base admits. -/
theorem readCommand_ok_iff {package command : String} {c : Command} :
    readCommand category base package command json = .ok c ↔
      Named package command ∧ Admitted base package command ∧ ∃ fields, json = .object fields ∧
        Command.ofFields (fullName package command) category (base.bind (·.get? (fullName package command))) fields =
          .ok c := by
  unfold readCommand
  constructor
  · intro h
    simp only at h
    split at h
    · cases h
    rename_i hpackage
    obtain ⟨hpackage_ne, hpackage_dot⟩ := not_or.1 hpackage
    split at h
    · cases h
    rename_i hcommand_ne
    split at h
    · cases h
    rename_i hcommand_dot
    cases json with
    | object fields =>
      simp only at h
      split at h
      · cases h
      rename_i hcustom
      refine ⟨⟨hpackage_ne, hpackage_dot, hcommand_ne, hcommand_dot⟩, fun d hd => ?_, fields, rfl, h⟩
      subst hd
      cases hget : d.get? (fullName package command) with
      | some b => exact .inl rfl
      | none =>
        refine .inr (Decidable.byContradiction fun hhead => hcustom ⟨rfl, ?_, hhead⟩)
        rw [Option.bind_some, hget]
        rfl
    | _ => cases h
  · rintro ⟨hnamed, hadmitted, fields, rfl, h⟩
    have hcustom : ¬(base.isSome = true ∧ (base.bind (·.get? (fullName package command))).isNone = true ∧
        command.toList.head? ≠ some '_') := by
      rintro ⟨hbase, hnone, hhead⟩
      obtain ⟨d, rfl⟩ := Option.isSome_iff_exists.1 hbase
      rcases hadmitted d rfl with hsome | hunderscore
      · rw [Option.bind_some] at hnone
        rw [Option.isNone_iff_eq_none.1 hnone] at hsome
        cases hsome
      · exact hhead hunderscore
    simp only
    rw [if_neg (not_or.2 ⟨hnamed.package_ne, hnamed.package_dot⟩), if_neg hnamed.command_ne,
      if_neg hnamed.command_dot, if_neg hcustom]
    exact h

theorem exists_of_readPackage {package : String} {definitions : List (String × Json)}
    {entries : List (String × Command)} (h : readPackage category base package definitions = .ok entries) :
    ∀ entry ∈ entries, ∃ command definition, (command, definition) ∈ definitions ∧
      entry.1 = fullName package command ∧ readCommand category base package command definition = .ok entry.2 := by
  induction definitions generalizing entries with
  | nil =>
    obtain rfl := Except.ok.inj h
    exact fun _ hentry => absurd hentry List.not_mem_nil
  | cons d rest ih =>
    obtain ⟨command, definition⟩ := d
    rw [readPackage] at h
    obtain ⟨c, hc, h⟩ := Fault.bind_ok_iff.1 h
    obtain ⟨entries', hentries, h⟩ := Fault.bind_ok_iff.1 h
    obtain rfl := Except.ok.inj h
    intro entry hentry
    rcases List.mem_cons.1 hentry with rfl | hentry
    · exact ⟨command, definition, List.mem_cons_self, rfl, hc⟩
    · obtain ⟨command', definition', hm, hname, hread⟩ := ih hentries entry hentry
      exact ⟨command', definition', List.mem_cons_of_mem _ hm, hname, hread⟩

theorem exists_of_readPackages {packages : List (String × Json)} {entries : List (String × Command)}
    (h : readPackages category base packages = .ok entries) :
    ∀ entry ∈ entries, ∃ package definitions command definition, (package, Json.object definitions) ∈ packages ∧
      (command, definition) ∈ definitions ∧ entry.1 = fullName package command ∧
        readCommand category base package command definition = .ok entry.2 := by
  induction packages generalizing entries with
  | nil =>
    obtain rfl := Except.ok.inj h
    exact fun _ hentry => absurd hentry List.not_mem_nil
  | cons p rest ih =>
    obtain ⟨package, json⟩ := p
    cases json with
    | object definitions =>
      rw [readPackages] at h
      obtain ⟨first, hfirst, h⟩ := Fault.bind_ok_iff.1 h
      obtain ⟨entries', hentries, h⟩ := Fault.bind_ok_iff.1 h
      obtain rfl := Except.ok.inj h
      intro entry hentry
      rcases List.mem_append.1 hentry with hentry | hentry
      · obtain ⟨command, definition, hm, hname, hread⟩ := exists_of_readPackage hfirst entry hentry
        exact ⟨package, definitions, command, definition, List.mem_cons_self, hm, hname, hread⟩
      · obtain ⟨package', definitions', command, definition, hp, hm, hname, hread⟩ := ih hentries entry hentry
        exact ⟨package', definitions', command, definition, List.mem_cons_of_mem _ hp, hm, hname, hread⟩
    | _ => cases h

/-- **Each command of a tree is read from a definition under its names.** -/
theorem exists_of_readTree (h : readTree category base json = .ok loaded) {name : String} {c : Command}
    (hc : loaded.get? name = some c) :
    ∃ packages package definitions command definition, json = .object packages ∧
      (package, Json.object definitions) ∈ packages ∧ (command, definition) ∈ definitions ∧
        name = fullName package command ∧ readCommand category base package command definition = .ok c := by
  cases json with
  | object packages =>
    obtain ⟨entries, hentries, h⟩ := Fault.bind_ok_iff.1 h
    obtain rfl := Except.ok.inj h
    rcases Fields.mem_merge (Fields.mem_of_get? hc) with hm | hm
    · cases hm
    · obtain ⟨package, definitions, command, definition, hp, hd, hname, hread⟩ :=
        exists_of_readPackages hentries _ hm
      exact ⟨packages, package, definitions, command, definition, rfl, hp, hd, hname, hread⟩
  | _ => cases h

/-! ## Definitions that are read -/

/-- Each definition of a package gives a command. -/
theorem mem_of_readPackage {package : String} {definitions : List (String × Json)}
    {entries : List (String × Command)} (h : readPackage category base package definitions = .ok entries) :
    ∀ d ∈ definitions, ∃ c, (fullName package d.1, c) ∈ entries := by
  induction definitions generalizing entries with
  | nil => exact fun _ hd => absurd hd List.not_mem_nil
  | cons d rest ih =>
    obtain ⟨command, definition⟩ := d
    rw [readPackage] at h
    obtain ⟨c, _, h⟩ := Fault.bind_ok_iff.1 h
    obtain ⟨entries', hentries, h⟩ := Fault.bind_ok_iff.1 h
    obtain rfl := Except.ok.inj h
    intro d hd
    rcases List.mem_cons.1 hd with rfl | hd
    · exact ⟨c, List.mem_cons_self⟩
    · obtain ⟨c', hm⟩ := ih hentries d hd
      exact ⟨c', List.mem_cons_of_mem _ hm⟩

theorem mem_of_readPackages {packages : List (String × Json)} {entries : List (String × Command)}
    (h : readPackages category base packages = .ok entries) :
    ∀ package definitions, (package, Json.object definitions) ∈ packages → ∀ d ∈ definitions,
      ∃ c, (fullName package d.1, c) ∈ entries := by
  induction packages generalizing entries with
  | nil => exact fun _ _ hp => absurd hp List.not_mem_nil
  | cons p rest ih =>
    obtain ⟨package', json⟩ := p
    cases json with
    | object definitions' =>
      rw [readPackages] at h
      obtain ⟨first, hfirst, h⟩ := Fault.bind_ok_iff.1 h
      obtain ⟨entries', hentries, h⟩ := Fault.bind_ok_iff.1 h
      obtain rfl := Except.ok.inj h
      intro package definitions hp d hd
      rcases List.mem_cons.1 hp with he | hp
      · obtain ⟨rfl, hobject⟩ := Prod.mk.inj he
        obtain rfl := Json.object.inj hobject
        obtain ⟨c, hm⟩ := mem_of_readPackage hfirst d hd
        exact ⟨c, List.mem_append_left _ hm⟩
      · obtain ⟨c, hm⟩ := ih hentries package definitions hp d hd
        exact ⟨c, List.mem_append_right _ hm⟩
    | _ => cases h

/-- Where all definitions of a package can be read, so can the package. -/
theorem exists_readPackage {package : String} {definitions : List (String × Json)}
    (h : ∀ d ∈ definitions, ∃ c, readCommand category base package d.1 d.2 = .ok c) :
    ∃ entries, readPackage category base package definitions = .ok entries := by
  induction definitions with
  | nil => exact ⟨[], rfl⟩
  | cons d rest ih =>
    obtain ⟨c, hc⟩ := h d List.mem_cons_self
    obtain ⟨entries, hentries⟩ := ih fun d' hd' => h d' (List.mem_cons_of_mem _ hd')
    exact ⟨_, Fault.bind_ok_iff.2 ⟨c, hc, Fault.bind_ok_iff.2 ⟨entries, hentries, rfl⟩⟩⟩

/-- Where all packages are objects and all definitions in them can be read, so can the packages. -/
theorem exists_readPackages {packages : Fields (Fields Json)}
    (h : ∀ package definitions, (package, definitions) ∈ packages → ∀ d ∈ definitions,
      ∃ c, readCommand category base package d.1 d.2 = .ok c) :
    ∃ entries, readPackages category base (packages.mapValues .object) = .ok entries := by
  induction packages with
  | nil => exact ⟨[], rfl⟩
  | cons p rest ih =>
    obtain ⟨package, definitions⟩ := p
    obtain ⟨first, hfirst⟩ := exists_readPackage (h package definitions List.mem_cons_self)
    obtain ⟨entries, hentries⟩ := ih fun package' definitions' hp => h package' definitions' (List.mem_cons_of_mem _ hp)
    exact ⟨_, Fault.bind_ok_iff.2 ⟨first, hfirst, Fault.bind_ok_iff.2 ⟨entries, hentries, rfl⟩⟩⟩

/-! ## Trees in order -/

/-- The commands of a tree have proper names. -/
theorem named_of_readTree (h : readTree category base json = .ok loaded) {name : String} {c : Command}
    (hc : loaded.get? name = some c) : ∃ package command, name = fullName package command ∧ Named package command := by
  obtain ⟨_, package, _, command, _, _, _, _, hname, hread⟩ := exists_of_readTree h hc
  exact ⟨package, command, hname, (readCommand_ok_iff.1 hread).1⟩

/-- In a tree with its names in order, that definition is the one under the two names. -/
theorem exists_property_of_readTree (hs : json.Sorted) (h : readTree category base json = .ok loaded) {name : String}
    {c : Command} (hc : loaded.get? name = some c) :
    ∃ package command definition, name = fullName package command ∧
      json.property? package command = some definition ∧
        readCommand category base package command definition = .ok c := by
  obtain ⟨packages, package, definitions, command, definition, rfl, hp, hd, hname, hread⟩ := exists_of_readTree h hc
  have hdefinitions : (Json.object definitions).Sorted := Json.sortedFields_iff.1 hs.2 _ hp
  refine ⟨package, command, definition, hname, ?_, hread⟩
  rw [Json.property?_of_get? (hs.1.get?_of_mem hp), hdefinitions.1.get?_of_mem hd]

theorem sorted_of_readTree (h : readTree category base json = .ok loaded) : loaded.Sorted := by
  cases json with
  | object packages =>
    obtain ⟨entries, _, h⟩ := Fault.bind_ok_iff.1 h
    obtain rfl := Except.ok.inj h
    exact .ofPairs entries
  | _ => cases h

end Dictionary

end Capability
