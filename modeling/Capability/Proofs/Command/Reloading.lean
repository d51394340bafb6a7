import Capability.Proofs.Command.Grouping
import Capability.Proofs.Command.Layering
import Capability.Proofs.Schema.FullForm

/-!
# Listings that are loaded again

A dictionary that was filled without a base is listed in full and the listing is loaded into an empty dictionary. The
commands come back, with the same parts and the same roles, exactly if every array in them has a type for its items
(`Dictionary.reload_iff`). Otherwise the listing is refused, as the full form of the type alone is.

* `ObjectType.Plain.exists_ofFields`, `ObjectType.Plain.spec_of_ofFields`: the members of a part are read again.
* `Command.Plain.exists_ofFields`, `Command.Plain.spec_of_ofFields`: so is a command, part by part.
* `Dictionary.get?_readTree_iff`: a tree of packages gives a command for each definition in it.
-/

namespace Capability

open Property

/-! ## Parts without a base -/

namespace ObjectType

variable {o o' : ObjectType}

/-- The type of a part that has no base: it is closed, and its members have no base either. -/
structure Plain (o : ObjectType) : Prop where
  isOpen : o.isOpen = false
  sorted : o.members.Sorted
  member : ∀ name p, o.get? name = some p → RestsOn none p ∧ p.WellFormed

/-- Every array in the types of the members has a type for its items. -/
def Typed (o : ObjectType) : Prop :=
  ∀ name p, o.get? name = some p → ∀ r, Part r p → r.shape ≠ .array none

theorem plain_empty : Plain .empty := by
  refine ⟨rfl, Fields.sorted_nil, fun name p hp => ?_⟩
  cases hp

/-- What is read without a base has none. -/
theorem plain_ofMembers {members : Fields Json} {properties : Fields Property} (hs : (Json.object members).Sorted)
    (h : ObjectType.ofMembers none members = .ok properties) : Plain ⟨properties, false⟩ := by
  obtain ⟨hnames, hmembers⟩ := ofMembers_spec members hs.2 (fun _ he => by cases he) h
  exact ⟨rfl, hs.1.of_names hnames, fun name p hp => hmembers name p (Fields.mem_of_get? hp)⟩

/-- **The members of a part are read again, if every array in them has a type for its items.** -/
theorem Plain.exists_ofFields (h : o.Plain) (ht : o.Typed) :
    ∃ o', ObjectType.ofFields none (membersToJson .full o.properties) = .ok o' ∧ (o' == o) = true := by
  have hmembers : ∀ name p, (name, p) ∈ o.properties → p.ReadsBack .full none := by
    intro name p hp
    have hget : o.get? name = some p := h.sorted.get?_of_mem hp
    obtain ⟨hrests, hw⟩ := h.member name p hget
    exact hrests.readsBack_full hw (ht name p hget)
  obtain ⟨properties, hread, hbare⟩ :
      ∃ properties, ObjectType.ofMembers none (Fields.mapValues (Property.toJson .full) o.properties) = .ok properties ∧
        Fields.mapValues bare properties = Fields.mapValues bare o.properties :=
    Draft.exists_ofMembers hmembers
  refine ⟨⟨properties, false⟩, ?_, ?_⟩
  · rw [ObjectType.ofFields, membersToJson_eq_mapValues, hread]
    rfl
  · obtain ⟨members, isOpen⟩ := o
    obtain rfl : isOpen = false := h.isOpen
    show (sameMembers properties members && (false == false)) = true
    rw [sameMembers_of_bare_eq (fun _ _ _ _ he => same_of_bare_eq he) hbare]
    rfl

/-- **Only then are they read at all, and what is read is the same.** -/
theorem Plain.spec_of_ofFields (h : o.Plain)
    (hread : ObjectType.ofFields none (membersToJson .full o.properties) = .ok o') :
    o.Typed ∧ (o' == o) = true := by
  have htyped : o.Typed := fun name p hp r hr hs => by
    rw [membersToJson_eq_mapValues] at hread
    obtain ⟨properties, hproperties, _⟩ := Fault.bind_ok_iff.1 hread
    obtain ⟨q, hq⟩ := Draft.ofJson_of_ofMembers hproperties (List.mem_map_of_mem (Fields.mem_of_get? hp))
    exact ofJson_full_ne_ok (h.member name p hp).1 hr hs q hq
  obtain ⟨o'', hread', hsame⟩ := h.exists_ofFields htyped
  obtain rfl := Except.ok.inj (hread'.symm.trans hread)
  exact ⟨htyped, hsame⟩

end ObjectType

/-! ## Commands without a base -/

namespace Command

variable {name category : String} {c c' : Command}

/-- No part has a base. -/
def Plain (c : Command) : Prop :=
  ∀ part, (c.type part).Plain

/-- Every array in the parts has a type for its items. -/
def Typed (c : Command) : Prop :=
  ∀ part, (c.type part).Typed

/-- Both commands have equal parts and the same role. -/
structure Same (c c' : Command) : Prop where
  part : ∀ part, (c.type part == c'.type part) = true
  minimalRole : c.minimalRole = c'.minimalRole

/-- What is read without a base has none. -/
theorem plain_ofFields {fields : Fields Json} (hs : (Json.object fields).Sorted)
    (h : Command.ofFields name category none fields = .ok c) : c.Plain := by
  intro part
  have hpart := (ofFields_ok_iff.1 h).1 part
  cases hget : fields.get? part.text with
  | none =>
    rw [readPart_of_none hget] at hpart
    rw [← Except.ok.inj hpart]
    exact ObjectType.plain_empty
  | some json =>
    obtain ⟨members, properties, rfl, hproperties, htype⟩ := readPart_of_some hget hpart
    have hmembers : (Json.object members).Sorted := Json.sortedFields_iff.1 hs.2 _ (Fields.mem_of_get? hget)
    rw [htype]
    exact ObjectType.plain_ofMembers hmembers hproperties

/-! ### The written form -/

/-- What is written of a command, under its keys. -/
def written (form : Form) (c : Command) : Fields Json :=
  Fields.present
    [("minimalRole", some (.string c.minimalRole.text)), ("parameters", c.partToJson? form .parameters),
      ("progress", c.partToJson? form .progress), ("results", c.partToJson? form .results)]

theorem toJson_eq (form : Form) (c : Command) : c.toJson form = .object (c.written form) := rfl

theorem get?_written (form : Form) (c : Command) (key : String) : (c.written form).get? key =
    ([("minimalRole", some (.string c.minimalRole.text)), ("parameters", c.partToJson? form .parameters),
      ("progress", c.partToJson? form .progress), ("results", c.partToJson? form .results)].lookup key).join := by
  refine Fields.get?_present ?_ key
  show ["minimalRole", "parameters", "progress", "results"].Nodup
  decide

theorem get?_written_part (form : Form) (c : Command) (part : Part) :
    (c.written form).get? part.text = c.partToJson? form part := by
  rw [get?_written]
  cases part <;> rfl

/-- The role is read as it was written. -/
theorem readRole_written (form : Form) (c : Command) (name : String) :
    readRole name none (c.written form) = .ok c.minimalRole := by
  have hget : (c.written form).get? "minimalRole" = some (.string c.minimalRole.text) := get?_written form c _
  unfold readRole
  rw [hget]
  show (Role.ofText c.minimalRole.text).mapError _ = _
  rw [Role.ofText_text]
  rfl

/-- The visibility is not written. -/
theorem readVisibility_written (form : Form) (c : Command) (name : String) :
    readVisibility name none (c.written form) = .ok .everywhere := by
  have hget : (c.written form).get? "visibility" = none := get?_written form c _
  unfold readVisibility
  rw [hget]
  rfl

/-- A part that is written is read from its members, and one that is left out is empty and is read as such. -/
theorem readPart_written (h : c.Plain) (form : Form) (name : String) (part : Part) :
    (∃ json, (c.written form).get? part.text = some json ∧ readPart name none (c.written form) part =
      (ObjectType.ofFields none (membersToJson form (c.type part).properties)).mapError (invalidPart name)) ∨
    c.type part = .empty ∧ readPart name none (c.written form) part = .ok .empty := by
  have hget := get?_written_part form c part
  unfold partToJson? at hget
  split at hget
  · rename_i hleft
    refine .inr ⟨?_, readPart_of_none hget name none⟩
    have hempty : (c.type part).properties = [] := List.isEmpty_iff.1 hleft.2
    have hclosed := (h part).isOpen
    rw [ObjectType.empty, ← hempty, ← hclosed]
  · refine .inl ⟨_, hget, ?_⟩
    unfold readPart
    rw [hget]
    rfl

/-- **A command is read again, if every array in it has a type for its items.** -/
theorem Plain.exists_ofFields (h : c.Plain) (ht : c.Typed) (name category : String) :
    ∃ c', Command.ofFields name category none (c.written .full) = .ok c' := by
  refine Command.exists_ofFields (fun part => ?_) ⟨_, readVisibility_written .full c name⟩
    ⟨_, readRole_written .full c name⟩ category
  rcases readPart_written h .full name part with ⟨_, _, hread⟩ | ⟨_, hread⟩
  · obtain ⟨o, ho, _⟩ := (h part).exists_ofFields (ht part)
    exact ⟨o, hread.trans (Fault.mapError_ok_iff.2 ho)⟩
  · exact ⟨_, hread⟩

/-- **Only then is it read at all, and what is read is the same.** -/
theorem Plain.spec_of_ofFields (h : c.Plain)
    (hread : Command.ofFields name category none (c.written .full) = .ok c') : c.Typed ∧ c'.Same c := by
  obtain ⟨hparts, _, hrole, _⟩ := ofFields_ok_iff.1 hread
  have hpart : ∀ part, (c.type part).Typed ∧ (c'.type part == c.type part) = true := by
    intro part
    rcases readPart_written h .full name part with ⟨_, _, hwritten⟩ | ⟨hempty, hwritten⟩
    · exact (h part).spec_of_ofFields (Fault.mapError_ok_iff.1 (hwritten.symm.trans (hparts part)))
    · rw [hempty, ← Except.ok.inj (hwritten.symm.trans (hparts part))]
      refine ⟨fun _ _ hp => ?_, rfl⟩
      cases hp
  refine ⟨fun part => (hpart part).1, fun part => (hpart part).2, ?_⟩
  exact (Except.ok.inj ((readRole_written .full c name).symm.trans hrole)).symm

end Command

namespace Dictionary

/-! ## Trees of packages -/

section Trees

variable {category name : String} {base : Option Dictionary} {packages : Fields (Fields Json)}
  {loaded : Fields Command} {c : Command}

theorem Grouped.find?_of_mem {α : Type} {packages : Fields (Fields α)} (h : Grouped packages) {package command : String}
    {commands : Fields α} {value : α} (hp : (package, commands) ∈ packages) (hc : (command, value) ∈ commands) :
    find? packages package command = some value := by
  have hcommands : Fields.Sorted commands := (h.package _ hp).1
  rw [find?, h.sorted.get?_of_mem hp]
  exact hcommands.get?_of_mem hc

/-- The tree is read if all definitions in it are. -/
theorem exists_readTree (h : Grouped packages) (hread : ∀ package command json,
      find? packages package command = some json → ∃ c, readCommand category base package command json = .ok c) :
    ∃ loaded, readTree category base (.object (packages.mapValues .object)) = .ok loaded := by
  obtain ⟨entries, hentries⟩ := exists_readPackages fun package commands hp d hd =>
    hread package d.1 d.2 (h.find?_of_mem hp hd)
  exact ⟨_, Fault.bind_ok_iff.2 ⟨entries, hentries, rfl⟩⟩

/-- Each definition in the tree gives a command of its full name. -/
theorem exists_get?_readTree (h : readTree category base (.object (packages.mapValues .object)) = .ok loaded)
    {package command : String} {json : Json} (hjson : find? packages package command = some json) :
    ∃ c, loaded.get? (fullName package command) = some c := by
  obtain ⟨entries, hentries, h⟩ := Fault.bind_ok_iff.1 h
  obtain rfl := Except.ok.inj h
  obtain ⟨commands, hp, hd⟩ := Option.bind_eq_some_iff.1 hjson
  have hobject : (package, Json.object commands) ∈ packages.mapValues Json.object :=
    List.mem_map_of_mem (Fields.mem_of_get? hp)
  obtain ⟨c, hm⟩ := mem_of_readPackages hentries package commands hobject _ (Fields.mem_of_get? hd)
  have hname : fullName package command ∈ Fields.names entries.reverse :=
    List.mem_map_of_mem (List.mem_reverse.2 hm)
  rw [Fields.get?_ofPairs]
  exact Option.ne_none_iff_exists'.1 (Fields.mem_names_iff.1 hname)

/-- **The tree gives a command for each definition in it, and no others.** -/
theorem get?_readTree_iff (h : Grouped packages)
    (hread : readTree category base (.object (packages.mapValues .object)) = .ok loaded) :
    loaded.get? name = some c ↔ ∃ package command json, name = fullName package command ∧
      find? packages package command = some json ∧ readCommand category base package command json = .ok c := by
  have hfound : ∀ {name c}, loaded.get? name = some c → ∃ package command json, name = fullName package command ∧
      find? packages package command = some json ∧ readCommand category base package command json = .ok c := by
    intro name c hc
    obtain ⟨_, package, commands, command, json, he, hp, hd, hname, hread⟩ := exists_of_readTree hread hc
    obtain rfl := Json.object.inj he
    obtain ⟨⟨package', commands'⟩, hmem, he⟩ := List.mem_map.1 hp
    obtain ⟨rfl, hobject⟩ := Prod.mk.inj he
    obtain rfl := Json.object.inj hobject
    exact ⟨_, command, json, hname, h.find?_of_mem hmem hd, hread⟩
  refine ⟨hfound, ?_⟩
  rintro ⟨package, command, json, rfl, hjson, hc⟩
  obtain ⟨c', hc'⟩ := exists_get?_readTree hread hjson
  -- that command is read from the same definition
  obtain ⟨package', command', json', hname, hjson', hread'⟩ := hfound hc'
  obtain ⟨rfl, rfl⟩ := (readCommand_ok_iff.1 hc).1.fullName_inj (readCommand_ok_iff.1 hread').1 hname
  obtain rfl := Option.some.inj (hjson.symm.trans hjson')
  rw [hc', Except.ok.inj (hread'.symm.trans hc)]

end Trees

/-! ## Loading a listing -/

variable {category name : String} {c : Command}

/-- The call loads a tree without a base, with its names in order, or clears. -/
def Call.Plain : Call → Prop
  | .load json _ base => json.Sorted ∧ base = none
  | .clear => True

/-- The commands that are loaded without a base have none. -/
theorem plain_run {calls : List Call} (hcalls : ∀ call ∈ calls, call.Plain)
    (hc : (run calls).dictionary.get? name = some c) : c.Plain := by
  obtain ⟨json, base, loaded, hlast, hread, hget⟩ := Run.exists_load (owned_run calls) hc
  obtain ⟨hs, rfl⟩ := hcalls _ (mem_of_lastLoad?_run hlast)
  obtain ⟨package, command, definition, rfl, hdefinition, hcommand⟩ := exists_property_of_readTree hs hread hget
  obtain ⟨_, _, fields, rfl, hfields⟩ := readCommand_ok_iff.1 hcommand
  exact Command.plain_ofFields (hs.property? hdefinition) hfields

/-- What lies in a listing of all commands. -/
theorem exists_packages (calls : List Call) (form : Form) :
    ∃ packages : Fields (Fields Json), (run calls).dictionary.toJson form (fun _ => true) =
        .object (packages.mapValues .object) ∧ Grouped packages ∧
      ∀ package command json, find? packages package command = some json ↔ '.' ∉ package.toList ∧
        ∃ c, (run calls).dictionary.get? (fullName package command) = some c ∧ json = c.toJson form := by
  refine ⟨_, rfl, grouped_gather _, fun package command json => ?_⟩
  have hfound := property?_toJson (owned_run calls).sorted form (fun _ => true) package command
  rw [toJson, property?_packages] at hfound
  rw [hfound]
  split
  · rename_i hdot
    refine ⟨fun h => ?_, fun h => absurd hdot h.1⟩
    cases h
  · rename_i hdot
    have hkeep : ∀ c? : Option Command, c?.filter (fun _ => true) = c? := fun c? => by cases c? <;> rfl
    rw [hkeep, Option.map_eq_some_iff, and_iff_right hdot]
    exact exists_congr fun c => and_congr_right fun _ => eq_comm

/-- What the listing of all commands is read as: each command comes from the written form of the command of its name. -/
theorem get?_reread {calls : List Call} {loaded : Fields Command}
    (h : readTree category none ((run calls).dictionary.toJson .full fun _ => true) = .ok loaded) (name : String) :
    Option.Rel (fun c' c => Command.ofFields name category none (c.written .full) = .ok c') (loaded.get? name)
      ((run calls).dictionary.get? name) := by
  obtain ⟨packages, hlisting, hgrouped, hfind⟩ := exists_packages calls .full
  rw [hlisting] at h
  cases hget : loaded.get? name with
  | some c' =>
    obtain ⟨package, command, json, rfl, hjson, hread⟩ := (get?_readTree_iff hgrouped h).1 hget
    obtain ⟨_, c, hc, rfl⟩ := (hfind package command json).1 hjson
    obtain ⟨_, _, fields, hfields, hcommand⟩ := readCommand_ok_iff.1 hread
    obtain rfl := Json.object.inj hfields
    rw [hc]
    exact .some hcommand
  | none =>
    cases hold : (run calls).dictionary.get? name with
    | none => exact .none
    | some c =>
      obtain ⟨package, command, rfl, hnamed⟩ := named_run calls hold
      obtain ⟨c', hc'⟩ := exists_get?_readTree h
        ((hfind package command (c.toJson .full)).2 ⟨hnamed.package_dot, c, hold, rfl⟩)
      rw [hget] at hc'
      cases hc'

/-- The listing of all commands is read, if the written form of each is. -/
theorem exists_reread {calls : List Call} (h : ∀ name c, (run calls).dictionary.get? name = some c →
      ∃ c', Command.ofFields name category none (c.written .full) = .ok c') :
    ∃ loaded, readTree category none ((run calls).dictionary.toJson .full fun _ => true) = .ok loaded := by
  obtain ⟨packages, hlisting, hgrouped, hfind⟩ := exists_packages calls .full
  rw [hlisting]
  refine exists_readTree hgrouped fun package command json hjson => ?_
  obtain ⟨hdot, c, hc, rfl⟩ := (hfind package command json).1 hjson
  obtain ⟨package', command', hname, hnamed⟩ := named_run calls hc
  -- the parts of the name that are listed are the proper ones
  have hparted := hnamed.first?_fullName
  rw [← hname, first?_eq_iff.2 ⟨hdot, rfl⟩] at hparted
  obtain ⟨rfl, rfl⟩ := Prod.mk.inj (Option.some.inj hparted)
  obtain ⟨c', hc'⟩ := h _ c hc
  refine ⟨c', readCommand_ok_iff.2 ⟨hnamed, fun _ he => ?_, _, Command.toJson_eq .full c, hc'⟩⟩
  cases he

/-- **A dictionary that was filled without a base is loaded again from its full listing exactly if every array in it has
a type for its items. It then has the same names, and under each a command with the same parts and the same role.** -/
theorem reload_iff {calls : List Call} (hcalls : ∀ call ∈ calls, call.Plain) (category : String) :
    let d := (run calls).dictionary
    ((∃ d', Dictionary.empty.load (d.toJson .full fun _ => true) category none = .ok d') ↔
      ∀ name c, d.get? name = some c → c.Typed) ∧
    ∀ d', Dictionary.empty.load (d.toJson .full fun _ => true) category none = .ok d' →
      d'.names = d.names ∧ ∀ name c, d.get? name = some c → ∃ c', d'.get? name = some c' ∧ c'.Same c := by
  intro d
  have hplain : ∀ {name c}, d.get? name = some c → c.Plain := plain_run hcalls
  have hreread : ∀ {d'}, Dictionary.empty.load (d.toJson .full fun _ => true) category none = .ok d' →
      d'.commands.Sorted ∧ ∀ name, Option.Rel
        (fun c' c => Command.ofFields name category none (c.written .full) = .ok c') (d'.get? name) (d.get? name) := by
    intro d' hload
    obtain ⟨loaded, hread, rfl⟩ := load_empty_ok_iff.1 hload
    refine ⟨sorted_replace Fields.sorted_nil category loaded, fun name => ?_⟩
    rw [get?_replace_empty (sorted_of_readTree hread)]
    exact get?_reread hread name
  have hsame : ∀ {d'}, Dictionary.empty.load (d.toJson .full fun _ => true) category none = .ok d' →
      ∀ {name c}, d.get? name = some c → ∃ c', d'.get? name = some c' ∧ c.Typed ∧ c'.Same c := by
    intro d' hload name c hc
    have hrel := (hreread hload).2 name
    rw [hc] at hrel
    cases hget : d'.get? name with
    | none =>
      rw [hget] at hrel
      cases hrel
    | some c' =>
      rw [hget] at hrel
      cases hrel with
      | some hread => exact ⟨c', rfl, (hplain hc).spec_of_ofFields hread⟩
  refine ⟨⟨?_, fun htyped => ?_⟩, fun d' hload => ⟨?_, fun name c hc => ?_⟩⟩
  · rintro ⟨d', hload⟩ name c hc
    obtain ⟨_, _, htyped, _⟩ := hsame hload hc
    exact htyped
  · have hcommand : ∀ name c, d.get? name = some c →
        ∃ c', Command.ofFields name category none (c.written .full) = .ok c' := fun name c hc =>
      (hplain hc).exists_ofFields (htyped name c hc) name category
    obtain ⟨loaded, hread⟩ := exists_reread hcommand
    exact ⟨_, load_empty_ok_iff.2 ⟨loaded, hread, rfl⟩⟩
  · obtain ⟨hsorted, hrel⟩ := hreread hload
    refine hsorted.names_ext (owned_run calls).sorted fun name => ?_
    have hname := hrel name
    show (d'.get? name).isSome = (d.get? name).isSome
    generalize d'.get? name = c'?, d.get? name = c? at hname
    cases hname <;> rfl
  · obtain ⟨c', hc', _, hsame⟩ := hsame hload hc
    exact ⟨c', hc', hsame⟩

/-- A command with a list of integers and one of another category are loaded again. -/
theorem reload_iff_delays : ∃ calls : List Call,
    calls =
      [.load (.object [("base", .object [("reboot", .object [("minimalRole", .string "manager"),
          ("parameters", .object [("delays", .string "array.integer")])])])]) "base" none,
        .load (.object [("robot", .object [("jump", .object [])])]) "robots" none] ∧
    (∀ call ∈ calls, call.Plain) ∧ (run calls).dictionary.names = ["base.reboot", "robot.jump"] ∧
    (∀ name c, (run calls).dictionary.get? name = some c → c.Typed) ∧
    ∃ d', Dictionary.empty.load ((run calls).dictionary.toJson .full fun _ => true) "copy" none = .ok d' ∧
      d'.names = (run calls).dictionary.names ∧
      ∀ name c, (run calls).dictionary.get? name = some c → ∃ c', d'.get? name = some c' ∧ c'.Same c := by
  let delays : Property := .ofTypeName (.arrayOf (.plain .integer))
  let reboot : Command := ⟨"base", ⟨[("delays", delays)], false⟩, .empty, .empty, .everywhere, .manager⟩
  let jump : Command := ⟨"robots", .empty, .empty, .empty, .everywhere, .user⟩
  have hdelays : ∀ r, Part r delays → r.shape ≠ .array none := by
    intro r hr
    rcases hr.cases with rfl | ⟨q, hq, hr⟩
    · exact fun he => by cases he
    · cases hq with
      | items hi =>
        cases hi
        obtain rfl := hr.eq_of_leaf rfl rfl
        exact fun he => by cases he
      | member ho => cases ho
  have hempty : ObjectType.Typed .empty := fun _ _ hp => by cases hp
  have hreboot : reboot.Typed := by
    intro part
    cases part with
    | parameters =>
      intro name p hp
      obtain ⟨_, rfl⟩ := Prod.mk.inj (List.mem_singleton.1 (Fields.mem_of_get? hp))
      exact hdelays
    | progress => exact hempty
    | results => exact hempty
  have hjump : jump.Typed := fun part => by cases part <;> exact hempty
  let calls : List Call :=
    [.load (.object [("base", .object [("reboot", .object [("minimalRole", .string "manager"),
        ("parameters", .object [("delays", .string "array.integer")])])])]) "base" none,
      .load (.object [("robot", .object [("jump", .object [])])]) "robots" none]
  have hcommands : (run calls).dictionary.commands = [("base.reboot", reboot), ("robot.jump", jump)] := rfl
  have hcalls : ∀ call ∈ calls, call.Plain := by
    have hnone : Json.Sorted (.object []) := ⟨List.Pairwise.nil, trivial⟩
    have htype : Json.Sorted (.string "array.integer") := trivial
    have hfields : Json.Sorted (.object [("minimalRole", .string "manager"),
        ("parameters", .object [("delays", .string "array.integer")])]) :=
      ⟨List.pairwise_pair.2 (by decide), trivial, htype.single _, trivial⟩
    refine List.forall_mem_cons.2 ⟨⟨(hfields.single _).single _, rfl⟩, ?_⟩
    exact List.forall_mem_singleton.2 ⟨(hnone.single _).single _, rfl⟩
  have htyped : ∀ name c, (run calls).dictionary.get? name = some c → c.Typed := by
    intro name c hc
    have hm : (name, c) ∈ (run calls).dictionary.commands := Fields.mem_of_get? hc
    rw [hcommands] at hm
    rcases List.mem_pair.1 hm with he | he
    · obtain ⟨_, rfl⟩ := Prod.mk.inj he
      exact hreboot
    · obtain ⟨_, rfl⟩ := Prod.mk.inj he
      exact hjump
  have hnames : (run calls).dictionary.names = ["base.reboot", "robot.jump"] := congrArg Fields.names hcommands
  obtain ⟨haccepted, hsame⟩ := reload_iff hcalls "copy"
  obtain ⟨d', hload⟩ := haccepted.2 htyped
  exact ⟨calls, rfl, hcalls, hnames, htyped, d', hload, hsame d' hload⟩

/-- **A command with arrays of arrays whose items have no type is loaded, and its full listing is refused.** -/
theorem reload_refused : ∃ calls : List Call,
    calls = [.load (.object [("base", .object [("cmd", .object [("parameters",
      .object [("x", .string "array.array")])])])]) "a" none] ∧
    (∀ call ∈ calls, call.Plain) ∧ (run calls).dictionary.names = ["base.cmd"] ∧
    ∀ category d',
      Dictionary.empty.load ((run calls).dictionary.toJson .full fun _ => true) category none ≠ .ok d' := by
  let x : Property := .ofTypeName (.arrayOf (.plain .array))
  let cmd : Command := ⟨"a", ⟨[("x", x)], false⟩, .empty, .empty, .everywhere, .user⟩
  let calls : List Call := [.load (.object [("base", .object [("cmd", .object [("parameters",
    .object [("x", .string "array.array")])])])]) "a" none]
  have hcommands : (run calls).dictionary.commands = [("base.cmd", cmd)] := rfl
  have hcalls : ∀ call ∈ calls, call.Plain := by
    have htype : Json.Sorted (.string "array.array") := trivial
    exact List.forall_mem_singleton.2 ⟨(((htype.single _).single _).single _).single _, rfl⟩
  refine ⟨calls, rfl, hcalls, congrArg Fields.names hcommands, fun category d' h => ?_⟩
  have hcmd : (run calls).dictionary.get? "base.cmd" = some cmd := by
    show Fields.get? (run calls).dictionary.commands "base.cmd" = some cmd
    rw [hcommands, Fields.get?_cons, if_pos rfl]
  obtain ⟨loaded, hread, _⟩ := load_empty_ok_iff.1 h
  have hrel := get?_reread hread "base.cmd"
  rw [hcmd] at hrel
  cases hget : loaded.get? "base.cmd" with
  | none =>
    rw [hget] at hrel
    cases hrel
  | some c =>
    rw [hget] at hrel
    cases hrel with
    | some hcommand =>
      have htyped := ((plain_run hcalls hcmd).spec_of_ofFields hcommand).1
      exact htyped .parameters "x" x rfl _ (Child.part (.items rfl)) rfl

end Dictionary

end Capability
