import Capability.Proofs.Command.Layering
import Capability.Proofs.Device.Calls

/-!
# Commands over the base of a device

The base of a device is read once, from a tree without a base (`Device.wellFormed_base`). Whatever is loaded, accepted
or refused, each command of the device then comes from the last accepted tree of its category, and lies over the
command of its name in the base.

* `Device.layering_spec`: this, and which types of the base keep their full names.
* `Device.layering_longer`: a type that does not.
-/

namespace Capability.Device

open Dictionary

variable {κ ω : Type}

/-! ## The base -/

/-- **The commands of the base are well-formed.** -/
theorem wellFormed_base {config : Config} {d : Device κ} (h : ofConfig config = .ok d)
    (hs : ∀ json, config.commands = some json → json.Sorted) : d.base.WellFormed := by
  obtain ⟨base, hbase, h⟩ := Fault.bind_ok_iff.1 h
  obtain ⟨state, _, h⟩ := Fault.bind_ok_iff.1 h
  obtain ⟨state, _, h⟩ := Fault.bind_ok_iff.1 h
  obtain rfl := Except.ok.inj h
  show base.WellFormed
  cases hcommands : config.commands with
  | none =>
    rw [hcommands] at hbase
    obtain rfl := Except.ok.inj hbase
    refine ⟨fun _ _ hc => ?_, fun _ _ hc => ?_⟩
    · cases hc
    · cases hc
  | some json =>
    rw [hcommands] at hbase
    obtain ⟨loaded, hread, _, rfl⟩ := load_ok_iff.1 hbase
    have hget := get?_replace_empty (sorted_of_readTree hread) baseCategory
    have hw : Dictionary.WellFormed ⟨loaded⟩ := wellFormed_readTree (hs json hcommands) hread
    refine ⟨fun name c hc => ?_, fun name c hc => ?_⟩
    · rw [hget] at hc
      exact hw.named name c hc
    · rw [hget] at hc
      exact hw.command name c hc

/-! ## Loads -/

/-- The names are in order in the tree of commands that the call loads, if it loads one. -/
def Call.Sorted : Call κ → Prop
  | .addCommands json _ => json.Sorted
  | _ => True

theorem Call.Sorted.load {c : Call κ} (hc : c.Sorted) {load : Json × String} (h : c.load? = some load) :
    load.1.Sorted := by
  cases c with
  | addCommands json category =>
    obtain rfl := Option.some.inj h
    exact hc
  | addCommandsText text category =>
    obtain ⟨json, hjson, rfl⟩ := Option.map_eq_some_iff.1 h
    exact Json.sorted_of_read? hjson
  | _ => cases h

/-- The last accepted load of a category has the base of the device, and a tree with its names in order. -/
theorem sorted_of_lastLoad? {d : Device κ} {calls : List (Call κ)} (hcalls : ∀ c ∈ calls, c.Sorted) {category : String}
    {json : Json} {base : Option Dictionary}
    (h : lastLoad? category (Dictionary.run (loads d.base calls)).history = some (json, base)) :
    base = some d.base ∧ json.Sorted := by
  obtain ⟨c, hc, hmap⟩ := List.mem_filterMap.1 (mem_of_lastLoad?_run h)
  obtain ⟨load, hload, he⟩ := Option.map_eq_some_iff.1 hmap
  obtain ⟨rfl, rfl, rfl⟩ := Dictionary.Call.load.inj he
  exact ⟨rfl, (hcalls c hc).load hload⟩

section Run

variable (onChange : Reaction κ ω) (onAcknowledged : Nat → Reaction κ ω) {config : Config} {d : Device κ}

/-- **Whatever is called, each command comes from the last accepted load of its category.** -/
theorem layered_run (hd : ofConfig config = .ok d) (hs : ∀ json, config.commands = some json → json.Sorted) (world : ω)
    {calls : List (Call κ)} (hcalls : ∀ c ∈ calls, c.Sorted) {name : String} {c : Command}
    (hc : (InUse.run onChange onAcknowledged ⟨d, world⟩ calls).device.commands.get? name = some c) :
    ∃ package command json fields, name = fullName package command ∧ Named package command ∧
      lastLoad? c.category (Dictionary.run (loads d.base calls)).history = some (json, some d.base) ∧
      json.property? package command = some (.object fields) ∧
      ((d.base.get? name).isSome = true ∨ command.toList.head? = some '_') ∧
      ∀ b, d.base.get? name = some b → b.Layered fields c := by
  rw [(commands_run onChange onAcknowledged hd world calls).2] at hc
  obtain ⟨json, base, loaded, hlast, hread, hget⟩ := Dictionary.Run.exists_load (owned_run _) hc
  obtain ⟨rfl, hsorted⟩ := sorted_of_lastLoad? hcalls hlast
  obtain ⟨package, command, fields, hname, hnamed, hproperty, hadmitted, hlayered⟩ :=
    layered_readTree hsorted (wellFormed_base hd hs) hread hget
  exact ⟨package, command, json, fields, hname, hnamed, hlast, hproperty, hadmitted, hlayered⟩

/-- The first tree that is loaded gives the commands. -/
theorem get?_run_first (hd : ofConfig config = .ok d) (world : ω) {json : Json} {category name : String} {c : Command}
    (hread : readTree category (some d.base) json = .ok [(name, c)]) :
    (InUse.run onChange onAcknowledged ⟨d, world⟩ [.addCommands json category]).device.commands.get? name = some c := by
  have hload : d.commands.load json category (some d.base) = .ok (empty.replace category [(name, c)]) := by
    rw [commands_ofConfig hd]
    exact load_ok_iff.2 ⟨_, hread, rfl, rfl⟩
  have hcommands := (Call.commands_perform onChange onAcknowledged ⟨d, world⟩ (.addCommands json category)).2
  have hrun : (InUse.run onChange onAcknowledged ⟨d, world⟩ [.addCommands json category]).device.commands =
      d.loaded json category := hcommands
  rw [hrun, loaded, hload]
  show (empty.replace category [(name, c)]).get? name = some c
  rw [get?_replace_empty (sorted_of_readTree hread), Fields.get?_cons, if_pos rfl]

/-- **After any calls, each command has a name of the base or starts with `_`, and lies over the command of its name in
the base, by the definition that its last accepted load gives it. The full name of a type in the base holds for all
calls exactly if it does not end in `array`.** -/
theorem layering_spec (hd : ofConfig config = .ok d) (hs : ∀ json, config.commands = some json → json.Sorted)
    (world : ω) :
    let commands := fun calls => (InUse.run onChange onAcknowledged ⟨d, world⟩ calls).device.commands
    (∀ calls, (∀ c ∈ calls, c.Sorted) → ∀ name c, (commands calls).get? name = some c →
      ∃ package command json fields, name = fullName package command ∧ Named package command ∧
        lastLoad? c.category (Dictionary.run (loads d.base calls)).history = some (json, some d.base) ∧
        json.property? package command = some (.object fields) ∧
        ((d.base.get? name).isSome = true ∨ command.toList.head? = some '_') ∧
        ∀ b, d.base.get? name = some b → b.Layered fields c) ∧
    ∀ name b part member q, d.base.get? name = some b → (b.type part).get? member = some q →
      ((∀ calls, (∀ c ∈ calls, c.Sorted) → ∀ c p, (commands calls).get? name = some c →
        (c.type part).get? member = some p → p.typeName = q.typeName) ↔ q.typeName.innermost ≠ .array) := by
  intro commands
  refine ⟨fun calls hcalls name c hc => layered_run onChange onAcknowledged hd hs world hcalls hc,
    fun name b part member q hb hq => ⟨fun h hlast => ?_, fun hlast calls hcalls c p hc hp => ?_⟩⟩
  · -- one load is enough to change the name
    obtain ⟨json, c, p, hsorted, hread, hp, hne⟩ :=
      exists_tree_other_typeName (wellFormed_base hd hs) hb hq hlast "custom"
    have hcalls : ∀ c ∈ [Call.addCommands json "custom"], (c : Call κ).Sorted := by
      intro c hc
      obtain rfl := List.mem_singleton.1 hc
      exact hsorted
    exact hne (h _ hcalls c p (get?_run_first onChange onAcknowledged hd world hread) hp)
  · obtain ⟨_, _, _, _, _, _, _, _, _, hlayered⟩ := layered_run onChange onAcknowledged hd hs world hcalls hc
    exact (hlayered b hb).typeName part member q p hq hp hlast

end Run

/-- A limit for a parameter of the base, and a load that is refused. -/
theorem layering_spec_reboot : ∃ (config : Config) (calls : List (Call Unit)) (d : Device Unit) (q p : Property)
    (b c : Command) (fields : Fields Json),
    config = { commands := some (.object [("base", .object [("reboot",
      .object [("minimalRole", .string "manager"), ("parameters", .object [("delay", .string "integer")])])])]) } ∧
    calls =
      [.addCommands (.object [("base", .object [("reboot",
          .object [("parameters", .object [("delay", .object [("maximum", .integer 30)])])])])]) "vendor",
        .addCommands (.object [("base", .object [("halt", .object [])])]) "vendor"] ∧
    (∀ json, config.commands = some json → json.Sorted) ∧ (∀ c ∈ calls, c.Sorted) ∧ ofConfig config = .ok d ∧
    (Dictionary.run (loads d.base calls)).history.map (·.2) = [false, true] ∧
    d.base.get? "base.reboot" = some b ∧ b.parameters.get? "delay" = some q ∧
    (InUse.run Session.ignore (fun _ => Session.ignore) ⟨d, ()⟩ calls).device.commands.get? "base.reboot" = some c ∧
    c.parameters.get? "delay" = some p ∧ c.minimalRole = .manager ∧ b.Layered fields c ∧ p.typeName = q.typeName := by
  let config : Config := { commands := some (.object [("base", .object [("reboot",
    .object [("minimalRole", .string "manager"), ("parameters", .object [("delay", .string "integer")])])])]) }
  let calls : List (Call Unit) :=
    [.addCommands (.object [("base", .object [("reboot",
        .object [("parameters", .object [("delay", .object [("maximum", .integer 30)])])])])]) "vendor",
      .addCommands (.object [("base", .object [("halt", .object [])])]) "vendor"]
  have hs : ∀ json, config.commands = some json → json.Sorted := by
    rintro _ ⟨⟩
    have hreboot : Json.Sorted (.object [("minimalRole", .string "manager"),
        ("parameters", .object [("delay", .string "integer")])]) :=
      ⟨List.pairwise_pair.2 (by decide), trivial, ⟨List.pairwise_singleton _ _, trivial, trivial⟩, trivial⟩
    exact (hreboot.single _).single _
  have hcalls : ∀ c ∈ calls, c.Sorted := by
    simp [calls, Call.Sorted, Json.Sorted, Json.SortedFields, Fields.Sorted]
  have hd : (ofConfig config : Except Fault (Device Unit)) = .ok _ := rfl
  obtain ⟨hcommands, htypes⟩ := layering_spec Session.ignore (fun _ => Session.ignore) hd hs ()
  obtain ⟨_, _, _, fields, _, _, _, _, _, hlayered⟩ := hcommands calls hcalls "base.reboot" _ rfl
  refine ⟨config, calls, _, _, _, _, _, fields, rfl, rfl, hs, hcalls, rfl, rfl, rfl, rfl, rfl, rfl, rfl, hlayered _ rfl,
    ?_⟩
  exact (htypes "base.reboot" _ .parameters "delay" _ rfl rfl).2 (by decide) calls hcalls _ _ rfl rfl

/-- **The items of an array of arrays may be given a type that the base does not have for them**, so that a parameter of
the base gets a longer name. -/
theorem layering_longer : ∃ (config : Config) (calls : List (Call Unit)) (d : Device Unit) (q p : Property)
    (b c : Command),
    config = { commands := some (.object [("base", .object [("cmd",
      .object [("parameters", .object [("x", .string "array.array")])])])]) } ∧
    calls =
      [.addCommands (.object [("base", .object [("cmd",
        .object [("parameters", .object [("x", .object [("items", .string "array.integer")])])])])]) "vendor"] ∧
    ofConfig config = .ok d ∧ d.base.get? "base.cmd" = some b ∧ b.parameters.get? "x" = some q ∧
    (InUse.run Session.ignore (fun _ => Session.ignore) ⟨d, ()⟩ calls).device.commands.get? "base.cmd" = some c ∧
    c.parameters.get? "x" = some p ∧ q.typeName = .arrayOf (.plain .array) ∧
    p.typeName = .arrayOf (.arrayOf (.plain .integer)) :=
  ⟨_, _, _, _, _, _, _, rfl, rfl, rfl, rfl, rfl, rfl, rfl, rfl, rfl⟩

end Capability.Device
