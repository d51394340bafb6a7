import Capability.Device.Basic
import Capability.Proofs.Command.Ownership
import Capability.Proofs.State.Calls

/-!
# Calls of devices

A device in use is a device together with the world of its callbacks. Of all its calls only those that load commands
change its commands, and no call changes its base.

* `Device.commands_run`: after any calls a device has the commands that its loads leave in an empty dictionary.
* `Device.Reachable.named`: the full name of every command is parted by its only dot.
-/

namespace Capability.Device

variable {κ ω : Type}

/-! ## Calls -/

/-- A device with the world of its callbacks. -/
structure InUse (κ ω : Type) where
  device : Device κ
  world : ω

/-- The device after an operation that may be refused. -/
def InUse.next (d : InUse κ ω) : Except Fault (Device κ) → InUse κ ω
  | .ok device => { d with device := device }
  | .error _ => d

/-- The device after an operation that calls back and may be refused. -/
def InUse.nextRun (d : InUse κ ω) : Except Fault (Device κ × ω) → InUse κ ω
  | .ok run => ⟨run.1, run.2⟩
  | .error _ => d

/-- A call of a device. -/
inductive Call (κ : Type) where
  | addCommands (json : Json) (category : String)
  | addCommandsText (text category : String)
  | addState (json : Json) (category : String)
  | addStateText (text category : String)
  | set (now : Instant) (name : String) (json : Json)
  | setAll (now : Instant) (json : Json)
  | setAllText (now : Instant) (text : String)
  | acknowledge (id : Nat)
  /-- A call of its state, which is not reported. -/
  | onState (c : Capability.Call κ)
  | publish (e : Event)
  | subscribe
  | unsubscribe (listener : Nat)
  | receive (listener : Nat)

section Perform

variable (onChange : Reaction κ ω) (onAcknowledged : Nat → Reaction κ ω)

/-- Makes a call. -/
def Call.perform (d : InUse κ ω) : Call κ → InUse κ ω
  | .addCommands json category => d.next (d.device.addCommands json category)
  | .addCommandsText text category => d.next (d.device.addCommandsText text category)
  | .addState json category => d.next (d.device.addState json category)
  | .addStateText text category => d.next (d.device.addStateText text category)
  | .set now name json => d.nextRun (d.device.set onChange now name json d.world)
  | .setAll now json => d.nextRun (d.device.setAll onChange now json d.world)
  | .setAllText now text => d.nextRun (d.device.setAllText onChange now text d.world)
  | .acknowledge id => d.nextRun (.ok (d.device.acknowledge onAcknowledged id d.world))
  | .onState c =>
    let s := c.perform onChange onAcknowledged ⟨d.device.state, d.world, []⟩
    ⟨{ d.device with state := s.live }, s.world⟩
  | .publish e => { d with device := d.device.report e }
  | .subscribe => { d with device := { d.device with feed := d.device.feed.subscribe.1 } }
  | .unsubscribe listener => { d with device := { d.device with feed := d.device.feed.unsubscribe listener } }
  | .receive listener => { d with device := { d.device with feed := (d.device.feed.receive listener).1 } }

/-- Makes calls one after the other. -/
def InUse.run (d : InUse κ ω) (calls : List (Call κ)) : InUse κ ω :=
  calls.foldl (fun d c => c.perform onChange onAcknowledged d) d

/-- The device comes from a configuration by calls. -/
def Reachable (d : Device κ) : Prop :=
  ∃ config d₀ world calls, ofConfig config = .ok d₀ ∧ d = (InUse.run onChange onAcknowledged ⟨d₀, world⟩ calls).device

end Perform

/-! ## Loads of commands -/

/-- The tree of commands that the call loads, and its category. -/
def Call.load? : Call κ → Option (Json × String)
  | .addCommands json category => some (json, category)
  | .addCommandsText text category => (Json.read? text).map fun json => (json, category)
  | _ => none

/-- The loads of commands among some calls, as calls of a dictionary. -/
def loads (base : Dictionary) (calls : List (Call κ)) : List Dictionary.Call :=
  calls.filterMap fun c => c.load?.map fun load => .load load.1 load.2 (some base)

theorem dictionary_step_load (r : Dictionary.Run) (json : Json) (category : String) (base : Option Dictionary) :
    (r.step (.load json category base)).dictionary =
      (r.dictionary.load json category base).toOption.getD r.dictionary := by
  unfold Dictionary.Run.step
  split
  · rename_i d hact
    rw [Dictionary.act_load_ok_iff.1 hact]
    rfl
  · rename_i e d hact
    obtain ⟨he, rfl⟩ := Dictionary.act_load_error_iff.1 hact
    rw [he]
    rfl

/-- The device has the same base and the same commands. -/
def SameCommands (d d' : Device κ) : Prop :=
  d'.base = d.base ∧ d'.commands = d.commands

theorem InUse.same_next {d : InUse κ ω} {r : Except Fault (Device κ)}
    (h : ∀ device, r = .ok device → d.device.SameCommands device) : d.device.SameCommands (d.next r).device := by
  cases r with
  | ok device => exact h device rfl
  | error e => exact ⟨rfl, rfl⟩

theorem InUse.same_nextRun {d : InUse κ ω} {r : Except Fault (Device κ × ω)}
    (h : ∀ run, r = .ok run → d.device.SameCommands run.1) : d.device.SameCommands (d.nextRun r).device := by
  cases r with
  | ok run => exact h run rfl
  | error e => exact ⟨rfl, rfl⟩

section Operations

variable {d d' : Device κ} {react : Reaction κ ω} {world : ω} {run : Device κ × ω}

theorem same_addState {json : Json} {category : String} (h : d.addState json category = .ok d') :
    d.SameCommands d' := by
  obtain ⟨state, _, h⟩ := Fault.bind_ok_iff.1 h
  obtain rfl := Except.ok.inj h
  exact ⟨rfl, rfl⟩

theorem same_setAll {now : Instant} {json : Json} (h : d.setAll react now json world = .ok run) :
    d.SameCommands run.1 := by
  obtain ⟨run?, _, h⟩ := Fault.bind_ok_iff.1 h
  cases run? with
  | none =>
    obtain rfl := Except.ok.inj h
    exact ⟨rfl, rfl⟩
  | some state =>
    obtain rfl := Except.ok.inj h
    exact ⟨rfl, rfl⟩

/-- The commands after a load that may be refused. -/
def loaded (d : Device κ) (json : Json) (category : String) : Dictionary :=
  (d.commands.load json category (some d.base)).toOption.getD d.commands

theorem loaded_addCommands (d : InUse κ ω) (json : Json) (category : String) :
    (d.next (d.device.addCommands json category)).device.base = d.device.base ∧
      (d.next (d.device.addCommands json category)).device.commands = d.device.loaded json category := by
  unfold addCommands loaded
  cases d.device.commands.load json category (some d.device.base) with
  | ok commands => exact ⟨rfl, rfl⟩
  | error e => exact ⟨rfl, rfl⟩

end Operations

section Perform

variable (onChange : Reaction κ ω) (onAcknowledged : Nat → Reaction κ ω)

/-- **A call leaves the base as it is, and the commands too unless it loads some.** -/
theorem Call.commands_perform (d : InUse κ ω) (c : Call κ) :
    (c.perform onChange onAcknowledged d).device.base = d.device.base ∧
      (c.perform onChange onAcknowledged d).device.commands =
        match c.load? with
        | some load => d.device.loaded load.1 load.2
        | none => d.device.commands := by
  cases c with
  | addCommands json category => exact loaded_addCommands d json category
  | addCommandsText text category =>
    have hperform : Call.perform onChange onAcknowledged d (.addCommandsText text category) =
        d.next (Json.read text >>= fun json => d.device.addCommands json category) := rfl
    have hload : (Call.addCommandsText text category : Call κ).load? =
        (Json.read? text).map fun json => (json, category) := rfl
    rw [hperform, hload]
    unfold Json.read
    cases Json.read? text with
    | none => exact ⟨rfl, rfl⟩
    | some json => exact loaded_addCommands d json category
  | addState json category => exact InUse.same_next fun _ h => same_addState h
  | addStateText text category =>
    refine InUse.same_next fun _ h => ?_
    obtain ⟨json, _, h⟩ := Fault.bind_ok_iff.1 h
    exact same_addState h
  | set now name json =>
    refine InUse.same_nextRun fun _ h => ?_
    obtain ⟨run, _, h⟩ := Fault.bind_ok_iff.1 h
    obtain rfl := Except.ok.inj h
    exact ⟨rfl, rfl⟩
  | setAll now json => exact InUse.same_nextRun fun _ h => same_setAll h
  | setAllText now text =>
    refine InUse.same_nextRun fun _ h => ?_
    obtain ⟨json, _, h⟩ := Fault.bind_ok_iff.1 h
    exact same_setAll h
  | _ => exact ⟨rfl, rfl⟩

/-- A device and a dictionary that are loaded side by side have the same commands. -/
theorem commands_foldl (calls : List (Call κ)) (d : InUse κ ω) (r : Dictionary.Run)
    (hr : r.dictionary = d.device.commands) :
    (d.run onChange onAcknowledged calls).device.base = d.device.base ∧
      (d.run onChange onAcknowledged calls).device.commands =
        ((loads d.device.base calls).foldl Dictionary.Run.step r).dictionary := by
  induction calls generalizing d r with
  | nil => exact ⟨rfl, hr.symm⟩
  | cons c rest ih =>
    obtain ⟨hbase, hcommands⟩ := c.commands_perform onChange onAcknowledged d
    unfold loads
    rw [List.filterMap_cons]
    cases hload : c.load? with
    | none =>
      rw [hload] at hcommands
      have hrest := ih (c.perform onChange onAcknowledged d) r (hr.trans hcommands.symm)
      rw [hbase] at hrest
      exact hrest
    | some load =>
      rw [hload] at hcommands
      have hstep : (r.step (.load load.1 load.2 (some d.device.base))).dictionary =
          (c.perform onChange onAcknowledged d).device.commands := by
        rw [dictionary_step_load, hcommands, hr]
        rfl
      have hrest := ih (c.perform onChange onAcknowledged d) _ hstep
      rw [hbase] at hrest
      exact hrest

end Perform

/-! ## Reachable devices -/

theorem commands_ofConfig {config : Config} {d : Device κ} (h : ofConfig config = .ok d) : d.commands = .empty := by
  obtain ⟨base, _, h⟩ := Fault.bind_ok_iff.1 h
  obtain ⟨state, _, h⟩ := Fault.bind_ok_iff.1 h
  obtain ⟨state, _, h⟩ := Fault.bind_ok_iff.1 h
  obtain rfl := Except.ok.inj h
  rfl

section Reachable

variable {onChange : Reaction κ ω} {onAcknowledged : Nat → Reaction κ ω}

/-- **After any calls a device has the commands that its loads leave in an empty dictionary, over the base that it
started with.** -/
theorem commands_run (onChange : Reaction κ ω) (onAcknowledged : Nat → Reaction κ ω) {config : Config} {d : Device κ}
    (h : ofConfig config = .ok d) (world : ω) (calls : List (Call κ)) :
    (InUse.run onChange onAcknowledged ⟨d, world⟩ calls).device.base = d.base ∧
      (InUse.run onChange onAcknowledged ⟨d, world⟩ calls).device.commands =
        (Dictionary.run (loads d.base calls)).dictionary :=
  commands_foldl onChange onAcknowledged calls ⟨d, world⟩ ⟨.empty, []⟩ (commands_ofConfig h).symm

theorem Reachable.exists_loads {d : Device κ} (h : d.Reachable onChange onAcknowledged) :
    ∃ calls, d.commands = (Dictionary.run calls).dictionary := by
  obtain ⟨config, d₀, world, calls, hconfig, rfl⟩ := h
  exact ⟨_, (commands_run onChange onAcknowledged hconfig world calls).2⟩

/-- The commands of a device stand in order. -/
theorem Reachable.sorted {d : Device κ} (h : d.Reachable onChange onAcknowledged) : d.commands.commands.Sorted := by
  obtain ⟨calls, hcalls⟩ := h.exists_loads
  rw [hcalls]
  exact (Dictionary.owned_run calls).sorted

/-- **Every command of a device has a proper package and a proper name of its own.** -/
theorem Reachable.named {d : Device κ} (h : d.Reachable onChange onAcknowledged) {name : String} {c : Command}
    (hc : d.commands.get? name = some c) :
    ∃ package command, name = Dictionary.fullName package command ∧ Dictionary.Named package command := by
  obtain ⟨calls, hcalls⟩ := h.exists_loads
  rw [hcalls] at hc
  exact Dictionary.named_run calls hc

end Reachable

end Capability.Device
