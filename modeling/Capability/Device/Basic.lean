import Capability.Command.Dictionary
import Capability.Device.Config
import Capability.Event.Feed
import Capability.State.Live
import Capability.Text.Quoted

/-!
# Devices

A device has a fixed dictionary of base commands, a dictionary of its own that is loaded over it, its state, and a feed
of events. The feed reports each accepted load, update and acknowledgement; what is refused changes nothing and is not
reported.
-/

namespace Capability

/-! ## Channels -/

/-- The way a caller reaches the device. -/
inductive Channel where
  | nearby
  | cloud
  /-- Either of the two. -/
  | any
  deriving DecidableEq, Repr

/-- The name of a channel. -/
def Channel.text : Channel → String
  | .nearby => "local"
  | .cloud => "cloud"
  | .any => "any"

/-- Whether a command with a visibility is seen on the channel. -/
def Channel.allows (c : Channel) (v : Visibility) : Bool :=
  match c with
  | .nearby => v.onLocal
  | .cloud => v.onCloud
  | .any => v.onLocal || v.onCloud

/-! ## Devices -/

/-- A device while it runs. -/
structure Device (κ : Type) where
  base : Dictionary
  commands : Dictionary
  state : LiveState κ
  feed : Feed

namespace Device

variable {κ ω : Type}

/-- The category of what a device starts with. -/
def baseCategory : String := "default"

/-- Applies a loader to a tree that may be left out. -/
def loadIf {α : Type} (load : Json → α → Except Fault α) (tree : Option Json) (a : α) : Except Fault α :=
  match tree with
  | some json => load json a
  | none => .ok a

/-- The device that a configuration sets up. -/
def ofConfig (c : Config) : Except Fault (Device κ) := do
  let base ← loadIf (fun json d => d.load json baseCategory none) c.commands Dictionary.empty
  let state ← loadIf (fun json s => s.load json baseCategory) c.state (LiveState.ofCapacity c.changeCapacity)
  let state ← loadIf (fun json s => s.preset json) c.values state
  return ⟨base, .empty, state, .ofCapacity c.eventCapacity⟩

/-- Reports an event. -/
def report (d : Device κ) (e : Event) : Device κ :=
  { d with feed := d.feed.publish e }

/-! ## Commands -/

/-- Loads the commands of a category over the base commands. -/
def addCommands (d : Device κ) (json : Json) (category : String) : Except Fault (Device κ) := do
  let commands ← d.commands.load json category (some d.base)
  return { d with commands := commands }.report (.commandsChanged category)

/-- Loads the commands of a category from the text of a tree. -/
def addCommandsText (d : Device κ) (text category : String) : Except Fault (Device κ) := do
  d.addCommands (← Json.read text) category

/-- The commands seen on a channel. -/
def commandsOn (channel : Channel) (form : Form) (d : Device κ) : Json :=
  d.commands.toJson form fun c => channel.allows c.visibility

/-- The command is not loaded. -/
def unknownCommand (name : String) : Fault :=
  .ofCommands .invalidCommandName s!"Unknown command '{name}'"

/-- The command is not seen on the channel. -/
def notOnChannel (name : String) (channel : Channel) : Fault :=
  .ofCommands .accessDenied s!"Command '{name}' is not available through the {channel.text} channel"

/-- The role is not trusted enough. -/
def roleTooLow (role minimal : Role) : Fault :=
  .ofCommands .accessDenied s!"User role '{role.text}' less than minimal: '{minimal.text}'"

/-- The command of a name, if a caller with this role may invoke it on this channel. -/
def access (d : Device κ) (name : String) (role : Role) (channel : Channel) : Except Fault Command :=
  match d.commands.get? name with
  | none => .error (unknownCommand name)
  | some c =>
    if channel.allows c.visibility = false then .error (notOnChannel name channel)
    else if c.minimalRole ≤ role then .ok c
    else .error (roleTooLow role c.minimalRole)

/-- The parameters of a command that JSON stands for, if the caller may invoke the command. -/
def validate (d : Device κ) (name : String) (parameters : Json) (role : Role) (channel : Channel) :
    Except Fault (Fields Value) := do
  (← d.access name role channel).parameters.convert parameters

/-! ## State -/

/-- Loads the state definitions of a category. -/
def addState (d : Device κ) (json : Json) (category : String) : Except Fault (Device κ) := do
  let state ← d.state.load json category
  return { d with state := state }.report (.stateDefined category)

/-- Loads the state definitions of a category from the text of a tree. -/
def addStateText (d : Device κ) (text category : String) : Except Fault (Device κ) := do
  d.addState (← Json.read text) category

/-- The device after a change of its state, which is reported under its number. -/
def changed (d : Device κ) (run : LiveState κ × ω) : Device κ × ω :=
  ({ d with state := run.1 }.report (.stateChanged run.1.lastId), run.2)

/-- Sets one property. -/
def set (react : Reaction κ ω) (now : Instant) (name : String) (json : Json) (d : Device κ) (world : ω) :
    Except Fault (Device κ × ω) := do
  return d.changed (← d.state.set react now name json world)

/-- Sets several properties at once. Where none is named, nothing happens. -/
def setAll (react : Reaction κ ω) (now : Instant) (json : Json) (d : Device κ) (world : ω) :
    Except Fault (Device κ × ω) := do
  match ← d.state.setAll react now json world with
  | some run => return d.changed run
  | none => return (d, world)

/-- Sets several properties at once, as the text of a tree gives them. -/
def setAllText (react : Reaction κ ω) (now : Instant) (text : String) (d : Device κ) (world : ω) :
    Except Fault (Device κ × ω) := do
  d.setAll react now (← Json.read text) world

/-- Takes note that the server has the state up to a change. -/
def acknowledge (react : Nat → Reaction κ ω) (id : Nat) (d : Device κ) (world : ω) : Device κ × ω :=
  let (state, world) := d.state.acknowledge react id world
  ({ d with state := state }.report (.stateAcknowledged id), world)

/-! ## Summary -/

/-- The description of a device. -/
def summary (d : Device κ) : String :=
  let categories := ", ".intercalate (d.state.store.categories.names.map Text.quoted)
  "Device \x7b base_commands: " ++ toString d.base.size ++ ", commands: " ++ toString d.commands.size ++
    ", state_categories: \x7b" ++ categories ++ "\x7d, .. \x7d"

end Device

end Capability
