import Capability.State.Log
import Capability.State.Store
import Capability.Subscriptions

/-!
# Live state

Live state is the store with the log of its changes and the callbacks that wait for them. Each accepted update of at
least one property is recorded as one change, and then all callbacks for changes are called once.

A callback is a value of a type `κ`, and a `Reaction` says what calling it does. It may read the state and change the
subscriptions, and it has an effect on a world `ω` outside of the state; it cannot change the state.
-/

namespace Capability

/-- The callbacks for changes of the state, and those for acknowledgements of the server. -/
structure Observers (κ : Type) where
  changed : Subscriptions κ
  acknowledged : Subscriptions κ

/-- The state of a device while it runs. -/
structure LiveState (κ : Type) where
  store : Store
  log : ChangeLog
  observers : Observers κ

/-- What calling a callback does. -/
abbrev Reaction (κ ω : Type) := κ → LiveState κ → ω → Observers κ × ω

namespace LiveState

variable {κ ω : Type}

/-- The state without packages, with a log of some capacity. -/
def ofCapacity (capacity : Nat) : LiveState κ :=
  ⟨.empty, .ofCapacity capacity, ⟨.empty, .empty⟩⟩

/-! ## Calling back -/

/-- Calls one callback. -/
def call (react : Reaction κ ω) (callback : κ) (run : LiveState κ × ω) : LiveState κ × ω :=
  let (observers, world) := react callback run.1 run.2
  ({ run.1 with observers := observers }, world)

/-- Calls the callbacks for changes. -/
def notify (react : Reaction κ ω) (s : LiveState κ) (world : ω) : LiveState κ × ω :=
  s.observers.changed.each (call react) (s, world)

/-- Calls the callbacks for acknowledgements, which learn the number of the change. -/
def acknowledge (react : Nat → Reaction κ ω) (id : Nat) (s : LiveState κ) (world : ω) : LiveState κ × ω :=
  s.observers.acknowledged.each (call (react id)) (s, world)

/-- Registers a callback for changes and calls it once. -/
def watch (react : Reaction κ ω) (callback : κ) (s : LiveState κ) (world : ω) : LiveState κ × ω :=
  let observers := { s.observers with changed := s.observers.changed.register callback }
  call react callback ({ s with observers := observers }, world)

/-- Removes a callback for changes. -/
def unwatch (s : LiveState κ) (id : Subscriptions.Id) : LiveState κ :=
  { s with observers := { s.observers with changed := s.observers.changed.remove id } }

/-- Registers a callback for acknowledgements. -/
def watchAcknowledged (s : LiveState κ) (callback : κ) : LiveState κ :=
  { s with observers := { s.observers with acknowledged := s.observers.acknowledged.register callback } }

/-- Removes a callback for acknowledgements. -/
def unwatchAcknowledged (s : LiveState κ) (id : Subscriptions.Id) : LiveState κ :=
  { s with observers := { s.observers with acknowledged := s.observers.acknowledged.remove id } }

/-! ## Definitions -/

/-- Loads the definitions of a category. -/
def load (s : LiveState κ) (json : Json) (category : String) : Except Fault (LiveState κ) := do
  return { s with store := ← s.store.load json category }

/-- Loads the definitions of a category from the text of a tree. -/
def loadText (s : LiveState κ) (text category : String) : Except Fault (LiveState κ) := do
  s.load (← Json.read text) category

/-- Sets values without recording a change. -/
def preset (s : LiveState κ) (json : Json) : Except Fault (LiveState κ) := do
  return { s with store := ← s.store.preset json }

/-! ## Updates -/

/-- Records an update of the store and calls the callbacks. -/
def commit (react : Reaction κ ω) (time : Instant) (update : Store.Update) (s : LiveState κ) (world : ω) :
    LiveState κ × ω :=
  notify react { s with store := update.store, log := s.log.record time update.changed } world

/-- Sets one property at a time. -/
def set (react : Reaction κ ω) (time : Instant) (name : String) (json : Json) (s : LiveState κ) (world : ω) :
    Except Fault (LiveState κ × ω) := do
  return s.commit react time (← s.store.set name json) world

/-- Sets several properties at once. Where none is named, nothing is recorded and nobody is called. -/
def setAll (react : Reaction κ ω) (time : Instant) (json : Json) (s : LiveState κ) (world : ω) :
    Except Fault (Option (LiveState κ × ω)) := do
  return (← s.store.setAll json).map fun update => s.commit react time update world

/-- Sets several properties at once, as the text of a tree gives them. -/
def setAllText (react : Reaction κ ω) (time : Instant) (text : String) (s : LiveState κ) (world : ω) :
    Except Fault (Option (LiveState κ × ω)) := do
  s.setAll react time (← Json.read text) world

/-- Records new values of properties in the log alone. -/
def record (time : Instant) (properties : Fields Json) (s : LiveState κ) : LiveState κ :=
  { s with log := s.log.record time properties }

/-- The number of the last change. -/
def lastId (s : LiveState κ) : Nat :=
  s.log.lastId

/-! ## Answers -/

/-- The number that recording an update of the store answers. -/
def recordedId (time : Instant) (update : Store.Update) (s : LiveState κ) : Nat :=
  (s.log.record time update.changed).lastId

/-- What setting one property answers: the number of the change. -/
def setId (time : Instant) (name : String) (json : Json) (s : LiveState κ) : Except Fault Nat := do
  return s.recordedId time (← s.store.set name json)

/-- What setting several properties answers: the number of the change, or of the last one if there is no change. -/
def setAllId (time : Instant) (json : Json) (s : LiveState κ) : Except Fault Nat := do
  match ← s.store.setAll json with
  | some update => return s.recordedId time update
  | none => return s.lastId

/-- What setting several properties answers, as the text of a tree gives them. -/
def setAllTextId (time : Instant) (text : String) (s : LiveState κ) : Except Fault Nat := do
  s.setAllId time (← Json.read text)

/-! ## Fetching -/

/-- Fetches the recorded changes. -/
def drain (s : LiveState κ) : LiveState κ × List Change :=
  ({ s with log := s.log.drained }, s.log.pending)

end LiveState

end Capability
