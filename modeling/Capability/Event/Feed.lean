import Capability.Event.Basic

/-!
# The feed of events

A feed passes each event on to all listeners. It keeps the last events only, so a listener that falls too far behind
loses the oldest and is told how many. A listener hears what is published after it came. While there is no listener,
events are discarded. A feed has room for at least one event and never keeps more than it has room for.
-/

namespace Capability

/-- A feed: the last events, how many were ever kept, and for each listener how many of them it has passed. -/
structure Feed where
  /-- The greatest number of events that are kept. -/
  capacity : Nat
  recent : List Event
  total : Nat
  listeners : List (Nat × Nat)
  nextListener : Nat
  isClosed : Bool
  capacity_pos : 0 < capacity
  length_recent_le : recent.length ≤ capacity

/-- What a listener gets. -/
inductive Feed.Delivery where
  | event (e : Event)
  /-- So many events were lost. -/
  | lagged (count : Nat)
  /-- The feed is gone, and all that it kept was delivered. -/
  | closed

namespace Feed

/-- The least power of two, times a power of two, that is not below a number. -/
def roundUp (power n : Nat) : Nat → Nat
  | 0 => power
  | steps + 1 => if n ≤ power then power else roundUp (2 * power) n steps

theorem le_roundUp (power n steps : Nat) : power ≤ roundUp power n steps := by
  induction steps generalizing power with
  | zero => exact Nat.le_refl power
  | succ steps ih =>
    rw [roundUp]
    split
    · exact Nat.le_refl power
    · have := ih (2 * power)
      omega

/-- A feed that keeps at least `capacity` events: the number is rounded up to a power of two. -/
def ofCapacity (capacity : Nat) : Feed where
  capacity := roundUp 1 capacity (Nat.log2 capacity + 1)
  recent := []
  total := 0
  listeners := []
  nextListener := 1
  isClosed := false
  capacity_pos := le_roundUp 1 capacity _
  length_recent_le := Nat.zero_le _

/-- Adds a listener, which has passed all events so far. -/
def subscribe (f : Feed) : Feed × Nat :=
  ({ f with listeners := f.listeners ++ [(f.nextListener, f.total)], nextListener := f.nextListener + 1 },
    f.nextListener)

/-- Removes a listener. -/
def unsubscribe (f : Feed) (listener : Nat) : Feed :=
  { f with listeners := f.listeners.filter (·.1 != listener) }

/-- How many listeners there are. -/
def size (f : Feed) : Nat :=
  f.listeners.length

/-- Passes an event on. -/
def publish (f : Feed) (e : Event) : Feed :=
  if f.listeners = [] then f
  else
    let events := f.recent ++ [e]
    { f with
      recent := events.drop (events.length - f.capacity)
      total := f.total + 1
      length_recent_le := by
        rw [List.length_drop]
        omega }

/-- Ends the feed. What it kept can still be received. -/
def close (f : Feed) : Feed :=
  { f with isClosed := true }

/-- How many events a listener that has passed `position` events has lost. -/
def missed (f : Feed) (position : Nat) : Nat :=
  f.total - f.recent.length - position

/-- The events kept that a listener has not passed. -/
def unread (f : Feed) (position : Nat) : List Event :=
  f.recent.drop (f.recent.length - (f.total - position))

/-- All that waits for a listener. -/
def waiting (f : Feed) (position : Nat) : List Delivery :=
  (if f.missed position = 0 then [] else [.lagged (f.missed position)]) ++ (f.unread position).map .event ++
    (if f.isClosed then [.closed] else [])

/-- Receives all that waits for a listener. -/
def receive (f : Feed) (listener : Nat) : Feed × List Delivery :=
  match f.listeners.lookup listener with
  | none => (f, [])
  | some position =>
    let listeners := f.listeners.map fun l => if l.1 = listener then (l.1, f.total) else l
    ({ f with listeners := listeners }, f.waiting position)

end Feed

end Capability
