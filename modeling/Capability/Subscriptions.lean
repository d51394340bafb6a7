/-!
# Subscriptions

Callbacks of kind `κ` under identifiers that are given out in increasing order and never again. A dispatch calls the
callbacks that were there when it started, each once and in the order of their registration; what they do to the
subscriptions meanwhile shows in the next dispatch.
-/

namespace Capability

/-- The identifier of a subscription. -/
structure Subscriptions.Id where
  val : Nat
  deriving DecidableEq, Repr

/-- The form of an identifier in messages. -/
def Subscriptions.Id.text (id : Subscriptions.Id) : String :=
  s!"Sub({id.val})"

/-- Registered callbacks, the oldest first, and the next identifier. -/
structure Subscriptions (κ : Type) where
  /-- The number of the next identifier. Numbers have no upper bound here: that a counter of 64 bits wraps around after
  `2 ^ 64` registrations is left out. -/
  next : Nat
  callbacks : List (Subscriptions.Id × κ)

namespace Subscriptions

variable {κ σ : Type}

/-- No subscriptions. Identifiers start at one. -/
def empty : Subscriptions κ := ⟨1, []⟩

/-- The identifier that the next registration gets. -/
def nextId (s : Subscriptions κ) : Id := ⟨s.next⟩

/-- Registers a callback under the next identifier. -/
def register (s : Subscriptions κ) (callback : κ) : Subscriptions κ :=
  ⟨s.next + 1, s.callbacks ++ [(s.nextId, callback)]⟩

/-- Whether an identifier is registered. -/
def has (s : Subscriptions κ) (id : Id) : Bool :=
  s.callbacks.any (·.1 == id)

/-- Removes the callback of an identifier. -/
def remove (s : Subscriptions κ) (id : Id) : Subscriptions κ :=
  { s with callbacks := s.callbacks.filter (·.1 != id) }

/-- Removes all callbacks. Their identifiers stay used. -/
def clear (s : Subscriptions κ) : Subscriptions κ :=
  { s with callbacks := [] }

/-- The callbacks in the order of their registration. -/
def snapshot (s : Subscriptions κ) : List κ :=
  s.callbacks.map (·.2)

/-- How many callbacks there are. -/
def size (s : Subscriptions κ) : Nat :=
  s.callbacks.length

/-- Calls every callback that is registered now, one after the other. -/
def each (s : Subscriptions κ) (call : κ → σ → σ) (start : σ) : σ :=
  s.snapshot.foldl (fun state callback => call callback state) start

/-- Calls every callback that is registered now; each call may change the subscriptions. -/
def dispatch (s : Subscriptions κ) (call : κ → Subscriptions κ → σ → Subscriptions κ × σ) (start : σ) :
    Subscriptions κ × σ :=
  s.each (fun callback state => call callback state.1 state.2) (s, start)

/-- The description of a set of subscriptions. -/
def summary (s : Subscriptions κ) : String :=
  "CallbackRegistry \x7b callback_count: " ++ toString s.size ++ " \x7d"

end Subscriptions

end Capability
