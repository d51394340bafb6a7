import Capability.Event.Feed

/-!
# Listeners that keep up

A listener that has passed all events of a feed receives each event that is published next, and nothing else, however
few events the feed keeps (`CaughtUp.receive_step`). What the feed does for other listeners does not matter to it.
-/

namespace Capability.Feed

variable {f g : Feed} {listener other : Nat}

/-! ## What waits for a listener -/

/-- The feed is open, and the listener has passed all events so far. -/
structure CaughtUp (f : Feed) (listener : Nat) : Prop where
  passed : f.listeners.lookup listener = some f.total
  isOpen : f.isClosed = false

theorem receive_eq {position : Nat} (h : f.listeners.lookup listener = some position) :
    f.receive listener =
      ({ f with listeners := f.listeners.map fun l => if l.1 = listener then (l.1, f.total) else l },
        f.waiting position) := by
  unfold receive
  rw [h]

/-- Receiving moves the listener to the end, and the others not at all. -/
theorem lookup_pass (listeners : List (Nat × Nat)) (total : Nat) :
    (listeners.map fun l => if l.1 = other then (l.1, total) else l).lookup listener =
      (listeners.lookup listener).map fun position => if listener = other then total else position := by
  induction listeners with
  | nil => rfl
  | cons l rest ih =>
    obtain ⟨n, position⟩ := l
    have hhead : (if n = other then (n, total) else (n, position)) = (n, if n = other then total else position) := by
      split <;> rfl
    rw [List.map_cons]
    show List.lookup listener ((if n = other then (n, total) else (n, position)) :: _) = _
    rw [hhead, List.lookup_cons, List.lookup_cons, ih]
    by_cases hn : listener = n
    · simp [hn]
    · simp [beq_false_of_ne hn]

theorem lookup_filter_ne (h : listener ≠ other) (listeners : List (Nat × Nat)) :
    (listeners.filter (·.1 != other)).lookup listener = listeners.lookup listener := by
  induction listeners with
  | nil => rfl
  | cons l rest ih =>
    obtain ⟨n, position⟩ := l
    rw [List.filter_cons, List.lookup_cons]
    by_cases hn : n = other
    · simp [hn, ih, beq_false_of_ne h]
    · simp [hn, ih, List.lookup_cons]

theorem waiting_passed (h : f.isClosed = false) : f.waiting f.total = [] := by
  have hmissed : f.missed f.total = 0 := by
    unfold missed
    omega
  simp [waiting, hmissed, unread, h]

@[simp] theorem listeners_publish (f : Feed) (e : Event) : (f.publish e).listeners = f.listeners := by
  unfold publish
  split <;> rfl

@[simp] theorem isClosed_publish (f : Feed) (e : Event) : (f.publish e).isClosed = f.isClosed := by
  unfold publish
  split <;> rfl

/-- The feed keeps what it publishes. -/
theorem waiting_publish (hopen : f.isClosed = false) (hne : f.listeners ≠ []) (e : Event) :
    (f.publish e).waiting f.total = [.event e] := by
  have hlength : (f.recent ++ [e]).length = f.recent.length + 1 := by simp
  have hdrop : (f.recent ++ [e]).length - f.capacity ≤ f.recent.length := by
    have := f.capacity_pos
    omega
  have hrecent : (f.publish e).recent = f.recent.drop ((f.recent ++ [e]).length - f.capacity) ++ [e] := by
    rw [publish, if_neg hne]
    exact List.drop_append_of_le_length hdrop
  have htotal : (f.publish e).total = f.total + 1 := by
    rw [publish, if_neg hne]
  have hmissed : (f.publish e).missed f.total = 0 := by
    rw [missed, hrecent, htotal, List.length_append, List.length_singleton]
    omega
  have hunread : (f.publish e).unread f.total = [e] := by
    rw [unread, hrecent, htotal, List.length_append, List.length_singleton, Nat.add_sub_cancel_left,
      Nat.add_sub_cancel]
    exact List.drop_left
  simp [waiting, hmissed, hunread, hopen]

/-! ## Steps of a feed -/

/-- What may happen to a feed between two receptions of a listener: at most one event is published, or something that
concerns other listeners. -/
inductive Step (listener : Nat) (f : Feed) : Option Event → Feed → Prop
  | quiet : Step listener f none f
  | published (e : Event) : Step listener f (some e) (f.publish e)
  | subscribed : Step listener f none f.subscribe.1
  | unsubscribed {other : Nat} (h : other ≠ listener) : Step listener f none (f.unsubscribe other)
  | received {other : Nat} (h : other ≠ listener) : Step listener f none (f.receive other).1

namespace CaughtUp

/-- A new listener has passed all events. -/
theorem subscribe (hnew : f.listeners.lookup f.nextListener = none) (hopen : f.isClosed = false) :
    f.subscribe.1.CaughtUp f.nextListener := by
  refine ⟨?_, hopen⟩
  show (f.listeners ++ [(f.nextListener, f.total)]).lookup f.nextListener = some f.total
  rw [List.lookup_append, hnew]
  simp

theorem listeners_ne_nil (h : f.CaughtUp listener) : f.listeners ≠ [] := by
  intro he
  have hpassed := h.passed
  rw [he] at hpassed
  cases hpassed

/-- The listener has passed all events once it has received. -/
theorem receive {position : Nat} (hposition : f.listeners.lookup listener = some position)
    (hopen : f.isClosed = false) : (f.receive listener).1.CaughtUp listener := by
  rw [receive_eq hposition]
  refine ⟨?_, hopen⟩
  show (f.listeners.map _).lookup listener = some f.total
  rw [lookup_pass, hposition, Option.map_some, if_pos rfl]

/-- What concerns other listeners leaves the listener at the end. -/
theorem step (h : f.CaughtUp listener) (hstep : Step listener f none g) : g.CaughtUp listener := by
  cases hstep with
  | quiet => exact h
  | subscribed =>
    refine ⟨?_, h.isOpen⟩
    show (f.listeners ++ _).lookup listener = some f.total
    rw [List.lookup_append, h.passed]
    rfl
  | @unsubscribed other hother =>
    refine ⟨?_, h.isOpen⟩
    show (f.listeners.filter (·.1 != other)).lookup listener = some f.total
    rw [lookup_filter_ne hother.symm, h.passed]
  | @received other hother =>
    cases hposition : f.listeners.lookup other with
    | none =>
      have hsame : f.receive other = (f, []) := by
        unfold Feed.receive
        rw [hposition]
      rw [hsame]
      exact h
    | some position =>
      rw [receive_eq hposition]
      refine ⟨?_, h.isOpen⟩
      show (f.listeners.map _).lookup listener = some f.total
      rw [lookup_pass, h.passed, Option.map_some, if_neg hother.symm]

/-- **The listener receives the event that is published next, if there is one, and is at the end again.** -/
theorem receive_step {e? : Option Event} (h : f.CaughtUp listener) (hstep : Step listener f e? g) :
    (g.receive listener).2 = e?.toList.map .event ∧ (g.receive listener).1.CaughtUp listener := by
  cases e? with
  | none =>
    have hg := h.step hstep
    refine ⟨?_, receive hg.passed hg.isOpen⟩
    rw [receive_eq hg.passed]
    exact waiting_passed hg.isOpen
  | some e =>
    cases hstep
    have hlookup : (f.publish e).listeners.lookup listener = some f.total := by
      rw [listeners_publish, h.passed]
    have hopen : (f.publish e).isClosed = false := by
      rw [isClosed_publish, h.isOpen]
    refine ⟨?_, receive hlookup hopen⟩
    rw [receive_eq hlookup]
    exact waiting_publish h.isOpen h.listeners_ne_nil e

end CaughtUp

end Capability.Feed
