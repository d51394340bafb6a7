import Capability.Proofs.State.Updates
import Capability.State.Live

/-!
# Calls of live state

A session is live state together with the world of its callbacks and with the changes that were fetched from it so far.
`Call.perform` makes one call of it, which leaves everything as it was where the call is refused.

* `Call.effect_perform`: what a call may do to the store, the log and the fetched changes.
* `Session.Reachable.invariant`: what every call keeps of the store holds at all times.
* `Session.Reachable.sound`, `Session.Reachable.formed`: the store is sound at all times, its packages in order.
-/

namespace Capability

namespace LiveState

variable {κ ω : Type}

/-! ## Callbacks -/

/-- Callbacks change neither the store nor the log. -/
theorem each_call (callbacks : Subscriptions κ) (react : Reaction κ ω) (run : LiveState κ × ω) :
    (callbacks.each (call react) run).1.store = run.1.store ∧ (callbacks.each (call react) run).1.log = run.1.log := by
  unfold Subscriptions.each
  induction callbacks.snapshot generalizing run with
  | nil => exact ⟨rfl, rfl⟩
  | cons callback rest ih => exact ih (call react callback run)

theorem store_commit (react : Reaction κ ω) (time : Instant) (u : Store.Update) (s : LiveState κ) (world : ω) :
    (s.commit react time u world).1.store = u.store :=
  (each_call ..).1

theorem log_commit (react : Reaction κ ω) (time : Instant) (u : Store.Update) (s : LiveState κ) (world : ω) :
    (s.commit react time u world).1.log = s.log.record time u.changed :=
  (each_call ..).2

/-! ## Definitions -/

/-- Loads leave the log alone. -/
theorem log_load {s s' : LiveState κ} {json : Json} {category : String} (h : s.load json category = .ok s') :
    s'.log = s.log := by
  obtain ⟨store, _, h⟩ := Fault.bind_ok_iff.1 h
  obtain rfl := Except.ok.inj h
  rfl

theorem log_preset {s s' : LiveState κ} {json : Json} (h : s.preset json = .ok s') : s'.log = s.log := by
  obtain ⟨store, _, h⟩ := Fault.bind_ok_iff.1 h
  obtain rfl := Except.ok.inj h
  rfl

end LiveState

/-! ## Sessions -/

/-- Live state that is in use. -/
structure Session (κ ω : Type) where
  live : LiveState κ
  world : ω
  /-- The changes that were fetched, the oldest first. -/
  delivered : List Change

/-- A call of live state. -/
inductive Call (κ : Type) where
  | load (json : Json) (category : String)
  | preset (json : Json)
  | set (time : Instant) (name : String) (json : Json)
  | setAll (time : Instant) (json : Json)
  | record (time : Instant) (properties : Fields Json)
  | drain
  | watch (callback : κ)
  | unwatch (id : Subscriptions.Id)
  | watchAcknowledged (callback : κ)
  | unwatchAcknowledged (id : Subscriptions.Id)
  | acknowledge (id : Nat)

/-- Callbacks that do nothing. -/
def Session.ignore : Reaction Unit Unit := fun _ s world => (s.observers, world)

variable {κ ω : Type}

/-- The session with live state without packages. -/
def Session.fresh (capacity : Nat) (world : ω) : Session κ ω :=
  ⟨.ofCapacity capacity, world, []⟩

/-- The session after live state and world have changed. -/
def Session.after (s : Session κ ω) (run : LiveState κ × ω) : Session κ ω :=
  { s with live := run.1, world := run.2 }

section Perform

variable (onChange : Reaction κ ω) (onAcknowledged : Nat → Reaction κ ω)

/-- Makes a call. -/
def Call.perform (s : Session κ ω) : Call κ → Session κ ω
  | .load json category =>
    match s.live.load json category with
    | .ok live => { s with live := live }
    | .error _ => s
  | .preset json =>
    match s.live.preset json with
    | .ok live => { s with live := live }
    | .error _ => s
  | .set time name json =>
    match s.live.set onChange time name json s.world with
    | .ok run => s.after run
    | .error _ => s
  | .setAll time json =>
    match s.live.setAll onChange time json s.world with
    | .ok (some run) => s.after run
    | .ok none | .error _ => s
  | .record time properties => { s with live := s.live.record time properties }
  | .drain => { s with live := s.live.drain.1, delivered := s.delivered ++ s.live.drain.2 }
  | .watch callback => s.after (s.live.watch onChange callback s.world)
  | .unwatch id => { s with live := s.live.unwatch id }
  | .watchAcknowledged callback => { s with live := s.live.watchAcknowledged callback }
  | .unwatchAcknowledged id => { s with live := s.live.unwatchAcknowledged id }
  | .acknowledge id => s.after (s.live.acknowledge onAcknowledged id s.world)

/-- Makes calls one after the other. -/
def Session.run (s : Session κ ω) (calls : List (Call κ)) : Session κ ω :=
  calls.foldl (fun s c => c.perform onChange onAcknowledged s) s

/-- The session comes from a fresh one by calls. -/
def Session.Reachable (s : Session κ ω) : Prop :=
  ∃ capacity world calls, s = (Session.fresh capacity world).run onChange onAcknowledged calls

end Perform

/-! ## What a call does -/

/-- What a call may do to the store, the log and the fetched changes. -/
inductive Call.Effect (s s' : Session κ ω) : Call κ → Prop
  | none {c : Call κ} (store : s'.live.store = s.live.store) (log : s'.live.log = s.live.log)
      (delivered : s'.delivered = s.delivered) : Effect s s' c
  | loaded {json : Json} {category : String} (store : s.live.store.load json category = .ok s'.live.store)
      (log : s'.live.log = s.live.log) (delivered : s'.delivered = s.delivered) : Effect s s' (.load json category)
  | preset {json : Json} (store : s.live.store.preset json = .ok s'.live.store)
      (log : s'.live.log = s.live.log) (delivered : s'.delivered = s.delivered) : Effect s s' (.preset json)
  | updated {c : Call κ} {time : Instant} {u : Store.Update} {writes : List ((String × String) × Value)}
      (writes : u.Writes s.live.store writes) (store : s'.live.store = u.store)
      (log : s'.live.log = s.live.log.record time u.changed) (delivered : s'.delivered = s.delivered) : Effect s s' c
  | recorded {time : Instant} {properties : Fields Json} (store : s'.live.store = s.live.store)
      (log : s'.live.log = s.live.log.record time properties) (delivered : s'.delivered = s.delivered) :
      Effect s s' (.record time properties)
  | drained (store : s'.live.store = s.live.store) (log : s'.live.log = s.live.log.drained)
      (delivered : s'.delivered = s.delivered ++ s.live.log.pending) : Effect s s' .drain

variable (onChange : Reaction κ ω) (onAcknowledged : Nat → Reaction κ ω)

/-- **A call does one of these things.** -/
theorem Call.effect_perform (s : Session κ ω) (c : Call κ) :
    Effect s (c.perform onChange onAcknowledged s) c := by
  cases c with
  | load json category =>
    rw [perform]
    split
    · rename_i live h
      obtain ⟨store, hstore, h⟩ := Fault.bind_ok_iff.1 h
      obtain rfl := Except.ok.inj h
      exact .loaded hstore rfl rfl
    · exact .none rfl rfl rfl
  | preset json =>
    rw [perform]
    split
    · rename_i live h
      obtain ⟨store, hstore, h⟩ := Fault.bind_ok_iff.1 h
      obtain rfl := Except.ok.inj h
      exact .preset hstore rfl rfl
    · exact .none rfl rfl rfl
  | set time name json =>
    rw [perform]
    split
    · rename_i run h
      obtain ⟨u, hu, h⟩ := Fault.bind_ok_iff.1 h
      obtain rfl := Except.ok.inj h
      obtain ⟨_, _, _, _, _, _, _, hwrites⟩ := Store.set_spec hu
      exact .updated hwrites (LiveState.store_commit ..) (LiveState.log_commit ..) rfl
    · exact .none rfl rfl rfl
  | setAll time json =>
    rw [perform]
    split
    · rename_i run h
      obtain ⟨u?, hu, h⟩ := Fault.bind_ok_iff.1 h
      obtain ⟨u, rfl, rfl⟩ := Option.map_eq_some_iff.1 (Except.ok.inj h)
      obtain ⟨_, _, _, hwrites⟩ := Store.setAll_spec hu
      exact .updated hwrites (LiveState.store_commit ..) (LiveState.log_commit ..) rfl
    · exact .none rfl rfl rfl
    · exact .none rfl rfl rfl
  | record time properties => exact .recorded rfl rfl rfl
  | drain => exact .drained rfl rfl rfl
  | watch callback => exact .none rfl rfl rfl
  | unwatch id => exact .none rfl rfl rfl
  | watchAcknowledged callback => exact .none rfl rfl rfl
  | unwatchAcknowledged id => exact .none rfl rfl rfl
  | acknowledge id => exact .none (LiveState.each_call ..).1 (LiveState.each_call ..).2 rfl

/-! ## What holds at all times -/

section Invariants

variable {s s' : Session κ ω}

theorem Call.Effect.sound {c : Call κ} (h : c.Effect s s') (hs : s.live.store.Sound) : s'.live.store.Sound := by
  cases h with
  | none store => rwa [store]
  | loaded store => exact hs.load store
  | preset store => exact hs.preset store
  | updated writes store => exact store ▸ hs.update writes
  | recorded store => rwa [store]
  | drained store => rwa [store]

theorem Call.Effect.formed {c : Call κ} (h : c.Effect s s') (hs : Store.Formed s.live.store.packages) :
    Store.Formed s'.live.store.packages := by
  cases h with
  | none store => rwa [store]
  | loaded store => exact hs.load store
  | preset store => exact hs.preset store
  | updated writes store =>
    rw [store, writes.store]
    exact hs.putAll _
  | recorded store => rwa [store]
  | drained store => rwa [store]

/-- **What the store has at first and every call keeps, it has at all times.** -/
theorem Session.run_invariant {I : Store → Prop}
    (hstep : ∀ {s s' : Session κ ω} {c : Call κ}, c.Effect s s' → I s.live.store → I s'.live.store)
    (hs : I s.live.store) (calls : List (Call κ)) : I (s.run onChange onAcknowledged calls).live.store := by
  induction calls generalizing s with
  | nil => exact hs
  | cons c rest ih => exact ih (hstep (c.effect_perform onChange onAcknowledged s) hs)

variable {onChange onAcknowledged} in
theorem Session.Reachable.invariant {I : Store → Prop} (h : s.Reachable onChange onAcknowledged) (hempty : I .empty)
    (hstep : ∀ {s s' : Session κ ω} {c : Call κ}, c.Effect s s' → I s.live.store → I s'.live.store) :
    I s.live.store := by
  obtain ⟨capacity, world, calls, rfl⟩ := h
  exact run_invariant onChange onAcknowledged hstep hempty calls

variable {onChange onAcknowledged} in
/-- **Exactly the declared properties have values**, whatever calls were made. -/
theorem Session.Reachable.sound (h : s.Reachable onChange onAcknowledged) : s.live.store.Sound :=
  h.invariant Store.sound_empty fun heffect hs => heffect.sound hs

variable {onChange onAcknowledged} in
/-- The packages stand in order and have names, whatever calls were made. -/
theorem Session.Reachable.formed (h : s.Reachable onChange onAcknowledged) : Store.Formed s.live.store.packages :=
  h.invariant (I := fun store => Store.Formed store.packages) Store.formed_empty
    fun heffect hs => heffect.formed hs

end Invariants

end Capability
