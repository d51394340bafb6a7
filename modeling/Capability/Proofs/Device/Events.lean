import Capability.Proofs.Device.Calls
import Capability.Proofs.Event.Feed
import Capability.Proofs.State.Announcing

/-!
# Events mirror accepted calls

A listener that is there from the start and receives after each call hears one event for each accepted call that has an
effect, in the order of the calls, and nothing else (`Device.events_spec`). Updates are reported under the numbers that
they answer, which are those of the recorded changes, from one to the last.

* `Device.Call.steps`: what one call does to the feed and to the log.
* `Device.InUse.heard_eq`: what the listener hears of several calls. It does not matter to the calls that it listens.
-/

namespace Capability

/-- The number of an update that is reported. -/
def Event.changedId? : Event → Option Nat
  | .stateChanged id => some id
  | _ => none

/-- The second log comes from the first one by recording these changes, with fetches in between. -/
inductive ChangeLog.Records : ChangeLog → List Change → ChangeLog → Prop
  | done (log : ChangeLog) : Records log [] log
  | record {log log' : ChangeLog} {changes : List Change} (time : Instant) (properties : Fields Json)
      (h : Records (log.record time properties) changes log') :
      Records log (⟨log.lastId + 1, time, properties⟩ :: changes) log'
  | drained {log log' : ChangeLog} {changes : List Change} (h : Records log.drained changes log') :
      Records log changes log'

/-- **Changes are recorded under consecutive numbers, of which the last stays.** -/
theorem ChangeLog.Records.ids {log log' : ChangeLog} {changes : List Change} (h : Records log changes log') :
    changes.map (·.id) = List.range' (log.lastId + 1) changes.length ∧
      log'.lastId = log.lastId + changes.length := by
  induction h with
  | done log => exact ⟨rfl, rfl⟩
  | record time properties _ ih =>
    obtain ⟨hids, hlast⟩ := ih
    rw [lastId_record] at hids hlast
    refine ⟨?_, ?_⟩
    · rw [List.map_cons, hids, List.length_cons, List.range'_succ]
    · rw [hlast, List.length_cons]
      omega
  | drained _ ih => exact ih

/-- What may happen to a log while at most one event is published: a change is recorded and reported under its number,
the changes are fetched, or nothing happens. -/
inductive ChangeLog.Step (log : ChangeLog) : Option Event → ChangeLog → Prop
  | kept {e? : Option Event} (h : e?.bind Event.changedId? = none) : Step log e? log
  | drained : Step log none log.drained
  | recorded (time : Instant) (properties : Fields Json) :
      Step log (some (.stateChanged (log.lastId + 1))) (log.record time properties)

/-- **What happens to a log is recorded if it is reported as a change.** -/
theorem ChangeLog.Step.records {log log' log'' : ChangeLog} {e? : Option Event} {changes : List Change}
    (hstep : log.Step e? log') (h : log'.Records changes log'') :
    ∃ recorded, log.Records recorded log'' ∧
      recorded.map (·.id) = e?.toList.filterMap Event.changedId? ++ changes.map (·.id) := by
  cases hstep with
  | kept hnone =>
    refine ⟨changes, h, ?_⟩
    cases e? with
    | none => rfl
    | some e =>
      have hnone : e.changedId? = none := hnone
      simp [hnone]
  | drained => exact ⟨changes, .drained h, rfl⟩
  | recorded time properties => exact ⟨_, .record time properties h, rfl⟩

namespace Device

variable {κ ω : Type}

/-! ## What is reported -/

/-- Whether the call is accepted. -/
def Call.accepted (onChange : Reaction κ ω) (d : InUse κ ω) : Call κ → Bool
  | .addCommands json category => (d.device.addCommands json category).isOk
  | .addCommandsText text category => (d.device.addCommandsText text category).isOk
  | .addState json category => (d.device.addState json category).isOk
  | .addStateText text category => (d.device.addStateText text category).isOk
  | .set now name json => (d.device.set onChange now name json d.world).isOk
  | .setAll now json => (d.device.setAll onChange now json d.world).isOk
  | .setAllText now text => (d.device.setAllText onChange now text d.world).isOk
  | _ => true

/-- Whether the call has an effect where it is accepted. An update may name no property. -/
def Call.isEffective : Call κ → Bool
  | .setAll _ json => !(Store.pairs json).isEmpty
  | .setAllText _ text => (Json.read? text).any fun json => !(Store.pairs json).isEmpty
  | _ => true

/-- The number that an update answers. -/
def Call.answer? (s : LiveState κ) : Call κ → Option Nat
  | .set now name json => (s.setId now name json).toOption
  | .setAll now json => (s.setAllId now json).toOption
  | .setAllText now text => (s.setAllTextId now text).toOption
  | _ => none

/-- What the call is reported as. -/
def Call.report? (s : LiveState κ) (c : Call κ) : Option Event :=
  match c with
  | .addCommands _ category | .addCommandsText _ category => some (.commandsChanged category)
  | .addState _ category | .addStateText _ category => some (.stateDefined category)
  | .set .. | .setAll .. | .setAllText .. => (c.answer? s).map .stateChanged
  | .acknowledge id => some (.stateAcknowledged id)
  | _ => none

/-- The event of a call: an accepted call that has an effect is reported, and no other. -/
def Call.event? (onChange : Reaction κ ω) (d : InUse κ ω) (c : Call κ) : Option Event :=
  if c.accepted onChange d && c.isEffective then c.report? d.device.state else none

/-- The call is one of the device, or one of its state that records nothing itself, and leaves the listener alone. -/
def Call.Facade (listener : Nat) : Call κ → Prop
  | .onState (.set ..) | .onState (.setAll ..) | .onState (.record ..) | .publish _ => False
  | .unsubscribe other | .receive other => other ≠ listener
  | _ => True

section Run

variable (onChange : Reaction κ ω) (onAcknowledged : Nat → Reaction κ ω)

/-- The events of several calls. -/
def InUse.events (d : InUse κ ω) : List (Call κ) → List Event
  | [] => []
  | c :: rest => (c.event? onChange d).toList ++ events (c.perform onChange onAcknowledged d) rest

/-- What a listener hears that receives after each call. -/
def InUse.heard (listener : Nat) (d : InUse κ ω) : List (Call κ) → List Feed.Delivery
  | [] => []
  | c :: rest =>
    let after := c.perform onChange onAcknowledged d
    (after.device.feed.receive listener).2 ++
      heard listener (Call.perform onChange onAcknowledged after (.receive listener)) rest

end Run

/-! ## One call -/

section Operations

variable {react : Reaction κ ω} {d d' : Device κ} {world : ω} {now : Instant} {json : Json}

theorem feed_addCommands {category : String} (h : d.addCommands json category = .ok d') :
    d'.feed = d.feed.publish (.commandsChanged category) ∧ d'.state.log = d.state.log := by
  obtain ⟨commands, _, h⟩ := Fault.bind_ok_iff.1 h
  obtain rfl := Except.ok.inj h
  exact ⟨rfl, rfl⟩

theorem feed_addState {category : String} (h : d.addState json category = .ok d') :
    d'.feed = d.feed.publish (.stateDefined category) ∧ d'.state.log = d.state.log := by
  obtain ⟨state, hstate, h⟩ := Fault.bind_ok_iff.1 h
  obtain rfl := Except.ok.inj h
  exact ⟨rfl, LiveState.log_load hstate⟩

theorem set_eq (react : Reaction κ ω) (now : Instant) (name : String) (json : Json) (d : Device κ) (world : ω) :
    d.set react now name json world =
      (d.state.store.set name json).map fun u => d.changed (d.state.commit react now u world) := by
  rw [Device.set, LiveState.set_eq]
  cases d.state.store.set name json <;> rfl

theorem setAll_eq (react : Reaction κ ω) (now : Instant) (json : Json) (d : Device κ) (world : ω) :
    d.setAll react now json world = (d.state.store.setAll json).map fun u? =>
      (u?.map fun u => d.changed (d.state.commit react now u world)).getD (d, world) := by
  rw [Device.setAll, LiveState.setAll_eq]
  cases d.state.store.setAll json with
  | error e => rfl
  | ok u? => cases u? <;> rfl

end Operations

/-- An update of several properties names none exactly if there is no update. -/
theorem pairs_eq_nil_iff {s : Store} {json : Json} {u? : Option Store.Update} (h : s.setAll json = .ok u?) :
    Store.pairs json = [] ↔ u? = none := by
  obtain ⟨given, writes, rfl, hwrites, hcases⟩ := Store.setAll_cases h
  rw [← Store.pairs_of_checkAll hwrites, List.map_eq_nil_iff]
  rcases hcases with ⟨rfl, rfl⟩ | ⟨hne, rfl⟩ <;> simp_all

section Steps

variable (onChange : Reaction κ ω) (onAcknowledged : Nat → Reaction κ ω) {d : InUse κ ω} {listener : Nat}

/-- The device and the next one differ by at most one event, which reports the change that was recorded, if there was
one. -/
def Steps (listener : Nat) (d : Device κ) (e? : Option Event) (d' : Device κ) : Prop :=
  Feed.Step listener d.feed e? d'.feed ∧ d.state.log.Step e? d'.state.log

/-- A load that is reported if it is accepted. -/
theorem steps_next {r : Except Fault (Device κ)} {e : Event} (he : e.changedId? = none)
    (h : ∀ d', r = .ok d' → d'.feed = d.device.feed.publish e ∧ d'.state.log = d.device.state.log) :
    Steps listener d.device (if r.isOk then some e else none) (d.next r).device := by
  cases r with
  | error _ => exact ⟨.quiet, .kept rfl⟩
  | ok d' =>
    obtain ⟨hfeed, hlog⟩ := h d' rfl
    unfold Steps InUse.next
    rw [hfeed, hlog]
    exact ⟨.published e, .kept he⟩

/-- An update is reported under its number. -/
theorem steps_changed (d : Device κ) (now : Instant) (u : Store.Update) (world : ω) :
    Steps listener d (some (.stateChanged (d.state.recordedId now u)))
      (d.changed (d.state.commit onChange now u world)).1 := by
  have hlog := LiveState.log_commit onChange now u d.state world
  have hfeed : (d.changed (d.state.commit onChange now u world)).1.feed =
      d.feed.publish (.stateChanged (d.state.recordedId now u)) := by
    show d.feed.publish (.stateChanged (d.state.commit onChange now u world).1.log.lastId) = _
    rw [hlog]
    rfl
  refine ⟨?_, ?_⟩
  · rw [hfeed]
    exact .published _
  · show d.state.log.Step _ (d.state.commit onChange now u world).1.log
    rw [hlog]
    exact .recorded now u.changed

theorem steps_setAll (now : Instant) (json : Json) :
    Steps listener d.device ((Call.setAll now json).event? onChange d)
      ((Call.setAll now json).perform onChange onAcknowledged d).device := by
  show Steps listener d.device
    (if (d.device.setAll onChange now json d.world).isOk && !(Store.pairs json).isEmpty then
      (d.device.state.setAllId now json).toOption.map Event.stateChanged else none)
    (d.nextRun (d.device.setAll onChange now json d.world)).device
  rw [setAll_eq, LiveState.setAllId_eq]
  cases hu : d.device.state.store.setAll json with
  | error e => exact ⟨.quiet, .kept rfl⟩
  | ok u? =>
    have hpairs := pairs_eq_nil_iff hu
    cases u? with
    | none =>
      rw [hpairs.2 rfl]
      exact ⟨.quiet, .kept rfl⟩
    | some u =>
      have hne : (Store.pairs json).isEmpty = false := by
        simp [hpairs]
      rw [hne]
      exact steps_changed onChange d.device now u d.world

theorem steps_set (now : Instant) (name : String) (json : Json) :
    Steps listener d.device ((Call.set now name json).event? onChange d)
      ((Call.set now name json).perform onChange onAcknowledged d).device := by
  show Steps listener d.device
    (if (d.device.set onChange now name json d.world).isOk && true then
      (d.device.state.setId now name json).toOption.map Event.stateChanged else none)
    (d.nextRun (d.device.set onChange now name json d.world)).device
  rw [set_eq, LiveState.setId_eq]
  cases d.device.state.store.set name json with
  | error e => exact ⟨.quiet, .kept rfl⟩
  | ok u => exact steps_changed onChange d.device now u d.world

/-- A load that is accepted is reported. -/
theorem event?_of_load {c : Call κ} {r : Except Fault (Device κ)} {e : Event}
    (haccepted : c.accepted onChange d = r.isOk) (heffective : c.isEffective = true)
    (hreport : c.report? d.device.state = some e) :
    c.event? onChange d = if r.isOk then some e else none := by
  rw [Call.event?, haccepted, heffective, hreport, Bool.and_true]

/-- The text of a tree is as good as the tree. -/
theorem event?_setAllText {text : String} {json : Json} (h : Json.read? text = some json) (now : Instant) :
    (Call.setAllText now text).event? onChange d = (Call.setAll now json).event? onChange d := by
  have hread : Json.read text = .ok json := by
    rw [Json.read, h]
  show (if (d.device.setAllText onChange now text d.world).isOk &&
      (Json.read? text).any (fun json => !(Store.pairs json).isEmpty) then
    (d.device.state.setAllTextId now text).toOption.map Event.stateChanged else none) = _
  rw [setAllText, LiveState.setAllTextId, hread, h]
  rfl

/-- **A call publishes its event and no other, and the event tells whether a change was recorded.** -/
theorem Call.steps {c : Call κ} (hc : c.Facade listener) (d : InUse κ ω) :
    Steps listener d.device (c.event? onChange d) (c.perform onChange onAcknowledged d).device := by
  cases c with
  | addCommands json category =>
    rw [event?_of_load onChange rfl rfl rfl]
    exact steps_next rfl fun _ h => feed_addCommands h
  | addCommandsText text category =>
    rw [event?_of_load onChange rfl rfl rfl]
    refine steps_next rfl fun _ h => ?_
    obtain ⟨json, _, h⟩ := Fault.bind_ok_iff.1 h
    exact feed_addCommands h
  | addState json category =>
    rw [event?_of_load onChange rfl rfl rfl]
    exact steps_next rfl fun _ h => feed_addState h
  | addStateText text category =>
    rw [event?_of_load onChange rfl rfl rfl]
    refine steps_next rfl fun _ h => ?_
    obtain ⟨json, _, h⟩ := Fault.bind_ok_iff.1 h
    exact feed_addState h
  | set now name json => exact steps_set onChange onAcknowledged now name json
  | setAll now json => exact steps_setAll onChange onAcknowledged now json
  | setAllText now text =>
    cases hread : Json.read? text with
    | none =>
      have hrefused : d.device.setAllText onChange now text d.world = .error Json.malformed := by
        rw [Device.setAllText, Json.read, hread]
        rfl
      show Steps listener d.device
        (if (d.device.setAllText onChange now text d.world).isOk && _ then _ else none)
        (d.nextRun (d.device.setAllText onChange now text d.world)).device
      rw [hrefused]
      exact ⟨.quiet, .kept rfl⟩
    | some json =>
      have hperform : (Call.setAllText now text).perform onChange onAcknowledged d =
          (Call.setAll now json).perform onChange onAcknowledged d := by
        show d.nextRun (d.device.setAllText onChange now text d.world) = _
        rw [Device.setAllText, Json.read, hread]
        rfl
      rw [event?_setAllText onChange hread, hperform]
      exact steps_setAll onChange onAcknowledged now json
  | acknowledge id =>
    have hlog : (d.device.state.acknowledge onAcknowledged id d.world).1.log = d.device.state.log :=
      (LiveState.each_call ..).2
    refine ⟨.published (.stateAcknowledged id), ?_⟩
    show d.device.state.log.Step _ (d.device.state.acknowledge onAcknowledged id d.world).1.log
    rw [hlog]
    exact .kept rfl
  | onState c =>
    refine ⟨.quiet, ?_⟩
    have hlog : (c.perform onChange onAcknowledged ⟨d.device.state, d.world, []⟩).live.log = d.device.state.log ∨
        c = .drain ∧ (c.perform onChange onAcknowledged ⟨d.device.state, d.world, []⟩).live.log =
          d.device.state.log.drained := by
      cases c with
      | set | setAll | record => exact hc.elim
      | _ => exact Capability.Call.log_perform rfl nofun
    show d.device.state.log.Step none (c.perform onChange onAcknowledged ⟨d.device.state, d.world, []⟩).live.log
    rcases hlog with hlog | ⟨_, hlog⟩
    · rw [hlog]
      exact .kept rfl
    · rw [hlog]
      exact .drained
  | publish e => exact hc.elim
  | subscribe => exact ⟨.subscribed, .kept rfl⟩
  | unsubscribe other => exact ⟨.unsubscribed hc, .kept rfl⟩
  | receive other => exact ⟨.received hc, .kept rfl⟩

end Steps

/-! ## Several calls -/

/-- The device with another feed. -/
def withFeed (d : Device κ) (f : Feed) : Device κ :=
  { d with feed := f }

/-- The device in use with another feed. -/
def InUse.withFeed (d : InUse κ ω) (f : Feed) : InUse κ ω :=
  { d with device := d.device.withFeed f }

/-- Two outcomes of an operation that differ in nothing but the feed. -/
inductive SameButFeed {α : Type} (setFeed : α → Feed → α) : Except Fault α → Except Fault α → Prop
  | refused (e : Fault) : SameButFeed setFeed (.error e) (.error e)
  | accepted (a : α) (f : Feed) : SameButFeed setFeed (.ok a) (.ok (setFeed a f))

namespace SameButFeed

/-- What comes before an operation does not matter where it has nothing to do with the feed. -/
theorem bind {α β : Type} {setFeed : α → Feed → α} {next next' : β → Except Fault α} (r : Except Fault β)
    (h : ∀ b, SameButFeed setFeed (next b) (next' b)) : SameButFeed setFeed (r >>= next) (r >>= next') := by
  cases r with
  | error e => exact .refused e
  | ok b => exact h b

theorem isOk_eq {α : Type} {setFeed : α → Feed → α} {r r' : Except Fault α} (h : SameButFeed setFeed r r') :
    r'.isOk = r.isOk := by
  cases h <;> rfl

theorem next {r r' : Except Fault (Device κ)} (h : SameButFeed Device.withFeed r r') (d : InUse κ ω) (f : Feed) :
    ∃ g, (d.withFeed f).next r' = (d.next r).withFeed g := by
  cases h with
  | refused e => exact ⟨f, rfl⟩
  | accepted d' g => exact ⟨g, rfl⟩

theorem nextRun {r r' : Except Fault (Device κ × ω)}
    (h : SameButFeed (fun run f => (run.1.withFeed f, run.2)) r r') (d : InUse κ ω) (f : Feed) :
    ∃ g, (d.withFeed f).nextRun r' = (d.nextRun r).withFeed g := by
  cases h with
  | refused e => exact ⟨f, rfl⟩
  | accepted run g => exact ⟨g, rfl⟩

variable (react : Reaction κ ω) (now : Instant) (json : Json) (category : String) (d : Device κ) (f : Feed) (world : ω)

theorem addCommands : SameButFeed Device.withFeed (d.addCommands json category)
    ((d.withFeed f).addCommands json category) :=
  bind _ fun _ => .accepted _ (f.publish _)

theorem addState : SameButFeed Device.withFeed (d.addState json category) ((d.withFeed f).addState json category) :=
  bind _ fun _ => .accepted _ (f.publish _)

theorem set (name : String) : SameButFeed (fun run f => (run.1.withFeed f, run.2)) (d.set react now name json world)
    ((d.withFeed f).set react now name json world) :=
  bind _ fun _ => .accepted _ (f.publish _)

theorem setAll : SameButFeed (fun run f => (run.1.withFeed f, run.2)) (d.setAll react now json world)
    ((d.withFeed f).setAll react now json world) := by
  refine bind _ fun run? => ?_
  cases run? with
  | none => exact .accepted (d, world) f
  | some run => exact .accepted (d.changed run) (f.publish _)

end SameButFeed

section Listening

variable (onChange : Reaction κ ω) (onAcknowledged : Nat → Reaction κ ω) {listener : Nat}

/-- **Who listens does not matter to a call**: it is accepted or refused all the same, and apart from the feed it does
the same. -/
theorem Call.perform_withFeed (d : InUse κ ω) (f : Feed) (c : Call κ) :
    c.accepted onChange (d.withFeed f) = c.accepted onChange d ∧
      ∃ g, c.perform onChange onAcknowledged (d.withFeed f) = (c.perform onChange onAcknowledged d).withFeed g := by
  cases c with
  | addCommands json category =>
    have h := SameButFeed.addCommands json category d.device f
    exact ⟨h.isOk_eq, h.next d f⟩
  | addCommandsText text category =>
    have h := SameButFeed.bind (Json.read text) fun json => SameButFeed.addCommands json category d.device f
    exact ⟨h.isOk_eq, h.next d f⟩
  | addState json category =>
    have h := SameButFeed.addState json category d.device f
    exact ⟨h.isOk_eq, h.next d f⟩
  | addStateText text category =>
    have h := SameButFeed.bind (Json.read text) fun json => SameButFeed.addState json category d.device f
    exact ⟨h.isOk_eq, h.next d f⟩
  | set now name json =>
    have h := SameButFeed.set onChange now json d.device f d.world name
    exact ⟨h.isOk_eq, h.nextRun d f⟩
  | setAll now json =>
    have h := SameButFeed.setAll onChange now json d.device f d.world
    exact ⟨h.isOk_eq, h.nextRun d f⟩
  | setAllText now text =>
    have h := SameButFeed.bind (Json.read text) fun json => SameButFeed.setAll onChange now json d.device f d.world
    exact ⟨h.isOk_eq, h.nextRun d f⟩
  | acknowledge | onState | publish | subscribe | unsubscribe | receive => exact ⟨rfl, _, rfl⟩

theorem event?_withFeed (d : InUse κ ω) (f : Feed) (c : Call κ) :
    c.event? onChange (d.withFeed f) = c.event? onChange d := by
  rw [Call.event?, Call.event?, (c.perform_withFeed onChange (fun _ => onChange) d f).1]
  rfl

/-- **A listener that has passed all events hears those of the calls that follow**, as it receives after each of
them. -/
theorem InUse.heard_eq (d : InUse κ ω) {f : Feed} (hf : f.CaughtUp listener) {calls : List (Call κ)}
    (hcalls : ∀ c ∈ calls, c.Facade listener) :
    (d.withFeed f).heard onChange onAcknowledged listener calls =
      (d.events onChange onAcknowledged calls).map .event := by
  induction calls generalizing d f with
  | nil => rfl
  | cons c rest ih =>
    obtain ⟨_, g, hg⟩ := c.perform_withFeed onChange onAcknowledged d f
    have hstep := (Call.steps onChange onAcknowledged (hcalls c List.mem_cons_self) (d.withFeed f)).1
    rw [hg, event?_withFeed] at hstep
    obtain ⟨hheard, hpassed⟩ := hf.receive_step hstep
    have hrest := ih (c.perform onChange onAcknowledged d) hpassed fun c hc => hcalls c (List.mem_cons_of_mem _ hc)
    rw [heard, events, hg, List.map_append, ← hrest]
    exact congrArg (· ++ _) hheard

/-- **The changes that the calls record are those that are reported.** -/
theorem records_run {calls : List (Call κ)} (hcalls : ∀ c ∈ calls, c.Facade listener) (d : InUse κ ω) :
    ∃ recorded, d.device.state.log.Records recorded (d.run onChange onAcknowledged calls).device.state.log ∧
      recorded.map (·.id) = (d.events onChange onAcknowledged calls).filterMap Event.changedId? := by
  induction calls generalizing d with
  | nil => exact ⟨[], .done _, rfl⟩
  | cons c rest ih =>
    have hstep := (Call.steps onChange onAcknowledged (hcalls c List.mem_cons_self) d).2
    obtain ⟨recorded, hrecords, hids⟩ :=
      ih (fun c hc => hcalls c (List.mem_cons_of_mem _ hc)) (c.perform onChange onAcknowledged d)
    rw [InUse.events, List.filterMap_append, ← hids]
    exact hstep.records hrecords

end Listening

/-! ## Runs of a new device -/

section Run

variable {config : Config} {d : Device κ}

theorem loadIf_ok {α : Type} {load : Json → α → Except Fault α} {tree : Option Json} {a a' : α}
    (h : loadIf load tree a = .ok a') : a' = a ∨ ∃ json, load json a = .ok a' := by
  cases tree with
  | none => exact .inl (Except.ok.inj h).symm
  | some json => exact .inr ⟨json, h⟩

/-- What a configuration loads is neither reported nor recorded. -/
theorem fresh_ofConfig (h : ofConfig config = .ok d) :
    d.feed = .ofCapacity config.eventCapacity ∧ d.state.log = .ofCapacity config.changeCapacity := by
  obtain ⟨base, _, h⟩ := Fault.bind_ok_iff.1 h
  obtain ⟨loaded, hload, h⟩ := Fault.bind_ok_iff.1 h
  obtain ⟨state, hpreset, h⟩ := Fault.bind_ok_iff.1 h
  obtain rfl := Except.ok.inj h
  have hloaded : loaded.log = .ofCapacity config.changeCapacity := by
    rcases loadIf_ok hload with rfl | ⟨json, hjson⟩
    · rfl
    · exact LiveState.log_load hjson
  have hstate : state.log = loaded.log := by
    rcases loadIf_ok hpreset with rfl | ⟨json, hjson⟩
    · rfl
    · exact LiveState.log_preset hjson
  exact ⟨rfl, hstate.trans hloaded⟩

/-- **A listener that is there from the start hears one event for each accepted call that has an effect, in their order,
and nothing else. The updates that are reported have the numbers from one to the last, and each of them is one recorded
change.** -/
theorem events_spec (onChange : Reaction κ ω) (onAcknowledged : Nat → Reaction κ ω) (hd : ofConfig config = .ok d)
    (world : ω) {calls : List (Call κ)} (hcalls : ∀ c ∈ calls, c.Facade d.feed.nextListener) :
    let listened := Call.perform onChange onAcknowledged ⟨d, world⟩ .subscribe
    let published := InUse.events onChange onAcknowledged ⟨d, world⟩ calls
    let last := (InUse.run onChange onAcknowledged ⟨d, world⟩ calls).device
    listened.heard onChange onAcknowledged d.feed.nextListener calls = published.map .event ∧
      published.filterMap Event.changedId? = List.range' 1 last.state.lastId ∧
      ∃ recorded, d.state.log.Records recorded last.state.log ∧
        recorded.map (·.id) = published.filterMap Event.changedId? := by
  intro listened published last
  obtain ⟨hfeed, hlog⟩ := fresh_ofConfig hd
  have hpassed : d.feed.subscribe.1.CaughtUp d.feed.nextListener := by
    rw [hfeed]
    exact .subscribe rfl rfl
  obtain ⟨recorded, hrecords, hids⟩ := records_run onChange onAcknowledged hcalls ⟨d, world⟩
  have hlistened : listened = InUse.withFeed ⟨d, world⟩ d.feed.subscribe.1 := rfl
  refine ⟨?_, ?_, recorded, hrecords, hids⟩
  · rw [hlistened]
    exact InUse.heard_eq onChange onAcknowledged _ hpassed hcalls
  · obtain ⟨hrange, hlast⟩ := hrecords.ids
    rw [hlog] at hrange hlast
    have hlength : last.state.lastId = recorded.length := hlast.trans (Nat.zero_add _)
    rw [← hids, hrange, hlength]
    rfl

end Run

/-- A feed that keeps one event, an update of nothing and one that is refused. -/
theorem events_spec_lamp : ∃ (config : Config) (calls : List (Call Unit)) (d : Device Unit),
    config = { eventCapacity := 1 } ∧
    calls =
      [.addState (.object [("lamp", .object [("level", .string "integer")])]) "extra",
        .setAll ⟨0, 0⟩ (.object [("lamp", .object [("level", .integer 1)])]),
        .setAll ⟨1, 0⟩ (.object [("lamp", .object [])]),
        .set ⟨2, 0⟩ "lamp.level" (.string "high"),
        .onState .drain,
        .set ⟨3, 0⟩ "lamp.level" (.integer 2),
        .acknowledge 1] ∧
    ofConfig config = .ok d ∧ (∀ c ∈ calls, c.Facade d.feed.nextListener) ∧
    let listened := Call.perform Session.ignore (fun _ => Session.ignore) ⟨d, ()⟩ .subscribe
    let last := (InUse.run Session.ignore (fun _ => Session.ignore) ⟨d, ()⟩ calls).device
    listened.heard Session.ignore (fun _ => Session.ignore) d.feed.nextListener calls =
        [.event (.stateDefined "extra"), .event (.stateChanged 1), .event (.stateChanged 2),
          .event (.stateAcknowledged 1)] ∧
      last.state.lastId = 2 ∧
      ∃ recorded, d.state.log.Records recorded last.state.log ∧ recorded.map (·.id) = [1, 2] := by
  let calls : List (Call Unit) :=
    [.addState (.object [("lamp", .object [("level", .string "integer")])]) "extra",
      .setAll ⟨0, 0⟩ (.object [("lamp", .object [("level", .integer 1)])]),
      .setAll ⟨1, 0⟩ (.object [("lamp", .object [])]),
      .set ⟨2, 0⟩ "lamp.level" (.string "high"),
      .onState .drain,
      .set ⟨3, 0⟩ "lamp.level" (.integer 2),
      .acknowledge 1]
  let d : Device Unit := ⟨.empty, .empty, .ofCapacity 100, .ofCapacity 1⟩
  have hd : ofConfig { eventCapacity := 1 } = .ok d := rfl
  have hcalls : ∀ c ∈ calls, c.Facade d.feed.nextListener := by
    simp [calls, Call.Facade]
  have hpublished : InUse.events Session.ignore (fun _ => Session.ignore) ⟨d, ()⟩ calls =
      [.stateDefined "extra", .stateChanged 1, .stateChanged 2, .stateAcknowledged 1] := by
    subst calls d
    decide +kernel
  obtain ⟨hheard, hrange, recorded, hrecords, hids⟩ :=
    events_spec Session.ignore (fun _ => Session.ignore) hd () hcalls
  rw [hpublished] at hheard hrange hids
  have hlast := (congrArg List.length hrange).trans List.length_range'
  exact ⟨{ eventCapacity := 1 }, calls, d, rfl, rfl, hd, hcalls, hheard, hlast.symm, recorded, hrecords, hids⟩

end Device

end Capability
