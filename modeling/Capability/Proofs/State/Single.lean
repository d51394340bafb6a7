import Capability.Proofs.State.Announcing

/-!
# One property, set in two ways

A property may be set under its qualified name, with a time that is given, or in a tree that names it alone, at the time
of the update. The two ways check in different places and store in different steps, and still agree: the store answers
the same update or the same fault (`Store.setAll_single`). What they leave in the log differs in the time of the last
record alone, also where the record is merged because there is no room for it (`ChangeLog.restamped_record`).

* `Call.single_spec`: the two calls of a session answer the same, change it in the same way and invoke the same
  callbacks.
-/

namespace Capability

/-! ## Logs -/

namespace ChangeLog

/-- Two logs that differ in nothing but the time of their last record, which has the last number. -/
structure Restamped (time clock : Instant) (log log' : ChangeLog) : Prop where
  capacity : log'.capacity = log.capacity
  lastId : log'.lastId = log.lastId
  pending : ∃ older properties, log.pending = older ++ [⟨log.lastId, time, properties⟩] ∧
    log'.pending = older ++ [⟨log.lastId, clock, properties⟩]

/-- Wherever the newest record ends up, its time matters to nothing else. -/
theorem fit_concat {capacity : Nat} (hroom : 0 < capacity) (records : List Change) (id : Nat)
    (properties : Fields Json) : ∃ older merged, ∀ time,
      fit capacity (records ++ [⟨id, time, properties⟩]) = older ++ [⟨id, time, merged⟩] := by
  cases records with
  | nil =>
    refine ⟨[], properties, fun time => ?_⟩
    exact fit_eq_self hroom
  | cons first rest =>
    by_cases hone : capacity = 1
    · -- all records become one, and the newest has the last word
      refine ⟨[], (rest.foldl (fun older newer => newer.absorb older) first).properties.merge properties,
        fun time => ?_⟩
      have htake : (rest ++ [(⟨id, time, properties⟩ : Change)]).length + 1 - capacity =
          (rest ++ [(⟨id, time, properties⟩ : Change)]).length := by omega
      rw [List.cons_append, fit, htake, List.take_length, List.drop_length, List.foldl_append]
      rfl
    · let excess := rest.length + 2 - capacity
      refine ⟨(rest.take excess).foldl (fun older newer => newer.absorb older) first :: rest.drop excess, properties,
        fun time => ?_⟩
      have hlength : (rest ++ [(⟨id, time, properties⟩ : Change)]).length + 1 - capacity =
          rest.length + 2 - capacity := by simp
      have hle : rest.length + 2 - capacity ≤ rest.length := by omega
      rw [List.cons_append, fit, hlength, List.take_append_of_le_length hle, List.drop_append_of_le_length hle]
      rfl

theorem restamped_record (log : ChangeLog) (time clock : Instant) (properties : Fields Json) :
    Restamped time clock (log.record time properties) (log.record clock properties) := by
  obtain ⟨older, merged, hfit⟩ := fit_concat log.capacity_pos log.pending (log.lastId + 1) properties
  exact ⟨rfl, rfl, older, merged, hfit time, hfit clock⟩

end ChangeLog

/-! ## Stores -/

namespace Store

/-- The tree that gives one property a value. -/
def single (package property : String) (json : Json) : Json :=
  .object [(package, .object [(property, json)])]

/-- **Setting what a tree gives to one property alone is setting that property.** -/
theorem setAll_single (s : Store) {package property : String} (hpackage : package ≠ "")
    (hdot : '.' ∉ package.toList) (hproperty : property ≠ "") (json : Json) :
    s.setAll (single package property json) = (s.set (qualify package property) json).map some := by
  unfold set
  rw [splitName_qualify_iff.2 ⟨hdot, hpackage, hproperty⟩]
  show (s.checkAll [(package, .object [(property, json)])] >>= _) = Except.map some (s.package package >>= _)
  have hgiven : propertiesOf package (.object [(property, json)]) = .ok [(property, json)] := if_neg hpackage
  rw [checkAll, hgiven]
  show ((s.package package >>= _) >>= _) = _
  cases hp : s.package package with
  | error e => rfl
  | ok p =>
    have hget : s.packages.get? package = some p := package_ok_iff.1 hp
    show ((p.checkAll [(property, json)] >>= _) >>= _) = Except.map some (p.set property json >>= _)
    unfold Package.checkAll Package.set
    cases p.check property json with
    | error e => rfl
    | ok value =>
      show Except.ok (some (Update.mk (s.put package property value) _)) = _
      unfold put
      rw [hget]
      rfl

end Store

/-! ## Live state -/

variable {κ ω : Type}

/-- Live states that differ in nothing but the time of the last record. -/
structure LiveState.Restamped (time clock : Instant) (s s' : LiveState κ) : Prop where
  store : s'.store = s.store
  log : s.log.Restamped time clock s'.log
  observers : s'.observers = s.observers

/-- The callbacks do not look at the time of the last record. -/
def Reaction.Timeless (react : Reaction κ ω) : Prop :=
  ∀ time clock callback s s' world, LiveState.Restamped time clock s s' →
    react callback s' world = react callback s world

namespace LiveState

/-- Callbacks that do not look at the time do the same to states that differ in it. -/
theorem restamped_each {react : Reaction κ ω} (hreact : react.Timeless) {time clock : Instant}
    (callbacks : Subscriptions κ) {run run' : LiveState κ × ω} (h : run.1.Restamped time clock run'.1)
    (hworld : run'.2 = run.2) :
    (callbacks.each (call react) run).1.Restamped time clock (callbacks.each (call react) run').1 ∧
      (callbacks.each (call react) run').2 = (callbacks.each (call react) run).2 := by
  unfold Subscriptions.each
  induction callbacks.snapshot generalizing run run' with
  | nil => exact ⟨h, hworld⟩
  | cons callback rest ih =>
    have hcall : react callback run'.1 run'.2 = react callback run.1 run.2 := by
      rw [hworld, hreact time clock callback run.1 run'.1 run.2 h]
    have hobservers := congrArg Prod.fst hcall
    have hnext := congrArg Prod.snd hcall
    have hrest : (call react callback run).1.Restamped time clock (call react callback run').1 :=
      ⟨h.store, h.log, hobservers⟩
    exact ih hrest hnext

theorem restamped_commit {react : Reaction κ ω} (hreact : react.Timeless) (time clock : Instant) (u : Store.Update)
    (s : LiveState κ) (world : ω) :
    (s.commit react time u world).1.Restamped time clock (s.commit react clock u world).1 ∧
      (s.commit react clock u world).2 = (s.commit react time u world).2 :=
  restamped_each hreact _ ⟨rfl, s.log.restamped_record time clock u.changed, rfl⟩ rfl

end LiveState

/-! ## Calls -/

namespace Call

/-- What the store makes of an update: nothing if no property is named. -/
def update? (s : LiveState κ) : Call κ → Option (Except Fault (Option Store.Update))
  | .set _ name json => some ((s.store.set name json).map some)
  | .setAll _ json => some (s.store.setAll json)
  | _ => none

section Outcome

variable (onChange : Reaction κ ω) (onAcknowledged : Nat → Reaction κ ω) {s : Session κ ω} {c : Call κ}

/-- An update that the store refuses is answered by its fault, changes nothing and invokes nobody. -/
theorem outcome_of_refused {e : Fault} (h : c.update? s.live = some (.error e)) :
    c.perform onChange onAcknowledged s = s ∧ c.answer? s.live = some (.error e) ∧ c.invocations s.live = [] := by
  cases c with
  | set time name json =>
    have hset : s.live.store.set name json = .error e := Fault.map_error_iff.1 (Option.some.inj h)
    rw [perform, LiveState.set_eq, answer?, LiveState.setId_eq, invocations, hset]
    exact ⟨rfl, rfl, rfl⟩
  | setAll time json =>
    have hset : s.live.store.setAll json = .error e := Option.some.inj h
    rw [perform, LiveState.setAll_eq, answer?, LiveState.setAllId_eq, invocations, hset]
    exact ⟨rfl, rfl, rfl⟩
  | _ => cases h

/-- An update that the store accepts is answered by the number of its record, and is committed. -/
theorem outcome_of_accepted {time : Instant} (htime : c.time? = some time) {u : Store.Update}
    (h : c.update? s.live = some (.ok (some u))) :
    c.perform onChange onAcknowledged s = s.after (s.live.commit onChange time u s.world) ∧
      c.answer? s.live = some (.ok (s.live.recordedId time u)) ∧
      c.invocations s.live =
        s.live.observers.changed.snapshot.map fun k => ⟨k, u.store, s.live.log.record time u.changed⟩ := by
  cases c with
  | set time' name json =>
    obtain rfl := Option.some.inj htime
    obtain ⟨u', hset, hu⟩ := Fault.map_ok_iff.1 (Option.some.inj h)
    obtain rfl := Option.some.inj hu
    rw [perform, LiveState.set_eq, answer?, LiveState.setId_eq, invocations, hset]
    exact ⟨rfl, rfl, rfl⟩
  | setAll time' json =>
    obtain rfl := Option.some.inj htime
    have hset : s.live.store.setAll json = .ok (some u) := Option.some.inj h
    rw [perform, LiveState.setAll_eq, answer?, LiveState.setAllId_eq, invocations, hset]
    exact ⟨rfl, rfl, rfl⟩
  | _ => cases htime

end Outcome

/-- **An update of one property under its qualified name and an update of a tree that names it alone answer the same
number, or are refused with the same fault and leave everything as it was. They make the same packages, types and values
of the store, and the same records but for the time of the last one. The same callbacks are invoked in the same order,
and find the same store and such a log. At the same time they are one and the same, and at different times callbacks
that do not look at the time leave the same world and the same subscriptions behind.** -/
theorem single_spec (onChange : Reaction κ ω) (onAcknowledged : Nat → Reaction κ ω) (s : Session κ ω)
    {package property : String} (hpackage : package ≠ "") (hdot : '.' ∉ package.toList) (hproperty : property ≠ "")
    (json : Json) (time clock : Instant) :
    let one : Call κ := .set time (Store.qualify package property) json
    let tree : Call κ := .setAll clock (Store.single package property json)
    let s₁ := one.perform onChange onAcknowledged s
    let s₂ := tree.perform onChange onAcknowledged s
    tree.answer? s.live = one.answer? s.live ∧
      (∀ e, one.answer? s.live = some (.error e) → s₁ = s ∧ s₂ = s) ∧
      (∀ id, one.answer? s.live = some (.ok id) → s₁.live.log.Restamped time clock s₂.live.log) ∧
      s₂.live.store = s₁.live.store ∧ s₂.delivered = s₁.delivered ∧
      List.Forall₂ (fun a b => b.callback = a.callback ∧ b.store = a.store ∧ a.log.Restamped time clock b.log)
        (one.noted onChange onAcknowledged s) (tree.noted onChange onAcknowledged s) ∧
      (time = clock → s₂ = s₁) ∧
      (onChange.Timeless → s₂.world = s₁.world ∧ s₂.live.observers = s₁.live.observers) := by
  intro one tree s₁ s₂
  have hone : one.update? s.live = some ((s.live.store.set (Store.qualify package property) json).map some) := rfl
  have htree : tree.update? s.live = some ((s.live.store.set (Store.qualify package property) json).map some) :=
    congrArg some (s.live.store.setAll_single hpackage hdot hproperty json)
  rw [noted_eq, noted_eq]
  cases hset : s.live.store.set (Store.qualify package property) json with
  | error e =>
    rw [hset] at hone htree
    obtain ⟨h₁, hanswer₁, hinvoked₁⟩ := outcome_of_refused onChange onAcknowledged hone
    obtain ⟨h₂, hanswer₂, hinvoked₂⟩ := outcome_of_refused onChange onAcknowledged htree
    have hs₁ : s₁ = s := h₁
    have hs₂ : s₂ = s := h₂
    rw [hs₁, hs₂, hanswer₁, hanswer₂, hinvoked₁, hinvoked₂]
    refine ⟨rfl, fun _ _ => ⟨rfl, rfl⟩, fun id hid => ?_, rfl, rfl, .nil, fun _ => rfl, fun _ => ⟨rfl, rfl⟩⟩
    cases hid
  | ok u =>
    rw [hset] at hone htree
    have htime₁ : one.time? = some time := rfl
    have htime₂ : tree.time? = some clock := rfl
    obtain ⟨h₁, hanswer₁, hinvoked₁⟩ := outcome_of_accepted onChange onAcknowledged htime₁ hone
    obtain ⟨h₂, hanswer₂, hinvoked₂⟩ := outcome_of_accepted onChange onAcknowledged htime₂ htree
    have hs₁ : s₁ = s.after (s.live.commit onChange time u s.world) := h₁
    have hs₂ : s₂ = s.after (s.live.commit onChange clock u s.world) := h₂
    have hrecord := s.live.log.restamped_record time clock u.changed
    rw [hs₁, hs₂, hanswer₁, hanswer₂, hinvoked₁, hinvoked₂]
    refine ⟨rfl, fun e he => ?_, fun _ _ => ?_, ?_, rfl, ?_, ?_, fun hreact => ?_⟩
    · cases he
    · show (s.live.commit onChange time u s.world).1.log.Restamped time clock
        (s.live.commit onChange clock u s.world).1.log
      rw [LiveState.log_commit, LiveState.log_commit]
      exact hrecord
    · show (s.live.commit onChange clock u s.world).1.store = (s.live.commit onChange time u s.world).1.store
      rw [LiveState.store_commit, LiveState.store_commit]
    · rw [List.forall₂_map_left_iff, List.forall₂_map_right_iff, List.forall₂_same]
      exact fun _ _ => ⟨rfl, rfl, hrecord⟩
    · rintro rfl
      rfl
    · obtain ⟨hrestamped, hworld⟩ := LiveState.restamped_commit hreact time clock u s.live s.world
      exact ⟨hworld, hrestamped.observers⟩

/-- A property with a dot in its name and a log that has room for one record, so that the second one is merged into it;
the callback counts its calls. -/
theorem single_spec_merged : ∃ (count : Reaction Unit Nat) (s : Session Unit Nat) (one tree : Call Unit),
    count = (fun _ live n => (live.observers, n + 1)) ∧
    s = (Session.fresh 1 0).run count (fun _ => count)
      [.load (.object [("lamp", .object [("color.red", .string "integer")])]) "default", .watch (),
        .set ⟨0, 0⟩ "lamp.color.red" (.integer 1)] ∧
    one = .set ⟨1, 0⟩ "lamp.color.red" (.integer 2) ∧
    tree = .setAll ⟨2, 0⟩ (.object [("lamp", .object [("color.red", .integer 2)])]) ∧
    one.answer? s.live = some (.ok 2) ∧ tree.answer? s.live = some (.ok 2) ∧
    let s₁ := one.perform count (fun _ => count) s
    let s₂ := tree.perform count (fun _ => count) s
    s₁.live.log.Restamped ⟨1, 0⟩ ⟨2, 0⟩ s₂.live.log ∧ s₂.live.store = s₁.live.store ∧ s₁.world = 3 ∧ s₂.world = 3 := by
  let count : Reaction Unit Nat := fun _ live n => (live.observers, n + 1)
  let s : Session Unit Nat := (Session.fresh 1 0).run count (fun _ => count)
    [.load (.object [("lamp", .object [("color.red", .string "integer")])]) "default", .watch (),
      .set ⟨0, 0⟩ "lamp.color.red" (.integer 1)]
  have htimeless : count.Timeless := fun _ _ _ _ _ n h => congrArg (·, n + 1) h.observers
  have hone : (Call.set ⟨1, 0⟩ "lamp.color.red" (.integer 2) : Call Unit).answer? s.live = some (.ok 2) := rfl
  have hworld : ((Call.set ⟨1, 0⟩ "lamp.color.red" (.integer 2)).perform count (fun _ => count) s).world = 3 := by
    unfold s count
    rfl
  have hpackage : "lamp" ≠ "" := by decide
  have hdot : '.' ∉ "lamp".toList := by decide
  have hproperty : "color.red" ≠ "" := by decide
  obtain ⟨hanswer, _, hlog, hstore, _, _, _, htimes⟩ :=
    single_spec count (fun _ => count) s hpackage hdot hproperty (.integer 2) ⟨1, 0⟩ ⟨2, 0⟩
  exact ⟨count, s, _, _, rfl, rfl, rfl, rfl, hone, hanswer.trans hone, hlog 2 hone, hstore, hworld,
    (htimes htimeless).1.trans hworld⟩

end Call

end Capability
