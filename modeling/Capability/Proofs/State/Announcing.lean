import Capability.Proofs.State.Taking

/-!
# Updates are announced once

An accepted update of some property is recorded as one change under the next number. Then each callback for changes that
was there before is called once, in the order of their registration, and finds the state as it is after the update.
Nothing is recorded and nobody is called where no property is updated (`Call.announce_spec`).

Who is called, and what he finds, is noted in the world of the callbacks (`Reaction.noted`). The callbacks do not see
the notes, so a call does with notes what it does without them (`Call.perform_withNotes`).

* `Store.Update.Writes.get?_changed_iff`: what an update lists is what the tree of the state shows of it.
-/

namespace Capability

variable {κ ω : Type}

/-! ## Notes -/

/-- A call of a callback for changes, with what it finds. -/
structure Invocation (κ : Type) where
  callback : κ
  store : Store
  log : ChangeLog

/-- The reaction in a world where each call is noted. -/
def Reaction.noted (react : Reaction κ ω) : Reaction κ (ω × List (Invocation κ)) := fun callback s world =>
  let (observers, world') := react callback s world.1
  (observers, world', world.2 ++ [⟨callback, s.store, s.log⟩])

/-- The reaction in such a world, without a note. -/
def Reaction.unnoted (react : Reaction κ ω) : Reaction κ (ω × List (Invocation κ)) := fun callback s world =>
  let (observers, world') := react callback s world.1
  (observers, world', world.2)

/-- The session in such a world. -/
def Session.withNotes (s : Session κ ω) (notes : List (Invocation κ)) : Session κ (ω × List (Invocation κ)) :=
  ⟨s.live, (s.world, notes), s.delivered⟩

/-! ## Updates -/

namespace LiveState

section Updates

variable (react : Reaction κ ω) (time : Instant) (json : Json) (s : LiveState κ) (world : ω)

theorem set_eq (name : String) : s.set react time name json world =
    (s.store.set name json).map fun update => s.commit react time update world := by
  unfold set
  cases s.store.set name json <;> rfl

theorem setAll_eq : s.setAll react time json world =
    (s.store.setAll json).map (Option.map fun update => s.commit react time update world) := by
  unfold setAll
  cases s.store.setAll json <;> rfl

theorem setId_eq (name : String) : s.setId time name json = (s.store.set name json).map (s.recordedId time) := by
  unfold setId
  cases s.store.set name json <;> rfl

theorem setAllId_eq : s.setAllId time json =
    (s.store.setAll json).map fun update? => (update?.map (s.recordedId time)).getD s.lastId := by
  unfold setAllId
  cases s.store.setAll json with
  | error e => rfl
  | ok update? => cases update? <;> rfl

end Updates

/-! ## Callbacks -/

variable (callbacks : Subscriptions κ) (react : Reaction κ ω) (s : LiveState κ) (world : ω)
  (notes : List (Invocation κ))

/-- Each callback that is called leaves one note, and finds the same store and the same log as the others. -/
theorem each_noted : callbacks.each (call react.noted) (s, world, notes) =
    ((callbacks.each (call react) (s, world)).1, (callbacks.each (call react) (s, world)).2,
      notes ++ callbacks.snapshot.map fun callback => ⟨callback, s.store, s.log⟩) := by
  unfold Subscriptions.each
  induction callbacks.snapshot generalizing s world notes with
  | nil => simp
  | cons callback rest ih =>
    have hcall : call react.noted callback (s, world, notes) =
        ((call react callback (s, world)).1, (call react callback (s, world)).2,
          notes ++ [⟨callback, s.store, s.log⟩]) := rfl
    rw [List.foldl_cons, hcall, ih, List.append_assoc]
    rfl

theorem each_unnoted : callbacks.each (call react.unnoted) (s, world, notes) =
    ((callbacks.each (call react) (s, world)).1, (callbacks.each (call react) (s, world)).2, notes) := by
  unfold Subscriptions.each
  induction callbacks.snapshot generalizing s world notes with
  | nil => rfl
  | cons callback rest ih =>
    have hcall : call react.unnoted callback (s, world, notes) =
        ((call react callback (s, world)).1, (call react callback (s, world)).2, notes) := rfl
    rw [List.foldl_cons, hcall, ih]
    rfl

end LiveState

namespace Call

/-- The callbacks for changes that a call invokes, with what they find. -/
def invocations (s : LiveState κ) : Call κ → List (Invocation κ)
  | .set time name json =>
    match s.store.set name json with
    | .ok update => s.observers.changed.snapshot.map fun k => ⟨k, update.store, s.log.record time update.changed⟩
    | .error _ => []
  | .setAll time json =>
    match s.store.setAll json with
    | .ok (some update) =>
      s.observers.changed.snapshot.map fun k => ⟨k, update.store, s.log.record time update.changed⟩
    | .ok none | .error _ => []
  | .watch callback => [⟨callback, s.store, s.log⟩]
  | _ => []

section Perform

variable (onChange : Reaction κ ω) (onAcknowledged : Nat → Reaction κ ω)

/-- **A call does with notes what it does without them, and notes the callbacks that it invokes.** -/
theorem perform_withNotes (s : Session κ ω) (c : Call κ) (notes : List (Invocation κ)) :
    c.perform onChange.noted (fun id => (onAcknowledged id).unnoted) (s.withNotes notes) =
      (c.perform onChange onAcknowledged s).withNotes (notes ++ c.invocations s.live) := by
  cases c with
  | set time name json =>
    simp only [perform, Session.withNotes, LiveState.set_eq, invocations]
    cases s.live.store.set name json with
    | error e => simp [Except.map]
    | ok update => simp [Except.map, Session.after, LiveState.commit, LiveState.notify, LiveState.each_noted]
  | setAll time json =>
    simp only [perform, Session.withNotes, LiveState.setAll_eq, invocations]
    cases s.live.store.setAll json with
    | error e => simp [Except.map]
    | ok update? =>
      cases update? with
      | none => simp [Except.map]
      | some update => simp [Except.map, Session.after, LiveState.commit, LiveState.notify, LiveState.each_noted]
  | load json category =>
    simp only [perform, Session.withNotes, invocations, List.append_nil]
    cases s.live.load json category <;> rfl
  | preset json =>
    simp only [perform, Session.withNotes, invocations, List.append_nil]
    cases s.live.preset json <;> rfl
  | watch callback => rfl
  | acknowledge id =>
    simp [perform, Session.withNotes, Session.after, invocations, LiveState.acknowledge, LiveState.each_unnoted]
  | record | drain | unwatch | watchAcknowledged | unwatchAcknowledged =>
    simp [perform, Session.withNotes, invocations]

/-- The callbacks for changes that a call invokes in a world where they are noted. -/
def noted (s : Session κ ω) (c : Call κ) : List (Invocation κ) :=
  (c.perform onChange.noted (fun id => (onAcknowledged id).unnoted) (s.withNotes [])).world.2

theorem noted_eq (s : Session κ ω) (c : Call κ) : c.noted onChange onAcknowledged s = c.invocations s.live := by
  rw [noted, perform_withNotes]
  rfl

end Perform

/-! ## What is announced -/

/-- The time of an update. -/
def time? : Call κ → Option Instant
  | .set time _ _ | .setAll time _ => some time
  | _ => none

/-- What an update answers: the number of a change, or why it is refused. -/
def answer? (s : LiveState κ) : Call κ → Option (Except Fault Nat)
  | .set time name json => some (s.setId time name json)
  | .setAll time json => some (s.setAllId time json)
  | _ => none

/-- The call gives some property a value. -/
def Names (c : Call κ) : Prop :=
  ∃ package property, (c.given? package property).isSome = true

end Call

namespace Call

variable {onChange : Reaction κ ω} {onAcknowledged : Nat → Reaction κ ω} {s : Session κ ω} {c : Call κ}

variable (onChange onAcknowledged) in
/-- An accepted update of some property commits what it writes. -/
theorem exists_writes (hc : c.Sorted) {time : Instant} (htime : c.time? = some time) {id : Nat}
    (h : c.answer? s.live = some (.ok id)) (hnames : c.Names) :
    ∃ u writes, u.Writes s.live.store writes ∧ (writes.map (·.1)).Nodup ∧
      (∀ package property, (package, property) ∈ writes.map (·.1) ↔ (c.given? package property).isSome = true) ∧
      id = s.live.recordedId time u ∧
      c.perform onChange onAcknowledged s = s.after (s.live.commit onChange time u s.world) ∧
      c.invocations s.live =
        s.live.observers.changed.snapshot.map fun k => ⟨k, u.store, s.live.log.record time u.changed⟩ := by
  cases c with
  | set time' name json =>
    obtain rfl := Option.some.inj htime
    have hid := Option.some.inj h
    rw [LiveState.setId_eq] at hid
    cases hu : s.live.store.set name json with
    | error e =>
      rw [hu] at hid
      cases hid
    | ok u =>
      rw [hu] at hid
      obtain ⟨package, property, type, value, hsplit, _, _, hwrites⟩ := Store.set_spec hu
      refine ⟨u, _, hwrites, List.nodup_singleton _, fun package' property' => ?_, (Except.ok.inj hid).symm, ?_, ?_⟩
      · show _ ↔ (Store.given? name json package' property').isSome = true
        rw [Store.given?_of_splitName hsplit, List.map_singleton, List.mem_singleton]
        by_cases he : (package, property) = (package', property')
        · simp [he]
        · simp [he, Ne.symm he]
      · rw [perform, LiveState.set_eq, hu]
        rfl
      · rw [invocations, hu]
  | setAll time' json =>
    obtain rfl := Option.some.inj htime
    have hid := Option.some.inj h
    rw [LiveState.setAllId_eq] at hid
    cases hu : s.live.store.setAll json with
    | error e =>
      rw [hu] at hid
      cases hid
    | ok u? =>
      rw [hu] at hid
      cases u? with
      | none =>
        -- the tree would name no property
        obtain ⟨given, writes, rfl, hwrites, ⟨rfl, _⟩ | ⟨_, hsome⟩⟩ := Store.setAll_cases hu
        · obtain ⟨package, property, hgiven⟩ := hnames
          have hm := (Store.mem_pairs_iff hc).2 hgiven
          rw [← Store.pairs_of_checkAll hwrites] at hm
          cases hm
        · cases hsome
      | some u =>
        obtain ⟨writes, _, hpairs, hwrites⟩ := Store.setAll_spec hu
        refine ⟨u, writes, hwrites, ?_, fun package property => ?_, (Except.ok.inj hid).symm, ?_, ?_⟩
        · rw [hpairs]
          exact Store.nodup_pairs hc
        · rw [hpairs]
          exact Store.mem_pairs_iff hc
        · rw [perform, LiveState.setAll_eq, hu]
          rfl
        · rw [invocations, hu]
  | _ => cases htime

theorem names_of_set {time : Instant} {name : String} {json : Json} {u : Store.Update}
    (hu : s.live.store.set name json = .ok u) : (Call.set time name json : Call κ).Names := by
  obtain ⟨package, property, _, _, hsplit, _⟩ := Store.set_spec hu
  refine ⟨package, property, ?_⟩
  show (Store.given? name json package property).isSome = true
  rw [Store.given?_of_splitName hsplit, if_pos rfl]
  rfl

theorem names_of_setAll {time : Instant} {json : Json} {u : Store.Update} (hs : json.Sorted)
    (hu : s.live.store.setAll json = .ok (some u)) : (Call.setAll time json : Call κ).Names := by
  obtain ⟨writes, hne, hpairs, _⟩ := Store.setAll_spec hu
  obtain ⟨w, hw⟩ := List.exists_mem_of_ne_nil _ hne
  have hm : w.1 ∈ Store.pairs json := hpairs ▸ List.mem_map_of_mem hw
  exact ⟨w.1.1, w.1.2, (Store.mem_pairs_iff hs).1 hm⟩

/-- An accepted update of nothing answers the number of the last change. -/
theorem answer_of_not_names (hc : c.Sorted) {id : Nat} (h : c.answer? s.live = some (.ok id)) (hnames : ¬c.Names) :
    id = s.live.lastId := by
  cases c with
  | set time name json =>
    have hid := Option.some.inj h
    rw [LiveState.setId_eq] at hid
    cases hu : s.live.store.set name json with
    | error e =>
      rw [hu] at hid
      cases hid
    | ok u => exact absurd (names_of_set hu) hnames
  | setAll time json =>
    have hid := Option.some.inj h
    rw [LiveState.setAllId_eq] at hid
    cases hu : s.live.store.setAll json with
    | error e =>
      rw [hu] at hid
      cases hid
    | ok u? =>
      cases u? with
      | none =>
        rw [hu] at hid
        exact (Except.ok.inj hid).symm
      | some u => exact absurd (names_of_setAll hc hu) hnames
  | _ => cases h

/-- Besides updates and records only a fetch touches the log. -/
theorem log_perform (htime : c.time? = none) (hrecord : ∀ time properties, c ≠ .record time properties) :
    (c.perform onChange onAcknowledged s).live.log = s.live.log ∨
      c = .drain ∧ (c.perform onChange onAcknowledged s).live.log = s.live.log.drained := by
  cases c with
  | set time name json => cases htime
  | setAll time json => cases htime
  | load json category =>
    rw [perform]
    cases hload : s.live.load json category with
    | error e => exact .inl rfl
    | ok live => exact .inl (LiveState.log_load hload)
  | preset json =>
    rw [perform]
    cases hpreset : s.live.preset json with
    | error e => exact .inl rfl
    | ok live => exact .inl (LiveState.log_preset hpreset)
  | record time properties => exact absurd rfl (hrecord time properties)
  | acknowledge id => exact .inl (LiveState.each_call ..).2
  | drain => exact .inr ⟨rfl, rfl⟩
  | watch | unwatch | watchAcknowledged | unwatchAcknowledged => exact .inl rfl

/-- What is no accepted update of some property records nothing and invokes nobody. -/
theorem quiet_perform (hc : c.Sorted) (hupdate : ∀ id, c.answer? s.live = some (.ok id) → ¬c.Names)
    (hrecord : ∀ time properties, c ≠ .record time properties) (hwatch : ∀ callback, c ≠ .watch callback) :
    ((c.perform onChange onAcknowledged s).live.log = s.live.log ∨
        c = .drain ∧ (c.perform onChange onAcknowledged s).live.log = s.live.log.drained) ∧
      c.invocations s.live = [] := by
  cases c with
  | set time name json =>
    rw [perform, LiveState.set_eq, invocations]
    cases hu : s.live.store.set name json with
    | error e => exact ⟨.inl rfl, rfl⟩
    | ok u =>
      refine absurd (names_of_set hu) (hupdate (s.live.recordedId time u) ?_)
      rw [answer?, LiveState.setId_eq, hu]
      rfl
  | setAll time json =>
    rw [perform, LiveState.setAll_eq, invocations]
    cases hu : s.live.store.setAll json with
    | error e => exact ⟨.inl rfl, rfl⟩
    | ok u? =>
      cases u? with
      | none => exact ⟨.inl rfl, rfl⟩
      | some u =>
        refine absurd (names_of_setAll hc hu) (hupdate (s.live.recordedId time u) ?_)
        rw [answer?, LiveState.setAllId_eq, hu]
        rfl
  | watch callback => exact absurd rfl (hwatch callback)
  | _ => exact ⟨log_perform rfl hrecord, rfl⟩

/-- **An accepted update of some property answers the next number, which is then the last. It is recorded as one change,
with exactly the properties that it names, under their qualified names and with the values that the state shows
afterwards. Each callback that was there is invoked once, in the order of their registration, and finds that state. An
accepted update of no property answers the last number. Neither it nor any other call records a change or invokes a
callback**, but for records that are made in the log alone and for a new callback, which is invoked itself. -/
theorem announce_spec (onChange : Reaction κ ω) (onAcknowledged : Nat → Reaction κ ω) (s : Session κ ω)
    (hdots : ∀ package ∈ s.live.store.packages.names, '.' ∉ package.toList) (hc : c.Sorted) :
    let s' := c.perform onChange onAcknowledged s
    (∀ time id, c.time? = some time → c.answer? s.live = some (.ok id) → c.Names →
      id = s.live.lastId + 1 ∧ s'.live.lastId = id ∧
      (∃ changed, s'.live.log = s.live.log.record time changed ∧ changed.Sorted ∧
        ∀ name json, changed.get? name = some json ↔ ∃ package property,
          (c.given? package property).isSome = true ∧ name = Store.qualify package property ∧
            s'.live.store.toJson.property? package property = some json) ∧
      c.noted onChange onAcknowledged s =
        s.live.observers.changed.snapshot.map fun k => ⟨k, s'.live.store, s'.live.log⟩) ∧
    (∀ id, c.answer? s.live = some (.ok id) → ¬c.Names → id = s.live.lastId) ∧
    ((∀ id, c.answer? s.live = some (.ok id) → ¬c.Names) → (∀ time properties, c ≠ .record time properties) →
      (∀ callback, c ≠ .watch callback) →
      (s'.live.log = s.live.log ∨ c = .drain ∧ s'.live.log = s.live.log.drained) ∧
        c.noted onChange onAcknowledged s = []) := by
  intro s'
  rw [noted_eq]
  refine ⟨fun time id htime h hnames => ?_, fun id h hnames => answer_of_not_names hc h hnames, quiet_perform hc⟩
  obtain ⟨u, writes, hwrites, hnodup, hgiven, rfl, hperform, hinvoked⟩ :=
    exists_writes onChange onAcknowledged hc htime h hnames
  have hstore : s'.live.store = u.store := by
    rw [show s' = _ from hperform]
    exact LiveState.store_commit ..
  have hlog : s'.live.log = s.live.log.record time u.changed := by
    rw [show s' = _ from hperform]
    exact LiveState.log_commit ..
  have hwritten : ∀ w ∈ writes, '.' ∉ w.1.1.toList := by
    intro w hw
    obtain ⟨p, hp, _⟩ := (hwrites.declared w hw).exists_package
    refine hdots w.1.1 (Fields.mem_names_iff.2 ?_)
    rw [hp]
    exact Option.some_ne_none p
  refine ⟨rfl, ?_, ⟨u.changed, hlog, hwrites.sorted, fun name json => ?_⟩, ?_⟩
  · rw [LiveState.lastId, hlog]
    rfl
  · rw [hwrites.get?_changed_iff hnodup hwritten, hstore]
    simp only [hgiven]
  · rw [hinvoked, hstore, hlog]

/-- An update of one property and of an empty package, with two callbacks of which the first removes the second. -/
theorem announce_spec_removing : ∃ (react : Reaction (Option Subscriptions.Id) Unit)
    (s : Session (Option Subscriptions.Id) Unit) (c : Call (Option Subscriptions.Id)),
    react = (fun id s world =>
      ({ s.observers with changed := (id.map s.observers.changed.remove).getD s.observers.changed }, world)) ∧
    s = (Session.fresh 5 ()).run react (fun _ => react)
      [.load (.object [("fan", .object [("on", .string "boolean")]), ("lamp", .object [("level", .string "integer")])])
        "default", .watch (some ⟨2⟩), .watch none] ∧
    c = .setAll ⟨0, 0⟩ (.object [("fan", .object []), ("lamp", .object [("level", .integer 3)])]) ∧
    (∀ package ∈ s.live.store.packages.names, '.' ∉ package.toList) ∧ c.Sorted ∧
    c.answer? s.live = some (.ok 1) ∧ c.Names ∧
    let s' := c.perform react (fun _ => react) s
    s'.live.lastId = 1 ∧
      c.noted react (fun _ => react) s =
        [⟨some ⟨2⟩, s'.live.store, s'.live.log⟩, ⟨none, s'.live.store, s'.live.log⟩] ∧
      s'.live.observers.changed.snapshot = [some ⟨2⟩] := by
  let react : Reaction (Option Subscriptions.Id) Unit := fun id s world =>
    ({ s.observers with changed := (id.map s.observers.changed.remove).getD s.observers.changed }, world)
  let s : Session (Option Subscriptions.Id) Unit := (Session.fresh 5 ()).run react (fun _ => react)
    [.load (.object [("fan", .object [("on", .string "boolean")]), ("lamp", .object [("level", .string "integer")])])
      "default", .watch (some ⟨2⟩), .watch none]
  let c : Call (Option Subscriptions.Id) :=
    .setAll ⟨0, 0⟩ (.object [("fan", .object []), ("lamp", .object [("level", .integer 3)])])
  have hdots : ∀ package ∈ s.live.store.packages.names, '.' ∉ package.toList := by
    show ∀ package ∈ ["fan", "lamp"], '.' ∉ package.toList
    decide
  have hc : c.Sorted :=
    ⟨List.pairwise_pair.2 (by decide), ⟨List.Pairwise.nil, trivial⟩, ⟨List.pairwise_singleton _ _, trivial, trivial⟩,
      trivial⟩
  have hanswer : c.answer? s.live = some (.ok 1) := rfl
  have hnames : c.Names := ⟨"lamp", "level", rfl⟩
  obtain ⟨_, hlast, _, hnoted⟩ := (announce_spec react (fun _ => react) s hdots hc).1 _ _ rfl hanswer hnames
  exact ⟨react, s, c, rfl, rfl, rfl, hdots, hc, hanswer, hnames, hlast, hnoted, rfl⟩

end Call

end Capability
