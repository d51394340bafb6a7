import Capability.Proofs.Procedure
import Capability.Proofs.State.Calls

/-!
# Requests in place

The state of a device is one place in memory, and a request writes to it step by step. Here the requests are
procedures on that place: what was written before a fault stays written, in the packages, in the log and in the world of
the callbacks. Three ways lead to all or nothing:

* a load of definitions or of initial values works package by package on a copy (`Store.loadInPlace`,
  `Store.presetInPlace`);
* an update of several properties looks at all values before it stores the first (`Store.setAllInPlace`);
* an update of one property writes once (`Store.setInPlace`).

`Request.outcome_inPlace`: each request answers what the function for it answers. `Session.Reachable.inPlace_spec`: a
request that is refused leaves everything as it was and calls nobody.
-/

namespace Capability

open Procedure

/-! ## Packages -/

namespace Package

/-- Adds one property with its initial value. -/
def addProperty (m : String × Property) (p : Package) : Package :=
  { p with
    type := { p.type with properties := Fields.put m.1 m.2 p.type.members }
    values := p.values.put m.1 m.2.initial }

/-- None of the properties of a type is declared yet. -/
def checkNew (p : Package) (type : ObjectType) : Except Fault Unit :=
  match type.members.find? fun member => (p.type.get? member.1).isSome with
  | some (name, _) => .error (redefined p.name name)
  | none => .ok ()

/-- Declares properties one after the other. -/
def declareInPlace (definitions : Fields Json) : Procedure Package Unit := do
  let type ← look fun _ => ObjectType.ofFields none definitions
  look fun p => p.checkNew type
  each addProperty type.members

/-- Stores values one after the other. -/
def setAllInPlace (given : Fields Json) : Procedure Package Unit := do
  let values ← look fun p => p.checkAll given
  each (fun v p => p.store v.1 v.2) values

/-- Stores a value, and answers it. -/
def setInPlace (name : String) (json : Json) : Procedure Package Value := do
  let value ← look fun p => p.check name json
  modify fun p => p.store name value
  return value

variable {p : Package}

theorem foldl_addProperty (properties : Fields Property) (p : Package) :
    properties.foldl (fun p m => p.addProperty m) p = p.extend properties := by
  induction properties generalizing p with
  | nil => rfl
  | cons m rest ih => exact ih (p.addProperty m)

theorem foldl_store (values : List (String × Value)) (p : Package) :
    values.foldl (fun p v => p.store v.1 v.2) p = p.storeAll values := by
  induction values generalizing p with
  | nil => rfl
  | cons v rest ih => exact ih (p.store v.1 v.2)

theorem declare_eq (definitions : Fields Json) (p : Package) :
    p.declare definitions = do
      let type ← ObjectType.ofFields none definitions
      p.checkNew type
      return p.extend type.members := by
  unfold declare
  cases ObjectType.ofFields none definitions with
  | error e => rfl
  | ok type =>
    show (match type.members.find? _ with | some (name, _) => _ | none => _) = p.checkNew type >>= fun _ => _
    unfold checkNew
    cases type.members.find? fun member => (p.type.get? member.1).isSome <;> rfl

theorem outcome_declareInPlace (definitions : Fields Json) (p : Package) :
    outcome (declareInPlace definitions) p = (p.declare definitions).map fun q => ((), q) := by
  rw [declareInPlace, declare_eq, outcome_look_bind]
  cases ObjectType.ofFields none definitions with
  | error e => rfl
  | ok type =>
    show outcome (look (fun p => p.checkNew type) >>= fun _ => each addProperty type.members) p =
      Except.map _ (p.checkNew type >>= fun _ => .ok (p.extend type.members))
    rw [outcome_look_bind]
    cases p.checkNew type with
    | error e => rfl
    | ok _ =>
      show outcome (each addProperty type.members) p = .ok ((), p.extend type.members)
      rw [outcome_each, foldl_addProperty]

theorem outcome_setAllInPlace (given : Fields Json) (p : Package) :
    outcome (setAllInPlace given) p = (p.setAll given).map fun q => ((), q) := by
  unfold setAllInPlace setAll
  rw [outcome_look_bind]
  cases p.checkAll given with
  | error e => rfl
  | ok values =>
    show outcome (each (fun v p => p.store v.1 v.2) values) p = .ok ((), p.storeAll values)
    rw [outcome_each, foldl_store]

theorem outcome_setInPlace (name : String) (json : Json) (p : Package) :
    outcome (setInPlace name json) p = (p.set name json).map Prod.swap := by
  unfold setInPlace set
  rw [outcome_look_bind]
  cases p.check name json <;> rfl

theorem atomicAt_setInPlace (name : String) (json : Json) : AtomicAt p (setInPlace name json) := by
  refine .look_bind fun value _ => Sure.atomicAt ?_ p
  exact (sure_modify _).bind fun _ => sure_pure value

end Package

/-! ## Stores -/

namespace Store

variable {s : Store}

/-- Works in place on the package of a name, which is added if there is none. -/
def inPackage {α : Type} (name : String) (act : Procedure Package α) : Procedure Store α :=
  onPart (fun s => (s.packages.get? name).getD (.empty name))
    (fun p s => { s with packages := s.packages.put name p }) act

/-- There is a package of that name to give initial values to. -/
def checkPackage (s : Store) (name : String) : Except Fault Unit :=
  match s.packages.get? name with
  | some _ => .ok ()
  | none => .error (undefinedPackage name)

/-- Declares the properties of packages one after the other. -/
def declareEach : List (String × Json) → Procedure Store Unit
  | [] => pure ()
  | (name, json) :: rest => do
    let definitions ← look fun _ => propertiesOf name json
    inPackage name (Package.declareInPlace definitions)
    declareEach rest

/-- Loads the definitions of a category: works on a copy of the store. -/
def loadInPlace (json : Json) (category : String) : Procedure Store Unit := do
  look fun _ => if category = "" then .error emptyCategory else .ok ()
  let packages ← look fun _ => packagesOf json
  onCopy do
    declareEach packages
    modify fun s => { s with categories := s.categories.put category () }

/-- Sets the values of packages one after the other. -/
def presetEach : List (String × Json) → Procedure Store Unit
  | [] => pure ()
  | (name, json) :: rest => do
    let values ← look fun _ => propertiesOf name json
    look fun s => s.checkPackage name
    inPackage name (Package.setAllInPlace values)
    presetEach rest

/-- Sets initial values: works on a copy of the packages. -/
def presetInPlace (json : Json) : Procedure Store Unit := do
  let packages ← look fun _ => packagesOf json
  onCopy (presetEach packages)

/-- Sets one property, and answers what changed. -/
def setInPlace (name : String) (json : Json) : Procedure Store (Fields Json) := do
  let address ← look fun _ => splitName name
  let _ ← look fun s => s.package address.1
  let value ← inPackage address.1 (Package.setInPlace address.2 json)
  return [(name, value.toJson)]

/-- Sets several properties, and answers what changed if anything did: looks at all values first. -/
def setAllInPlace (json : Json) : Procedure Store (Option (Fields Json)) := do
  let packages ← look fun _ => packagesOf json
  let values ← look fun s => s.checkAll packages
  if values.isEmpty then
    return none
  else
    each (fun v s => s.put v.1.1 v.1.2 v.2) values
    return some (Fields.ofPairs (values.map fun v => (qualify v.1.1 v.1.2, v.2.toJson)))

/-! ### What they answer -/

theorem outcome_inPackage {α : Type} (name : String) (act : Procedure Package α) (s : Store) :
    outcome (inPackage name act) s =
      (outcome act ((s.packages.get? name).getD (.empty name))).map fun r =>
        (r.1, { s with packages := s.packages.put name r.2 }) :=
  outcome_onPart ..

theorem outcome_declareEach (definitions : List (String × Json)) (s : Store) :
    outcome (declareEach definitions) s =
      (declareAll s.packages definitions).map fun packages => ((), { s with packages := packages }) := by
  induction definitions generalizing s with
  | nil => rfl
  | cons d rest ih =>
    obtain ⟨name, json⟩ := d
    rw [declareEach, declareAll, outcome_look_bind]
    cases propertiesOf name json with
    | error e => rfl
    | ok definitions =>
      show outcome (inPackage name (Package.declareInPlace definitions) >>= fun _ => declareEach rest) s =
        Except.map _ (((s.packages.get? name).getD (.empty name)).declare definitions >>= fun p =>
          declareAll (s.packages.put name p) rest)
      rw [outcome_bind, outcome_inPackage, Package.outcome_declareInPlace]
      cases ((s.packages.get? name).getD (.empty name)).declare definitions with
      | error e => rfl
      | ok p => exact ih { s with packages := s.packages.put name p }

theorem outcome_loadInPlace (json : Json) (category : String) (s : Store) :
    outcome (loadInPlace json category) s = (s.load json category).map fun s' => ((), s') := by
  unfold loadInPlace load
  rw [outcome_look_bind]
  by_cases hcategory : category = ""
  · rw [if_pos hcategory, if_pos hcategory]
    rfl
  · rw [if_neg hcategory, if_neg hcategory]
    show outcome (look (fun _ => packagesOf json) >>= _) s = _
    rw [outcome_look_bind]
    cases packagesOf json with
    | error e => rfl
    | ok packages =>
      show outcome (onCopy (declareEach packages >>= fun _ => _)) s = _
      rw [outcome_onCopy, outcome_bind, outcome_declareEach]
      show _ = Except.map _ (declareAll s.packages packages >>= _)
      cases declareAll s.packages packages <;> rfl

theorem outcome_presetEach (given : List (String × Json)) (s : Store) :
    outcome (presetEach given) s =
      (presetAll s.packages given).map fun packages => ((), { s with packages := packages }) := by
  induction given generalizing s with
  | nil => rfl
  | cons g rest ih =>
    obtain ⟨name, json⟩ := g
    rw [presetEach, presetAll, outcome_look_bind]
    cases propertiesOf name json with
    | error e => rfl
    | ok values =>
      show outcome (look (fun s => s.checkPackage name) >>= _) s = _
      rw [outcome_look_bind]
      unfold checkPackage
      cases hp : s.packages.get? name with
      | none => rfl
      | some p =>
        show outcome (inPackage name (Package.setAllInPlace values) >>= fun _ => presetEach rest) s =
          Except.map _ (p.setAll values >>= fun q => presetAll (s.packages.put name q) rest)
        rw [outcome_bind, outcome_inPackage, Package.outcome_setAllInPlace, hp, Option.getD_some]
        cases p.setAll values with
        | error e => rfl
        | ok q => exact ih { s with packages := s.packages.put name q }

theorem outcome_presetInPlace (json : Json) (s : Store) :
    outcome (presetInPlace json) s = (s.preset json).map fun s' => ((), s') := by
  unfold presetInPlace preset
  rw [outcome_look_bind]
  cases packagesOf json with
  | error e => rfl
  | ok packages =>
    show outcome (onCopy (presetEach packages)) s = Except.map _ (presetAll s.packages packages >>= _)
    rw [outcome_onCopy, outcome_presetEach]
    cases presetAll s.packages packages <;> rfl

theorem outcome_setInPlace (name : String) (json : Json) (s : Store) :
    outcome (setInPlace name json) s = (s.set name json).map fun u => (u.changed, u.store) := by
  unfold setInPlace set
  rw [outcome_look_bind]
  cases splitName name with
  | error e => rfl
  | ok address =>
    obtain ⟨package, property⟩ := address
    show outcome (look (fun s => s.package package) >>= _) s = Except.map _ (s.package package >>= _)
    rw [outcome_look_bind]
    cases hp : s.package package with
    | error e => rfl
    | ok p =>
      show outcome (inPackage package (Package.setInPlace property json) >>= _) s =
        Except.map _ (p.set property json >>= _)
      rw [outcome_bind, outcome_inPackage, package_ok_iff.1 hp, Option.getD_some, Package.outcome_setInPlace]
      cases p.set property json <;> rfl

theorem outcome_setAllInPlace (json : Json) (s : Store) :
    outcome (setAllInPlace json) s =
      (s.setAll json).map fun u? => (u?.map (·.changed), (u?.map (·.store)).getD s) := by
  unfold setAllInPlace setAll
  rw [outcome_look_bind]
  cases packagesOf json with
  | error e => rfl
  | ok packages =>
    show outcome (look (fun s => s.checkAll packages) >>= _) s = Except.map _ (s.checkAll packages >>= _)
    rw [outcome_look_bind]
    cases s.checkAll packages with
    | error e => rfl
    | ok values =>
      cases values with
      | nil => rfl
      | cons v rest =>
        show outcome (each _ (v :: rest) >>= _) s = _
        rw [outcome_bind, outcome_each]
        rfl

/-! ### What they leave behind -/

theorem atomicAt_loadInPlace (json : Json) (category : String) : AtomicAt s (loadInPlace json category) := by
  refine .look_bind fun _ _ => .look_bind fun packages _ => ?_
  exact atomicAt_onCopy _ s

/-- Without the copy, the packages before the one at fault would be left in the store. -/
example : ∃ e s', declareEach [("fan", .object [("speed", .string "integer")]), ("lamp", .null)] .empty = .error e s' ∧
    (s'.property? "fan" "speed").isSome = true :=
  ⟨_, _, rfl, rfl⟩

theorem atomicAt_presetInPlace (json : Json) : AtomicAt s (presetInPlace json) := by
  refine .look_bind fun packages _ => ?_
  exact atomicAt_onCopy _ s

theorem atomicAt_setInPlace (hs : Formed s.packages) (name : String) (json : Json) :
    AtomicAt s (setInPlace name json) := by
  refine .look_bind fun address _ => .look_bind fun p hp => ?_
  have hget := package_ok_iff.1 hp
  have hput : { s with packages := s.packages.put address.1 ((s.packages.get? address.1).getD (.empty address.1)) } =
      s := by
    rw [hget, Option.getD_some, hs.sorted.put_self hget]
  have hpackage : AtomicAt s (inPackage address.1 (Package.setInPlace address.2 json)) :=
    (Package.atomicAt_setInPlace address.2 json).onPart hput
  exact hpackage.bind_sure fun value => sure_pure _

theorem atomicAt_setAllInPlace (json : Json) : AtomicAt s (setAllInPlace json) := by
  refine .look_bind fun packages _ => .look_bind fun values _ => Sure.atomicAt ?_ s
  by_cases hempty : values.isEmpty
  · rw [if_pos hempty]
    exact sure_pure none
  · rw [if_neg hempty]
    exact (sure_each _ values).bind fun _ => sure_pure _

end Store

/-! ## Live state -/

namespace LiveState

variable {κ ω : Type}

/-- Works in place on the store. -/
def onStore {α : Type} (act : Procedure Store α) : Procedure (LiveState κ × ω) α :=
  onPart (fun run => run.1.store) (fun store run => ({ run.1 with store := store }, run.2)) act

/-- Records what changed and then calls the callbacks. -/
def announce (react : Reaction κ ω) (time : Instant) (changed : Fields Json) : Procedure (LiveState κ × ω) Unit := do
  modify fun run => ({ run.1 with log := run.1.log.record time changed }, run.2)
  let callbacks ← look fun run => .ok run.1.observers.changed.snapshot
  each (call react) callbacks

theorem outcome_onStore {α : Type} (act : Procedure Store α) (run : LiveState κ × ω) :
    outcome (onStore act) run =
      (outcome act run.1.store).map fun r => (r.1, ({ run.1 with store := r.2 }, run.2)) :=
  outcome_onPart ..

theorem atomicAt_onStore {α : Type} {act : Procedure Store α} {run : LiveState κ × ω}
    (h : AtomicAt run.1.store act) : AtomicAt run (onStore act) := by
  refine AtomicAt.onPart ?_ rfl
  exact h

theorem outcome_announce (react : Reaction κ ω) (time : Instant) (u : Store.Update) (s : LiveState κ) (world : ω) :
    outcome (announce react time u.changed) ({ s with store := u.store }, world) =
      .ok ((), s.commit react time u world) := by
  unfold announce
  rw [outcome_modify_bind, outcome_look_bind]
  exact outcome_each ..

theorem sure_announce (react : Reaction κ ω) (time : Instant) (changed : Fields Json) :
    Sure (announce react time changed) := by
  refine (sure_modify _).bind fun _ => Sure.bind ?_ fun callbacks => sure_each _ callbacks
  exact .of_outcome fun run => ⟨_, outcome_look ..⟩

end LiveState

/-! ## Requests -/

/-- A request to load definitions, to set initial values or to update the state. -/
inductive Request where
  | load (json : Json) (category : String)
  | loadText (text category : String)
  | preset (json : Json)
  | set (time : Instant) (name : String) (json : Json)
  | setAll (time : Instant) (json : Json)
  | setAllText (time : Instant) (text : String)

namespace Request

open LiveState

variable {κ ω : Type} (onChange : Reaction κ ω)

/-- What the function for a request answers: the new state and world, or a fault. -/
def answer (run : LiveState κ × ω) : Request → Except Fault (LiveState κ × ω)
  | load json category => (run.1.load json category).map fun live => (live, run.2)
  | loadText text category => (run.1.loadText text category).map fun live => (live, run.2)
  | preset json => (run.1.preset json).map fun live => (live, run.2)
  | set time name json => run.1.set onChange time name json run.2
  | setAll time json => (run.1.setAll onChange time json run.2).map fun run? => run?.getD run
  | setAllText time text => (run.1.setAllText onChange time text run.2).map fun run? => run?.getD run

/-- An update of several properties in place. -/
def updateAll (time : Instant) (json : Json) : Procedure (LiveState κ × ω) Unit := do
  match ← onStore (Store.setAllInPlace json) with
  | some changed => announce onChange time changed
  | none => return ()

/-- The request as a procedure on live state and world. -/
def inPlace : Request → Procedure (LiveState κ × ω) Unit
  | load json category => onStore (Store.loadInPlace json category)
  | loadText text category => do
    let json ← look fun _ => Json.read text
    onStore (Store.loadInPlace json category)
  | preset json => onStore (Store.presetInPlace json)
  | set time name json => do
    let changed ← onStore (Store.setInPlace name json)
    announce onChange time changed
  | setAll time json => updateAll onChange time json
  | setAllText time text => do
    let json ← look fun _ => Json.read text
    updateAll onChange time json

variable {run : LiveState κ × ω}

theorem outcome_load (json : Json) (category : String) (run : LiveState κ × ω) :
    outcome (onStore (Store.loadInPlace json category)) run =
      (answer onChange run (.load json category)).map fun run' => ((), run') := by
  rw [answer, LiveState.load, outcome_onStore, Store.outcome_loadInPlace]
  cases run.1.store.load json category <;> rfl

theorem outcome_updateAll (time : Instant) (json : Json) (run : LiveState κ × ω) :
    outcome (updateAll onChange time json) run =
      (answer onChange run (.setAll time json)).map fun run' => ((), run') := by
  rw [updateAll, answer, LiveState.setAll, outcome_bind, outcome_onStore, Store.outcome_setAllInPlace]
  cases run.1.store.setAll json with
  | error e => rfl
  | ok u? =>
    cases u? with
    | none => rfl
    | some u => exact outcome_announce onChange time u run.1 run.2

/-- **In place, a request answers what its function answers.** -/
theorem outcome_inPlace (r : Request) (run : LiveState κ × ω) :
    outcome (r.inPlace onChange) run = (r.answer onChange run).map fun run' => ((), run') := by
  cases r with
  | load json category => exact outcome_load onChange json category run
  | loadText text category =>
    rw [inPlace, answer, LiveState.loadText, outcome_look_bind]
    cases Json.read text with
    | error e => rfl
    | ok json => exact outcome_load onChange json category run
  | preset json =>
    rw [inPlace, answer, LiveState.preset, outcome_onStore, Store.outcome_presetInPlace]
    cases run.1.store.preset json <;> rfl
  | set time name json =>
    rw [inPlace, answer, LiveState.set, outcome_bind, outcome_onStore, Store.outcome_setInPlace]
    cases run.1.store.set name json with
    | error e => rfl
    | ok u => exact outcome_announce onChange time u run.1 run.2
  | setAll time json => exact outcome_updateAll onChange time json run
  | setAllText time text =>
    rw [inPlace, answer, LiveState.setAllText, outcome_look_bind]
    cases Json.read text with
    | error e => rfl
    | ok json => exact outcome_updateAll onChange time json run

theorem atomicAt_updateAll (time : Instant) (json : Json) : AtomicAt run (updateAll onChange time json) := by
  refine (atomicAt_onStore (Store.atomicAt_setAllInPlace json)).bind_sure fun changed? => ?_
  cases changed? with
  | none => exact sure_pure ()
  | some changed => exact sure_announce onChange time changed

/-- **A request that is refused leaves state and world as they were**, if the packages stand in order. -/
theorem atomicAt_inPlace (hrun : Store.Formed run.1.store.packages) (r : Request) :
    AtomicAt run (r.inPlace onChange) := by
  cases r with
  | load json category => exact atomicAt_onStore (Store.atomicAt_loadInPlace json category)
  | loadText text category =>
    refine .look_bind fun json _ => ?_
    exact atomicAt_onStore (Store.atomicAt_loadInPlace json category)
  | preset json => exact atomicAt_onStore (Store.atomicAt_presetInPlace json)
  | set time name json =>
    refine (atomicAt_onStore (Store.atomicAt_setInPlace hrun name json)).bind_sure fun changed => ?_
    exact sure_announce onChange time changed
  | setAll time json => exact atomicAt_updateAll onChange time json
  | setAllText time text =>
    refine .look_bind fun json _ => ?_
    exact atomicAt_updateAll onChange time json

end Request

namespace Session

variable {κ ω : Type} {onChange : Reaction κ ω} {onAcknowledged : Nat → Reaction κ ω} {s : Session κ ω}

/-- **A request in place succeeds exactly with what its function answers. Where that is a fault, all packages,
categories, records and callbacks are as they were, and so is the world, whatever calling back does to it**: nobody was
called, however many packages and properties were in order before the one at fault. -/
theorem Reachable.inPlace_spec (hs : s.Reachable onChange onAcknowledged) (r : Request) :
    (∀ run, r.inPlace onChange (s.live, s.world) = .ok () run ↔ r.answer onChange (s.live, s.world) = .ok run) ∧
      ∀ e run, r.inPlace onChange (s.live, s.world) = .error e run ↔
        r.answer onChange (s.live, s.world) = .error e ∧ run = (s.live, s.world) := by
  have hatomic : AtomicAt (s.live, s.world) (r.inPlace onChange) :=
    Request.atomicAt_inPlace onChange hs.formed r
  constructor
  · intro run
    rw [← outcome_ok_iff, Request.outcome_inPlace]
    cases r.answer onChange (s.live, s.world) <;> simp [Except.map]
  · intro e run
    rw [hatomic.eq_error_iff, Request.outcome_inPlace]
    cases r.answer onChange (s.live, s.world) <;> simp [Except.map]

/-- An update and a load that go wrong at their second item, with a callback that counts its calls. -/
theorem inPlace_spec_lamp : ∃ (s : Session Unit Nat) (update load : Request) (e e' : Fault),
    s = (fresh 5 0).run (fun _ live n => (live.observers, n + 1)) (fun _ _ live n => (live.observers, n))
      [.load (.object [("lamp", .object [("level", .string "integer"), ("on", .string "boolean")])]) "default",
        .watch ()] ∧
    update = .setAll ⟨0, 0⟩ (.object [("lamp", .object [("level", .integer 3), ("on", .integer 1)])]) ∧
    load = .load (.object [("fan", .object [("speed", .string "integer")]), ("lamp", .null)]) "default" ∧
    update.inPlace (fun _ live n => (live.observers, n + 1)) (s.live, s.world) = .error e (s.live, 1) ∧
    load.inPlace (fun _ live n => (live.observers, n + 1)) (s.live, s.world) = .error e' (s.live, 1) := by
  let s : Session Unit Nat :=
    (fresh 5 0).run (fun _ live n => (live.observers, n + 1)) (fun _ _ live n => (live.observers, n))
      [.load (.object [("lamp", .object [("level", .string "integer"), ("on", .string "boolean")])]) "default",
        .watch ()]
  have hspec := Reachable.inPlace_spec (s := s) ⟨5, 0, _, rfl⟩
  exact ⟨s, _, _, _, _, rfl, rfl, rfl, ((hspec _).2 _ _).2 ⟨rfl, rfl⟩, ((hspec _).2 _ _).2 ⟨rfl, rfl⟩⟩

end Session

end Capability
