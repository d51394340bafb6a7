import Capability.Proofs.Command.Reading
import Capability.Proofs.Procedure

/-!
# Categories own their commands

A dictionary is filled by loads, each for one category, and emptied by clears. A load reads its tree and looks for
foreign commands first; then it removes what the category had and puts the new commands one by one
(`Dictionary.loadInPlace`).

* `Dictionary.ofCategory_replace`, `Dictionary.ofCategory_replace_other`: what a load gives a category, and that it
  leaves the other categories alone.
* `Dictionary.run_spec`: after any calls, each category has exactly the commands of its last accepted load since the
  last clear.
* `Dictionary.named_run`: each full name is made of a proper package and a proper name.
-/

namespace Capability

open Procedure

namespace Dictionary

variable {d d' : Dictionary} {category : String} {base : Option Dictionary} {json : Json} {loaded : Fields Command}

/-- The commands of a category. -/
def ofCategory (d : Dictionary) (category : String) : Fields Command :=
  d.commands.filter fun entry => entry.2.category = category

/-! ## What a tree gives -/

/-- A tree gives commands of the category that it is read for, in order. -/
theorem readTree_spec (h : readTree category base json = .ok loaded) :
    loaded.Sorted ∧ ∀ name c, loaded.get? name = some c → c.category = category := by
  refine ⟨sorted_of_readTree h, fun name c hc => ?_⟩
  obtain ⟨_, _, _, _, _, _, _, _, _, hread⟩ := exists_of_readTree h hc
  obtain ⟨_, _, fields, _, hfields⟩ := readCommand_ok_iff.1 hread
  exact (Command.ofFields_ok_iff.1 hfields).2.2.2

/-! ## What a load does -/

theorem get?_ofCategory (hd : d.commands.Sorted) (category name : String) :
    (d.ofCategory category).get? name = (d.get? name).filter fun c => c.category = category :=
  hd.get?_filter_value (fun c => c.category = category) name

theorem get?_replace (hd : d.commands.Sorted) (hloaded : loaded.Sorted) (category name : String) :
    (d.replace category loaded).get? name =
      (loaded.get? name).or ((d.get? name).filter fun c => c.category ≠ category) := by
  have hkept := hd.get?_filter_value (fun c => c.category ≠ category) name
  have hmerge := hloaded.get?_merge (d.commands.filter fun entry => entry.2.category ≠ category) name
  rw [hkept] at hmerge
  exact hmerge

/-- An empty dictionary has the commands of the tree that is loaded first. -/
theorem get?_replace_empty (hloaded : loaded.Sorted) (category name : String) :
    (empty.replace category loaded).get? name = loaded.get? name := by
  have hempty : empty.commands.Sorted := Fields.sorted_nil
  rw [get?_replace hempty hloaded]
  exact Option.or_none

theorem sorted_replace (hd : d.commands.Sorted) (category : String) (loaded : Fields Command) :
    (d.replace category loaded).commands.Sorted :=
  (hd.filter _).merge loaded

theorem sorted_ofCategory (hd : d.commands.Sorted) (category : String) : (d.ofCategory category).Sorted :=
  hd.filter _

/-- No loaded command has the name of a command of another category. -/
theorem firstForeign?_eq_none_iff :
    d.firstForeign? category loaded = none ↔
      ∀ entry ∈ loaded, ∀ c, d.get? entry.1 = some c → c.category = category := by
  unfold firstForeign?
  rw [List.findSome?_eq_none_iff]
  refine forall₂_congr fun entry _ => ?_
  cases d.get? entry.1 with
  | none => simp
  | some c => simp

/-- **A load gives its category the commands of its tree and no others.** -/
theorem ofCategory_replace (hd : d.commands.Sorted) (h : readTree category base json = .ok loaded) :
    (d.replace category loaded).ofCategory category = loaded := by
  obtain ⟨hloaded, hcategory⟩ := readTree_spec h
  have hsorted := sorted_replace hd category loaded
  refine (sorted_ofCategory hsorted category).ext hloaded fun name => ?_
  rw [get?_ofCategory hsorted, get?_replace hd hloaded]
  cases hget : loaded.get? name with
  | some c =>
    have hc := hcategory name c hget
    simp [hc]
  | none =>
    rw [Option.none_or, Option.filter_filter]
    cases d.get? name <;> simp

/-- **A load leaves the commands of the other categories alone**, if none of its names is among them. -/
theorem ofCategory_replace_other (hd : d.commands.Sorted) (h : readTree category base json = .ok loaded)
    (hforeign : d.firstForeign? category loaded = none) {other : String} (hother : other ≠ category) :
    (d.replace category loaded).ofCategory other = d.ofCategory other := by
  obtain ⟨hloaded, hcategory⟩ := readTree_spec h
  have hsorted := sorted_replace hd category loaded
  refine (sorted_ofCategory hsorted other).ext (sorted_ofCategory hd other) fun name => ?_
  rw [get?_ofCategory hsorted, get?_ofCategory hd, get?_replace hd hloaded]
  cases hget : loaded.get? name with
  | some c =>
    -- the name was free, or it belonged to the category itself
    have hown := firstForeign?_eq_none_iff.1 hforeign _ (Fields.mem_of_get? hget)
    have hc : c.category ≠ other := by
      rw [hcategory name c hget]
      exact hother.symm
    cases hold : d.get? name with
    | none => simp [Option.filter_some, hc]
    | some c' =>
      have hc' : c'.category ≠ other := by
        rw [hown c' hold]
        exact hother.symm
      simp [Option.filter_some, hc, hc']
  | none =>
    rw [Option.none_or, Option.filter_filter]
    cases d.get? name with
    | none => rfl
    | some c' =>
      by_cases hc' : c'.category = other
      · simp [Option.filter_some, hc', hother]
      · simp [Option.filter_some, hc']

theorem load_ok_iff :
    d.load json category base = .ok d' ↔ ∃ loaded, readTree category base json = .ok loaded ∧
      d.firstForeign? category loaded = none ∧ d' = d.replace category loaded := by
  unfold load
  rw [Fault.bind_ok_iff]
  refine exists_congr fun loaded => and_congr_right fun _ => ?_
  cases d.firstForeign? category loaded with
  | some entry =>
    refine ⟨fun h => ?_, fun h => ?_⟩
    · cases h
    · cases h.1
  | none =>
    refine ⟨fun h => ⟨rfl, (Except.ok.inj h).symm⟩, fun h => ?_⟩
    rw [h.2]
    rfl

/-- An empty dictionary loads every tree that can be read. -/
theorem load_empty_ok_iff :
    empty.load json category base = .ok d' ↔ ∃ loaded, readTree category base json = .ok loaded ∧
      d' = empty.replace category loaded := by
  rw [load_ok_iff]
  refine exists_congr fun loaded => and_congr_right fun _ => and_iff_right ?_
  exact firstForeign?_eq_none_iff.2 fun _ _ _ hc => by cases hc

/-- No name belongs to two categories. -/
theorem category_unique (hd : d.commands.Sorted) {name category category' : String}
    (h : (d.ofCategory category).has name = true) (h' : (d.ofCategory category').has name = true) :
    category = category' := by
  obtain ⟨c, hc⟩ := Fields.has_iff.1 h
  obtain ⟨c', hc'⟩ := Fields.has_iff.1 h'
  rw [get?_ofCategory hd, Option.filter_eq_some_iff] at hc hc'
  obtain ⟨hget, hcategory⟩ := hc
  obtain ⟨hget', hcategory'⟩ := hc'
  obtain rfl : c = c' := Option.some.inj (hget.symm.trans hget')
  rw [← of_decide_eq_true hcategory, ← of_decide_eq_true hcategory']

/-! ## Calls in place -/

/-- None of the loaded commands belongs to another category. -/
def checkOwners (d : Dictionary) (category : String) (loaded : Fields Command) : Except Fault Unit :=
  match d.firstForeign? category loaded with
  | some (name, owner) => .error (duplicate name owner)
  | none => .ok ()

/-- Loads the commands of a category in place: looks at all of them first, then removes those that the category had,
and puts the new ones one by one. -/
def loadInPlace (json : Json) (category : String) (base : Option Dictionary) : Procedure Dictionary Unit := do
  let loaded ← look fun _ => readTree category base json
  look fun d => d.checkOwners category loaded
  modify fun d => ⟨d.commands.filter fun entry => entry.2.category ≠ category⟩
  each (fun entry d => ⟨d.commands.put entry.1 entry.2⟩) loaded

theorem foldl_put (loaded : Fields Command) (commands : Fields Command) :
    loaded.foldl (fun d entry => ⟨d.commands.put entry.1 entry.2⟩) (⟨commands⟩ : Dictionary) =
      ⟨commands.merge loaded⟩ := by
  induction loaded generalizing commands with
  | nil => rfl
  | cons entry rest ih => exact ih (commands.put entry.1 entry.2)

theorem load_eq (d : Dictionary) (json : Json) (category : String) (base : Option Dictionary) :
    d.load json category base = do
      let loaded ← readTree category base json
      d.checkOwners category loaded
      return d.replace category loaded := by
  unfold load
  cases readTree category base json with
  | error e => rfl
  | ok loaded =>
    show (match d.firstForeign? category loaded with | some (name, owner) => _ | none => _) =
      d.checkOwners category loaded >>= fun _ => _
    unfold checkOwners
    cases d.firstForeign? category loaded <;> rfl

/-- In place, a load answers what its function answers. -/
theorem outcome_loadInPlace (json : Json) (category : String) (base : Option Dictionary) (d : Dictionary) :
    outcome (loadInPlace json category base) d = (d.load json category base).map fun d' => ((), d') := by
  rw [loadInPlace, load_eq, outcome_look_bind]
  cases readTree category base json with
  | error e => rfl
  | ok loaded =>
    show outcome (look (fun d => d.checkOwners category loaded) >>= _) d =
      Except.map _ (d.checkOwners category loaded >>= fun _ => .ok (d.replace category loaded))
    rw [outcome_look_bind]
    cases d.checkOwners category loaded with
    | error e => rfl
    | ok _ =>
      show outcome (modify _ >>= fun _ => each _ loaded) d = .ok ((), d.replace category loaded)
      rw [outcome_modify_bind, outcome_each, foldl_put]
      rfl

theorem atomicAt_loadInPlace (json : Json) (category : String) (base : Option Dictionary) (d : Dictionary) :
    AtomicAt d (loadInPlace json category base) := by
  refine .look_bind fun loaded _ => .look_bind fun _ _ => Sure.atomicAt ?_ d
  exact (sure_modify _).bind fun _ => sure_each _ loaded

/-- A call of a dictionary. -/
inductive Call where
  | load (json : Json) (category : String) (base : Option Dictionary)
  | clear

/-- Makes a call in place. -/
def Call.act : Call → Procedure Dictionary Unit
  | .load json category base => loadInPlace json category base
  | .clear => modify fun _ => .empty

/-- A dictionary with the calls that were made of it, the latest first, and whether they were accepted. -/
structure Run where
  dictionary : Dictionary
  history : List (Call × Bool)

/-- Makes one more call, and goes on with what it leaves behind. -/
def Run.step (r : Run) (call : Call) : Run :=
  match call.act r.dictionary with
  | .ok _ d => ⟨d, (call, true) :: r.history⟩
  | .error _ d => ⟨d, (call, false) :: r.history⟩

/-- Makes calls of an empty dictionary. -/
def run (calls : List Call) : Run :=
  calls.foldl Run.step ⟨.empty, []⟩

/-- The tree and the base of the last accepted load of a category since the last clear. -/
def lastLoad? (category : String) : List (Call × Bool) → Option (Json × Option Dictionary)
  | [] => none
  | (.clear, _) :: _ => none
  | (.load json owner base, accepted) :: earlier =>
    if accepted ∧ owner = category then some (json, base) else lastLoad? category earlier

/-- The commands are in order, and each category has those of its last accepted load. -/
structure Run.Owned (r : Run) : Prop where
  sorted : r.dictionary.commands.Sorted
  none : ∀ category, lastLoad? category r.history = none → r.dictionary.ofCategory category = []
  some : ∀ category json base, lastLoad? category r.history = some (json, base) →
    readTree category base json = .ok (r.dictionary.ofCategory category)

theorem act_load_ok_iff :
    (Call.load json category base).act d = .ok () d' ↔ d.load json category base = .ok d' := by
  rw [Call.act, ← outcome_ok_iff, outcome_loadInPlace]
  cases d.load json category base <;> simp [Except.map]

theorem act_load_error_iff {e : Fault} :
    (Call.load json category base).act d = .error e d' ↔ d.load json category base = .error e ∧ d' = d := by
  rw [Call.act, (atomicAt_loadInPlace json category base d).eq_error_iff, outcome_loadInPlace]
  cases d.load json category base <;> simp [Except.map]

theorem lastLoad?_load_self (category : String) (json : Json) (base : Option Dictionary)
    (earlier : List (Call × Bool)) :
    lastLoad? category ((.load json category base, true) :: earlier) = some (json, base) := by
  rw [lastLoad?, if_pos ⟨rfl, rfl⟩]

theorem lastLoad?_load_other {category other : String} (h : other ≠ category) (json : Json)
    (base : Option Dictionary) (accepted : Bool) (earlier : List (Call × Bool)) :
    lastLoad? other ((.load json category base, accepted) :: earlier) = lastLoad? other earlier := by
  rw [lastLoad?, if_neg fun hand => h hand.2.symm]

theorem lastLoad?_refused (category other : String) (json : Json) (base : Option Dictionary)
    (earlier : List (Call × Bool)) :
    lastLoad? other ((.load json category base, false) :: earlier) = lastLoad? other earlier := by
  rw [lastLoad?, if_neg fun hand => Bool.false_ne_true hand.1]

theorem owned_empty {history : List (Call × Bool)} (h : ∀ category, lastLoad? category history = none) :
    Run.Owned ⟨.empty, history⟩ := by
  constructor
  · exact Fields.sorted_nil
  · intro category _
    rfl
  · intro category json base hlast
    rw [h category] at hlast
    cases hlast

/-- **A call keeps it so.** An accepted load counts for its own category, and a refused one for none. -/
theorem Run.Owned.step {r : Run} (h : r.Owned) (call : Call) : (r.step call).Owned := by
  cases call with
  | clear => exact owned_empty fun _ => rfl
  | load json category base =>
    unfold Run.step
    split
    · rename_i d hact
      obtain ⟨loaded, hloaded, hforeign, rfl⟩ := load_ok_iff.1 (act_load_ok_iff.1 hact)
      constructor
      · exact sorted_replace h.sorted category loaded
      · intro other hlast
        by_cases hother : other = category
        · rw [hother, lastLoad?_load_self] at hlast
          cases hlast
        · rw [lastLoad?_load_other hother] at hlast
          rw [ofCategory_replace_other h.sorted hloaded hforeign hother]
          exact h.none other hlast
      · intro other json' base' hlast
        by_cases hother : other = category
        · rw [hother, lastLoad?_load_self] at hlast
          obtain ⟨rfl, rfl⟩ := Prod.mk.inj (Option.some.inj hlast)
          rw [hother, ofCategory_replace h.sorted hloaded]
          exact hloaded
        · rw [lastLoad?_load_other hother] at hlast
          rw [ofCategory_replace_other h.sorted hloaded hforeign hother]
          exact h.some other json' base' hlast
    · rename_i e d hact
      obtain ⟨_, rfl⟩ := act_load_error_iff.1 hact
      constructor
      · exact h.sorted
      · intro other hlast
        rw [lastLoad?_refused] at hlast
        exact h.none other hlast
      · intro other json' base' hlast
        rw [lastLoad?_refused] at hlast
        exact h.some other json' base' hlast

theorem Run.Owned.foldl {r : Run} (h : r.Owned) (calls : List Call) : (calls.foldl Run.step r).Owned := by
  induction calls generalizing r with
  | nil => exact h
  | cons call rest ih => exact ih (h.step call)

theorem owned_run (calls : List Call) : (run calls).Owned :=
  (owned_empty fun _ => rfl).foldl calls

theorem Run.calls_history (r : Run) (calls : List Call) :
    (calls.foldl Run.step r).history.map (·.1) = calls.reverse ++ r.history.map (·.1) := by
  induction calls generalizing r with
  | nil => rfl
  | cons call rest ih =>
    have hstep : (r.step call).history.map (·.1) = call :: r.history.map (·.1) := by
      unfold Run.step
      cases call.act r.dictionary <;> rfl
    rw [List.foldl_cons, ih, hstep, List.reverse_cons, List.append_assoc]
    rfl

theorem mem_of_lastLoad? {history : List (Call × Bool)} (h : lastLoad? category history = some (json, base)) :
    (.load json category base, true) ∈ history := by
  induction history with
  | nil => cases h
  | cons entry earlier ih =>
    obtain ⟨call, accepted⟩ := entry
    cases call with
    | clear => cases h
    | load json' owner base' =>
      rw [lastLoad?] at h
      split at h
      · rename_i hlast
        obtain ⟨rfl, rfl⟩ := Prod.mk.inj (Option.some.inj h)
        obtain ⟨rfl, rfl⟩ := hlast
        exact List.mem_cons_self
      · exact List.mem_cons_of_mem _ (ih h)

/-- The last accepted load is one of the calls. -/
theorem mem_of_lastLoad?_run {calls : List Call} (h : lastLoad? category (run calls).history = some (json, base)) :
    .load json category base ∈ calls := by
  have hmem : Call.load json category base ∈ (run calls).history.map (·.1) :=
    List.mem_map_of_mem (mem_of_lastLoad? h)
  simpa [run, Run.calls_history] using hmem

/-- Each command is one of those that the last accepted load of its category gave. -/
theorem Run.exists_load {r : Run} (h : r.Owned) {name : String} {c : Command}
    (hc : r.dictionary.get? name = some c) : ∃ json base loaded, lastLoad? c.category r.history = some (json, base) ∧
      readTree c.category base json = .ok loaded ∧ loaded.get? name = some c := by
  have hown : (r.dictionary.ofCategory c.category).get? name = some c := by
    rw [get?_ofCategory h.sorted, hc]
    exact Option.filter_eq_some_iff.2 ⟨rfl, decide_eq_true rfl⟩
  cases hlast : lastLoad? c.category r.history with
  | none =>
    rw [h.none _ hlast] at hown
    cases hown
  | some last =>
    obtain ⟨json, base⟩ := last
    exact ⟨json, base, _, rfl, h.some _ _ _ hlast, hown⟩

/-- **Every command has a proper package and a proper name of its own**, whatever was loaded. -/
theorem named_run (calls : List Call) {name : String} {c : Command} (h : (run calls).dictionary.get? name = some c) :
    ∃ package command, name = fullName package command ∧ Named package command := by
  obtain ⟨json, base, loaded, _, hread, hget⟩ := Run.exists_load (owned_run calls) h
  exact named_of_readTree hread hget

/-- **After any calls, each category has exactly the commands of its last accepted load since the last clear, and none
if there was no such load.** In particular a load that is refused leaves the dictionary as it was, one that is accepted
leaves all other categories as they were, and no name belongs to two categories. -/
theorem run_spec (calls : List Call) :
    (∀ category, lastLoad? category (run calls).history = none → (run calls).dictionary.ofCategory category = []) ∧
    (∀ category json base, lastLoad? category (run calls).history = some (json, base) →
      readTree category base json = .ok ((run calls).dictionary.ofCategory category)) ∧
    (∀ json category base e d', (Call.load json category base).act (run calls).dictionary = .error e d' ↔
      (run calls).dictionary.load json category base = .error e ∧ d' = (run calls).dictionary) ∧
    (∀ json category base d', (Call.load json category base).act (run calls).dictionary = .ok () d' ↔
      (run calls).dictionary.load json category base = .ok d') ∧
    (∀ json category base d' other, (run calls).dictionary.load json category base = .ok d' → other ≠ category →
      d'.ofCategory other = (run calls).dictionary.ofCategory other) ∧
    ∀ name category category', ((run calls).dictionary.ofCategory category).has name = true →
      ((run calls).dictionary.ofCategory category').has name = true → category = category' := by
  have howned := owned_run calls
  refine ⟨howned.none, howned.some, fun _ _ _ _ _ => act_load_error_iff, fun _ _ _ _ => act_load_ok_iff, ?_, ?_⟩
  · intro json category base d' other hload hother
    obtain ⟨loaded, hloaded, hforeign, rfl⟩ := load_ok_iff.1 hload
    exact ofCategory_replace_other howned.sorted hloaded hforeign hother
  · intro name category category' h h'
    exact category_unique howned.sorted h h'

/-- A category that is loaded again with one command less, and then refused a command of another category. -/
theorem run_spec_reload : ∃ calls : List Call,
    calls =
      [.load (.object [("base", .object [("ping", .object []), ("reboot", .object [])])]) "base" none,
        .load (.object [("robot", .object [("jump", .object [])])]) "robots" none,
        .load (.object [("base", .object [("reboot", .object [])])]) "base" none,
        .load (.object [("robot", .object [("jump", .object [])])]) "base" none] ∧
    (run calls).history.map (·.2) = [false, true, true, true] ∧
    (run calls).dictionary.names = ["base.reboot", "robot.jump"] ∧
    readTree "base" none (.object [("base", .object [("reboot", .object [])])]) =
      .ok ((run calls).dictionary.ofCategory "base") := by
  refine ⟨_, rfl, by decide, by decide, ?_⟩
  exact (run_spec _).2.1 "base" _ none rfl

end Dictionary

end Capability
