import Capability.Proofs.State.Replay

/-!
# Following the state by its changes

Who takes a tree of the state while no changes wait, and then fetches changes from time to time, has with those that
still wait all that happened since (`Session.replay_eq`): applied in order they turn the tree into the present one on
every property that was there. This holds however small the log is, whatever is refused, and whenever changes are
fetched, as long as no two properties go by the same qualified name. One load may bring such a property about
(`replay_shared_name`).

The invariant is `Session.Follows`: the value of a property is the latest one that was fetched or still waits, or else
the one that the tree has.
-/

namespace Capability

open Change

/-- No two declared properties go by the same qualified name. -/
def Store.NamesApart (s : Store) : Prop :=
  ∀ package property package' property', s.Declares package property → s.Declares package' property' →
    Store.qualify package property = Store.qualify package' property' → (package, property) = (package', property')

/-- The call changes values only by updates that are recorded, and records nothing else. -/
def Call.Logged {κ : Type} : Call κ → Prop
  | .preset _ | .record _ _ => False
  | _ => True

namespace Session

variable {κ ω : Type}

/-- The session for one who has fetched nothing yet. -/
def restart (s : Session κ ω) : Session κ ω :=
  { s with delivered := [] }

/-! ## One call -/

/-- What was declared in a store is declared still, and has the latest value that the changes give it, or else the value
that it had in the store. -/
structure Follows (snapshot : Store) (s : Session κ ω) : Prop where
  declared : ∀ package property, snapshot.Declares package property → s.live.store.Declares package property
  sorted : ChangeLog.Sorted s.live.log.pending
  value : ∀ package property, snapshot.Declares package property →
    (s.live.store.value? package property).map Value.toJson =
      (latest? (s.delivered ++ s.live.log.pending) (Store.qualify package property)).or
        ((snapshot.value? package property).map Value.toJson)

section Step

variable {snapshot : Store} {s s' : Session κ ω} {c : Call κ}

theorem follows_restart (h : s.live.log.pending = []) : Follows s.live.store s.restart := by
  refine ⟨fun _ _ hd => hd, fun _ hc => ?_, fun package property _ => ?_⟩
  · have hc : _ ∈ s.live.log.pending := hc
    rw [h] at hc
    cases hc
  · show _ = (latest? ([] ++ s.live.log.pending) _).or _
    rw [h]
    rfl

theorem declares_of_effect (heffect : c.Effect s s') (hc : c.Logged) {package property : String}
    (hd : s.live.store.Declares package property) : s'.live.store.Declares package property := by
  cases heffect with
  | none store => rwa [store]
  | loaded store =>
    obtain ⟨htype, _⟩ := Store.load_spec store hd
    unfold Store.Declares
    rwa [htype]
  | preset => exact hc.elim
  | updated writes store =>
    unfold Store.Declares
    rwa [store, writes.property?]
  | recorded => exact hc.elim
  | drained store => rwa [store]

/-- **A call keeps that the state is what the changes say.** -/
theorem Follows.step (h : Follows snapshot s) (hnames : s.live.store.NamesApart) (heffect : c.Effect s s')
    (hc : c.Logged) : Follows snapshot s' := by
  refine ⟨fun _ _ hd => declares_of_effect heffect hc (h.declared _ _ hd), ?_, fun package property hd => ?_⟩
  · cases heffect with
    | none _ log => exact log ▸ h.sorted
    | loaded _ log => exact log ▸ h.sorted
    | preset => exact hc.elim
    | updated writes _ log => exact log ▸ h.sorted.record _ writes.sorted
    | recorded => exact hc.elim
    | drained _ log =>
      rw [log]
      exact fun _ hm => absurd hm List.not_mem_nil
  · have hvalue := h.value package property hd
    have hdeclared := h.declared package property hd
    cases heffect with
    | none store log delivered => rw [store, log, delivered, hvalue]
    | loaded store log delivered =>
      obtain ⟨_, hload⟩ := Store.load_spec store hdeclared
      rw [hload, log, delivered, hvalue]
    | preset => exact hc.elim
    | updated writes store log delivered =>
      -- no other property that is written goes by this name
      have hunique := fun w hw he => hnames w.1.1 w.1.2 package property (writes.declared w hw) hdeclared he
      rw [store, Store.value?_of_writes writes hunique, hvalue, log, delivered, latest?_append, latest?_append,
        ChangeLog.latest?_record h.sorted _ writes.sorted, Option.or_assoc, Option.or_assoc, Option.or_assoc]
    | recorded => exact hc.elim
    | drained store log delivered =>
      rw [store, log, delivered, hvalue]
      show _ = (latest? (s.delivered ++ s.live.log.pending ++ []) _).or _
      rw [List.append_nil]

end Step

/-! ## Whole runs -/

section Run

variable {onChange : Reaction κ ω} {onAcknowledged : Nat → Reaction κ ω} {snapshot : Store} {s : Session κ ω}

theorem declares_run {calls : List (Call κ)} (hcalls : ∀ c ∈ calls, c.Logged) {package property : String}
    (hd : s.live.store.Declares package property) :
    (s.run onChange onAcknowledged calls).live.store.Declares package property := by
  induction calls generalizing s with
  | nil => exact hd
  | cons c rest ih =>
    refine ih (fun d hd => hcalls d (List.mem_cons_of_mem _ hd)) ?_
    exact declares_of_effect (c.effect_perform onChange onAcknowledged s) (hcalls c List.mem_cons_self) hd

/-- **After any calls the state is what the changes say**, if no two properties go by the same qualified name in the
end. -/
theorem Follows.run (h : Follows snapshot s) {calls : List (Call κ)} (hcalls : ∀ c ∈ calls, c.Logged)
    (hnames : (s.run onChange onAcknowledged calls).live.store.NamesApart) :
    Follows snapshot (s.run onChange onAcknowledged calls) := by
  induction calls generalizing s with
  | nil => exact h
  | cons c rest ih =>
    -- what is declared now is declared in the end, so the names are apart now
    have hnow : s.live.store.NamesApart := fun P Q P' Q' hd hd' he =>
      hnames P Q P' Q' (declares_run hcalls hd) (declares_run hcalls hd') he
    have hstep := h.step hnow (c.effect_perform onChange onAcknowledged s) (hcalls c List.mem_cons_self)
    exact ih hstep (fun d hd => hcalls d (List.mem_cons_of_mem _ hd)) hnames

/-- **A tree of the state, taken while no changes wait, becomes the present one on all its properties, by the changes
that were fetched since and then those that still wait.** -/
theorem replay_eq (hs : s.Reachable onChange onAcknowledged) (hempty : s.live.log.pending = [])
    {calls : List (Call κ)} (hcalls : ∀ c ∈ calls, c.Logged) {r : Session κ ω}
    (hr : r = s.restart.run onChange onAcknowledged calls) (hnames : r.live.store.NamesApart)
    {package property : String} {old : Json} (hold : s.live.store.toJson.property? package property = some old) :
    ∃ new, r.live.store.toJson.property? package property = some new ∧
      (replay (r.delivered ++ r.live.log.pending) s.live.store.toJson).property? package property = some new := by
  subst hr
  rw [Store.property?_toJson] at hold
  obtain ⟨value, hvalue, rfl⟩ := Option.map_eq_some_iff.1 hold
  have hdeclared : s.live.store.Declares package property := by
    unfold Store.Declares
    rw [← hs.sound.isSome_value?, hvalue]
    rfl
  have hfollows := ((follows_restart hempty).run hcalls hnames).value package property hdeclared
  rw [property?_replay, Store.property?_toJson, Store.property?_toJson, hfollows, hvalue]
  exact ⟨_, Option.or_some .., rfl⟩

end Run

/-! ## Qualified names that are shared -/

theorem namesApart_single {s : Store} {name : String} {p : Package} {property : String} {type : Property}
    (hpackages : s.packages = [(name, p)]) (hproperties : p.type.properties = [(property, type)]) : s.NamesApart := by
  have hsingle : ∀ package' property', s.Declares package' property' → (package', property') = (name, property) := by
    intro package' property' hd
    obtain ⟨q, hq, hdeclared⟩ := hd.exists_package
    rw [hpackages, Fields.get?_cons] at hq
    split at hq
    · rename_i hname
      obtain rfl := Option.some.inj hq
      unfold ObjectType.get? ObjectType.members at hdeclared
      rw [hproperties, Fields.get?_cons] at hdeclared
      split at hdeclared
      · rename_i hproperty
        rw [hname, hproperty]
      · cases hdeclared
    · cases hq
  intro package' property' package'' property'' hd hd' _
  rw [hsingle _ _ hd, hsingle _ _ hd']

/-- A log with room for one record, in which two updates are merged. -/
theorem replay_merged : ∃ s r : Session Unit Unit,
    s = (fresh 1 ()).run ignore (fun _ => ignore)
      [.load (.object [("lamp", .object [("level", .string "integer")])]) "default"] ∧
    r = s.restart.run ignore (fun _ => ignore)
      [.set ⟨0, 0⟩ "lamp.level" (.integer 1), .drain, .set ⟨1, 0⟩ "lamp.level" (.integer 2),
        .setAll ⟨2, 0⟩ (.object [("lamp", .object [("level", .integer 3)])])] ∧
    r.live.log.pending.length = 1 ∧ ∃ new, r.live.store.toJson.property? "lamp" "level" = some new ∧
      (replay (r.delivered ++ r.live.log.pending) s.live.store.toJson).property? "lamp" "level" = some new := by
  refine ⟨_, _, rfl, rfl, rfl, replay_eq ⟨1, (), _, rfl⟩ rfl ?_ rfl (namesApart_single rfl rfl) rfl⟩
  simp [Call.Logged]

/-- **A property that is declared later may share its qualified name with another one**, which then seems to change. -/
theorem replay_shared_name : ∃ s r : Session Unit Unit,
    s = (fresh 5 ()).run ignore (fun _ => ignore)
      [.load (.object [("lamp", .object [("color.red", .string "integer")])]) "default"] ∧
    s.live.log.pending = [] ∧ s.live.store.NamesApart ∧
    r = s.restart.run ignore (fun _ => ignore)
      [.load (.object [("lamp.color", .object [("red", .string "integer")])]) "extra",
        .setAll ⟨0, 0⟩ (.object [("lamp.color", .object [("red", .integer 1)])])] ∧
    r.live.store.toJson.property? "lamp" "color.red" = some (.integer 0) ∧
      (replay (r.delivered ++ r.live.log.pending) s.live.store.toJson).property? "lamp" "color.red" =
        some (.integer 1) :=
  ⟨_, _, rfl, rfl, namesApart_single rfl rfl, rfl, rfl, rfl⟩

end Session

end Capability
