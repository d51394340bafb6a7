import Capability.Proofs.Fault

/-!
# Procedures in place

A procedure writes to a state as it goes on, and what it has written before a fault stays written. `outcome` forgets
what a fault leaves behind, so that procedures compare with functions that answer a new state or a fault. A procedure
is `AtomicAt` a state where a fault leaves that state as it was. There are three ways to be so:

* to work on a copy, which takes the place of the state in the end (`onCopy`);
* to look first and to write then (`AtomicAt.look_bind`);
* to let nothing but sure steps follow what may fault (`AtomicAt.bind_sure`).

`AtomicAt.eq_error_iff`: the outcome says all of an atomic procedure.
-/

namespace Capability

/-- A computation that writes to a state in place. Where it faults, what it has written before stays written. -/
abbrev Procedure (σ α : Type) := EStateM Fault σ α

namespace Procedure

variable {σ τ α β : Type} {s s' : σ} {e : Fault}

/-- Looks at the state, and may fault for what it finds. -/
def look (f : σ → Except Fault α) : Procedure σ α := fun s =>
  match f s with
  | .ok a => .ok a s
  | .error e => .error e s

/-- Writes once for each item, one after the other. -/
def each (write : α → σ → σ) : List α → Procedure σ Unit
  | [] => pure ()
  | x :: xs => do
    modify (write x)
    each write xs

/-- Works on a copy of the state, which takes its place only if all goes well. -/
def onCopy (act : Procedure σ α) : Procedure σ α := fun s =>
  match act s with
  | .ok a copy => .ok a copy
  | .error e _ => .error e s

/-- Works in place on a part of the state. -/
def onPart (part : σ → τ) (replace : τ → σ → σ) (act : Procedure τ α) : Procedure σ α := fun s =>
  match act (part s) with
  | .ok a t => .ok a (replace t s)
  | .error e t => .error e (replace t s)

/-! ## Outcomes -/

/-- The answer and the new state, or the fault without the state that it leaves. -/
def outcome (act : Procedure σ α) (s : σ) : Except Fault (α × σ) :=
  match act s with
  | .ok a s' => .ok (a, s')
  | .error e _ => .error e

theorem outcome_ok_iff {act : Procedure σ α} {a : α} : outcome act s = .ok (a, s') ↔ act s = .ok a s' := by
  unfold outcome
  cases act s with
  | ok b t => simp
  | error e t => simp

@[simp] theorem outcome_pure (a : α) (s : σ) : outcome (pure a : Procedure σ α) s = .ok (a, s) := rfl

@[simp] theorem outcome_modify (f : σ → σ) (s : σ) : outcome (modify f : Procedure σ Unit) s = .ok ((), f s) := rfl

theorem outcome_bind (act : Procedure σ α) (next : α → Procedure σ β) (s : σ) :
    outcome (act >>= next) s = outcome act s >>= fun r => outcome (next r.1) r.2 := by
  show outcome (EStateM.bind act next) s = _
  unfold outcome EStateM.bind
  cases act s <;> rfl

theorem outcome_look (f : σ → Except Fault α) (s : σ) : outcome (look f) s = (f s).map fun a => (a, s) := by
  unfold outcome look
  cases f s <;> rfl

/-- What is looked at decides how to go on. -/
theorem outcome_look_bind (f : σ → Except Fault α) (next : α → Procedure σ β) (s : σ) :
    outcome (look f >>= next) s = f s >>= fun a => outcome (next a) s := by
  rw [outcome_bind, outcome_look]
  cases f s <;> rfl

theorem outcome_modify_bind (f : σ → σ) (next : Unit → Procedure σ β) (s : σ) :
    outcome ((modify f : Procedure σ Unit) >>= next) s = outcome (next ()) (f s) := by
  rw [outcome_bind, outcome_modify]
  rfl

theorem outcome_each (write : α → σ → σ) (xs : List α) (s : σ) :
    outcome (each write xs) s = .ok ((), xs.foldl (fun s x => write x s) s) := by
  induction xs generalizing s with
  | nil => rfl
  | cons x xs ih =>
    rw [each, outcome_modify_bind, ih]
    rfl

@[simp] theorem outcome_onCopy (act : Procedure σ α) (s : σ) : outcome (onCopy act) s = outcome act s := by
  unfold outcome onCopy
  cases act s <;> rfl

theorem outcome_onPart (part : σ → τ) (replace : τ → σ → σ) (act : Procedure τ α) (s : σ) :
    outcome (onPart part replace act) s = (outcome act (part s)).map fun r => (r.1, replace r.2 s) := by
  unfold outcome onPart
  cases act (part s) <;> rfl

/-! ## Faults -/

/-- A fault is one of the first step, or one of the second step at the state that the first has made. -/
theorem bind_eq_error_iff {act : Procedure σ α} {next : α → Procedure σ β} :
    (act >>= next) s = .error e s' ↔ act s = .error e s' ∨ ∃ a t, act s = .ok a t ∧ next a t = .error e s' := by
  change EStateM.bind act next s = _ ↔ _
  unfold EStateM.bind
  cases act s with
  | ok a t => simp
  | error e' t => simp

theorem look_eq_ok_iff {f : σ → Except Fault α} {a : α} : look f s = .ok a s' ↔ f s = .ok a ∧ s' = s := by
  unfold look
  cases f s with
  | ok b => simp [eq_comm]
  | error e' => simp

theorem look_eq_error_iff {f : σ → Except Fault α} : look f s = .error e s' ↔ f s = .error e ∧ s' = s := by
  unfold look
  cases f s with
  | ok b => simp
  | error e' => simp [eq_comm]

theorem onCopy_eq_error_iff {act : Procedure σ α} :
    onCopy act s = .error e s' ↔ (∃ copy, act s = .error e copy) ∧ s' = s := by
  unfold onCopy
  cases act s with
  | ok a t => simp
  | error e' t => simp [eq_comm]

theorem onPart_eq_error_iff {part : σ → τ} {replace : τ → σ → σ} {act : Procedure τ α} :
    onPart part replace act s = .error e s' ↔ ∃ t, act (part s) = .error e t ∧ s' = replace t s := by
  unfold onPart
  cases act (part s) with
  | ok a t => simp
  | error e' t => simp [eq_comm]

/-! ## Sure procedures -/

/-- The procedure never faults. -/
def Sure (act : Procedure σ α) : Prop :=
  ∀ s e s', act s ≠ .error e s'

theorem Sure.of_outcome {act : Procedure σ α} (h : ∀ s, ∃ r, outcome act s = .ok r) : Sure act := by
  intro s e s' he
  obtain ⟨r, hr⟩ := h s
  unfold outcome at hr
  rw [he] at hr
  cases hr

theorem sure_pure (a : α) : Sure (pure a : Procedure σ α) :=
  .of_outcome fun s => ⟨_, outcome_pure a s⟩

theorem sure_modify (f : σ → σ) : Sure (modify f : Procedure σ Unit) :=
  .of_outcome fun s => ⟨_, outcome_modify f s⟩

theorem sure_each (write : α → σ → σ) (xs : List α) : Sure (each write xs) :=
  .of_outcome fun s => ⟨_, outcome_each write xs s⟩

theorem Sure.bind {act : Procedure σ α} {next : α → Procedure σ β} (h : Sure act) (hnext : ∀ a, Sure (next a)) :
    Sure (act >>= next) := by
  intro s e s' he
  rcases bind_eq_error_iff.1 he with hact | ⟨a, t, _, hlast⟩
  · exact h s e s' hact
  · exact hnext a t e s' hlast

/-! ## Atomic procedures -/

/-- If the procedure faults at this state, it leaves the state as it was. -/
def AtomicAt (s : σ) (act : Procedure σ α) : Prop :=
  ∀ e s', act s = .error e s' → s' = s

/-- **The outcome says all of a procedure that is atomic.** -/
theorem AtomicAt.eq_error_iff {act : Procedure σ α} (h : AtomicAt s act) :
    act s = .error e s' ↔ outcome act s = .error e ∧ s' = s := by
  constructor
  · intro he
    refine ⟨?_, h e s' he⟩
    rw [outcome, he]
  · rintro ⟨he, rfl⟩
    unfold outcome at he
    cases hact : act s' with
    | ok a t =>
      rw [hact] at he
      cases he
    | error e' t =>
      rw [hact] at he
      rw [Except.error.inj he, h e' t hact]

theorem Sure.atomicAt {act : Procedure σ α} (h : Sure act) (s : σ) : AtomicAt s act :=
  fun e s' he => absurd he (h s e s')

/-- Work on a copy is atomic, whatever is done there. -/
theorem atomicAt_onCopy (act : Procedure σ α) (s : σ) : AtomicAt s (onCopy act) :=
  fun _ _ he => (onCopy_eq_error_iff.1 he).2

/-- What is atomic on a part is atomic on the whole, if putting the part back as it is changes nothing. -/
theorem AtomicAt.onPart {part : σ → τ} {replace : τ → σ → σ} {act : Procedure τ α} (h : AtomicAt (part s) act)
    (hreplace : replace (part s) s = s) : AtomicAt s (onPart part replace act) := by
  intro e s' he
  obtain ⟨t, hact, rfl⟩ := onPart_eq_error_iff.1 he
  rw [h e t hact, hreplace]

/-- Looking leaves the state as it is, so what follows may still be atomic. -/
theorem AtomicAt.look_bind {f : σ → Except Fault α} {next : α → Procedure σ β}
    (h : ∀ a, f s = .ok a → AtomicAt s (next a)) : AtomicAt s (look f >>= next) := by
  intro e s' he
  rcases bind_eq_error_iff.1 he with hlook | ⟨a, t, hlook, hlast⟩
  · exact (look_eq_error_iff.1 hlook).2
  · obtain ⟨ha, rfl⟩ := look_eq_ok_iff.1 hlook
    exact h a ha e s' hlast

theorem AtomicAt.bind_sure {act : Procedure σ α} {next : α → Procedure σ β} (h : AtomicAt s act)
    (hnext : ∀ a, Sure (next a)) : AtomicAt s (act >>= next) := by
  intro e s' he
  rcases bind_eq_error_iff.1 he with hact | ⟨a, t, _, hlast⟩
  · exact h e s' hact
  · exact absurd hlast (hnext a t e s')

end Procedure

end Capability
