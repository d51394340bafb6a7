import Capability.Fault
import Mathlib.Data.List.Forall2

/-!
# Results of steps that may fail

A sequence of steps succeeds exactly when each step does (`bind_ok_iff`), and answers the fault of the first one that
does not (`bind_error_iff`). A step that is taken for every item of a list succeeds exactly when it succeeds at each
item (`mapM_ok_iff`), and answers the fault of the first item where it does not (`mapM_error_iff`). What is made of a
result does not touch the fault (`map_error_iff`), and putting a report in front of a fault does not touch success
(`mapError_ok_iff`).
-/

namespace Capability.Fault

variable {α β : Type}

theorem bind_ok_iff {x : Except Fault α} {f : α → Except Fault β} {b : β} :
    x >>= f = .ok b ↔ ∃ a, x = .ok a ∧ f a = .ok b := by
  cases x with
  | error e =>
    refine ⟨fun h => ?_, fun ⟨_, h, _⟩ => ?_⟩
    · cases h
    · cases h
  | ok a =>
    refine ⟨fun h => ⟨a, rfl, h⟩, fun ⟨a', ha, h⟩ => ?_⟩
    obtain rfl := Except.ok.inj ha
    exact h

theorem bind_error_iff {x : Except Fault α} {f : α → Except Fault β} {e : Fault} :
    x >>= f = .error e ↔ x = .error e ∨ ∃ a, x = .ok a ∧ f a = .error e := by
  cases x with
  | error e' =>
    constructor
    · intro h
      exact .inl (congrArg _ (Except.error.inj h))
    · rintro (h | ⟨a, h, _⟩)
      · exact congrArg _ (Except.error.inj h)
      · cases h
  | ok a =>
    constructor
    · exact fun h => .inr ⟨a, rfl, h⟩
    · rintro (h | ⟨a', h, he⟩)
      · cases h
      · obtain rfl := Except.ok.inj h
        exact he

theorem map_ok_iff {g : α → β} {x : Except Fault α} {b : β} : x.map g = .ok b ↔ ∃ a, x = .ok a ∧ g a = b := by
  cases x with
  | error e =>
    refine ⟨fun h => ?_, fun ⟨_, h, _⟩ => ?_⟩
    · cases h
    · cases h
  | ok a =>
    refine ⟨fun h => ⟨a, rfl, Except.ok.inj h⟩, fun ⟨a', ha, h⟩ => ?_⟩
    obtain rfl := Except.ok.inj ha
    exact congrArg _ h

theorem map_error_iff {g : α → β} {x : Except Fault α} {e : Fault} : x.map g = .error e ↔ x = .error e := by
  cases x with
  | error e' => exact ⟨fun h => congrArg _ (Except.error.inj h), fun h => congrArg _ (Except.error.inj h)⟩
  | ok a =>
    refine ⟨fun h => ?_, fun h => ?_⟩
    · cases h
    · cases h

theorem mapError_error_iff {wrap : Fault → Fault} {x : Except Fault α} {e : Fault} :
    x.mapError wrap = .error e ↔ ∃ cause, x = .error cause ∧ e = wrap cause := by
  cases x with
  | error cause =>
    constructor
    · exact fun h => ⟨cause, rfl, (Except.error.inj h).symm⟩
    · rintro ⟨cause', h, rfl⟩
      rw [Except.error.inj h]
      rfl
  | ok a =>
    refine ⟨fun h => ?_, fun ⟨_, h, _⟩ => ?_⟩
    · cases h
    · cases h

theorem isOk_iff {x : Except Fault α} : x.isOk = true ↔ ∃ a, x = .ok a := by
  cases x with
  | error e => exact ⟨fun h => (by cases h), fun ⟨_, h⟩ => (by cases h)⟩
  | ok a => exact ⟨fun _ => ⟨a, rfl⟩, fun _ => rfl⟩

theorem isOk_eq_false_iff {x : Except Fault α} : x.isOk = false ↔ ∃ e, x = .error e := by
  cases x with
  | error e => exact ⟨fun _ => ⟨e, rfl⟩, fun _ => rfl⟩
  | ok a => exact ⟨fun h => (by cases h), fun ⟨_, h⟩ => (by cases h)⟩

theorem mapError_ok_iff {wrap : Fault → Fault} {x : Except Fault α} {a : α} :
    x.mapError wrap = .ok a ↔ x = .ok a := by
  cases x with
  | error e =>
    refine ⟨fun h => ?_, fun h => ?_⟩
    · cases h
    · cases h
  | ok b => exact Iff.rfl

theorem mapM_ok_iff {f : α → Except Fault β} {xs : List α} {ys : List β} :
    xs.mapM f = .ok ys ↔ List.Forall₂ (fun x y => f x = .ok y) xs ys := by
  induction xs generalizing ys with
  | nil =>
    rw [List.mapM_nil, List.forall₂_nil_left_iff]
    exact ⟨fun h => (Except.ok.inj h).symm, fun h => h ▸ rfl⟩
  | cons x xs ih =>
    rw [List.mapM_cons, bind_ok_iff, List.forall₂_cons_left_iff]
    refine exists_congr fun y => ?_
    rw [bind_ok_iff]
    constructor
    · rintro ⟨hy, zs, hzs, h⟩
      exact ⟨zs, hy, ih.1 hzs, (Except.ok.inj h).symm⟩
    · rintro ⟨zs, hy, hzs, rfl⟩
      exact ⟨hy, zs, ih.2 hzs, rfl⟩

/-- In lists that are related item by item, each item on the right has one on the left. -/
theorem exists_left_of_mem {R : α → β → Prop} {xs : List α} {ys : List β} (h : List.Forall₂ R xs ys) {y : β}
    (hy : y ∈ ys) : ∃ x ∈ xs, R x y := by
  induction h with
  | nil => cases hy
  | cons hx _ ih =>
    rcases List.mem_cons.1 hy with rfl | hy
    · exact ⟨_, List.mem_cons_self, hx⟩
    · obtain ⟨x, hmem, hx⟩ := ih hy
      exact ⟨x, List.mem_cons_of_mem _ hmem, hx⟩

/-- Each result comes from some item. -/
theorem exists_of_mem_mapM {f : α → Except Fault β} {xs : List α} {ys : List β} (h : xs.mapM f = .ok ys) {y : β}
    (hy : y ∈ ys) : ∃ x ∈ xs, f x = .ok y :=
  exists_left_of_mem (mapM_ok_iff.1 h) hy

/-- The fault of a list is that of the first item that has one. -/
theorem mapM_error_iff {f : α → Except Fault β} {xs : List α} {e : Fault} :
    xs.mapM f = .error e ↔
      ∃ before x after, xs = before ++ x :: after ∧ (∀ y ∈ before, ∃ z, f y = .ok z) ∧ f x = .error e := by
  induction xs with
  | nil =>
    refine ⟨fun h => ?_, fun ⟨before, x, after, hsplit, _⟩ => ?_⟩
    · cases h
    · cases before <;> cases hsplit
  | cons x xs ih =>
    rw [List.mapM_cons, bind_error_iff]
    constructor
    · rintro (h | ⟨z, hz, h⟩)
      · exact ⟨[], x, xs, rfl, fun _ hy => absurd hy List.not_mem_nil, h⟩
      · rcases bind_error_iff.1 h with h | ⟨_, _, h⟩
        · obtain ⟨before, y, after, rfl, hbefore, hy⟩ := ih.1 h
          exact ⟨x :: before, y, after, rfl, List.forall_mem_cons.2 ⟨⟨z, hz⟩, hbefore⟩, hy⟩
        · cases h
    · rintro ⟨before, y, after, hsplit, hbefore, hy⟩
      cases before with
      | nil =>
        obtain ⟨rfl, rfl⟩ := List.cons_eq_cons.1 hsplit
        exact .inl hy
      | cons first before =>
        obtain ⟨rfl, rfl⟩ := List.cons_eq_cons.1 hsplit
        obtain ⟨⟨z, hz⟩, hbefore⟩ := List.forall_mem_cons.1 hbefore
        exact .inr ⟨z, hz, bind_error_iff.2 (.inl (ih.2 ⟨before, y, after, rfl, hbefore, hy⟩))⟩

/-- The fault of a list is that of some item. -/
theorem mapM_error {f : α → Except Fault β} {xs : List α} {e : Fault} (h : xs.mapM f = .error e) :
    ∃ x ∈ xs, f x = .error e := by
  obtain ⟨before, x, after, rfl, _, hx⟩ := mapM_error_iff.1 h
  exact ⟨x, List.mem_append_right before List.mem_cons_self, hx⟩

/-- A step finds a whole list again in what was made of it, if it finds each value again. -/
theorem mapM_map_ok_iff {f : α → Except Fault β} {g : β → α} {ys : List β} :
    (ys.map g).mapM f = .ok ys ↔ ∀ y ∈ ys, f (g y) = .ok y := by
  rw [mapM_ok_iff, List.forall₂_map_left_iff, List.forall₂_same]

end Capability.Fault
