import Capability.Proofs.Schema.Conversion

/-!
# Why a value is refused

A type that refuses a JSON value says why in a chain of reports, from the value as a whole down to the part that is
wrong. All reports are about definitions and commands, and they have one of five codes: the value has the wrong kind,
lies outside the limits, is not allowed (or has a member that is refused), lacks a member, or has an unknown one.

The only other code says that an array has no type for its items, and it occurs only if some part of the type is such
an array (`Property.reports_of_convert`).
-/

namespace Capability

open Conversion

/-! ## Reports -/

/-- All reports of the fault are about definitions and commands, and their codes are like this. -/
def Fault.Reports (codes : Fault.Code → Prop) (f : Fault) : Prop :=
  ∀ r ∈ f.chain, r.area = .commands ∧ codes r.code

namespace Fault

variable {codes codes' : Fault.Code → Prop} {f : Fault} {code : Fault.Code}

theorem reports_ofCommands {message : String} (h : codes code) : (ofCommands code message).Reports codes := by
  intro r hr
  obtain rfl := List.mem_singleton.1 hr
  exact ⟨rfl, h⟩

theorem Reports.inCommands (hf : f.Reports codes) (h : codes code) (message : String) :
    (f.inCommands code message).Reports codes := by
  intro r hr
  rcases List.mem_cons.1 hr with rfl | hr
  · exact ⟨rfl, h⟩
  · exact hf r hr

theorem Reports.mono (hf : f.Reports codes) (h : ∀ code, codes code → codes' code) : f.Reports codes' :=
  fun r hr => ⟨(hf r hr).1, h _ (hf r hr).2⟩

theorem Reports.hasCode_eq_false (hf : f.Reports codes) (h : ¬codes code) : f.hasCode code = false := by
  rw [hasCode, List.any_eq_false]
  intro r hr he
  rw [beq_iff_eq] at he
  exact h (he ▸ (hf r hr).2)

end Fault

/-! ## Limits -/

theorem Bounds.check_error {α : Type} [LT α] [DecidableLT α] [Numeral α] {b : Bounds α} {x : α} {f : Fault}
    (h : b.check x = .error f) : ∃ message, f = .ofCommands .outOfRange message := by
  unfold check at h
  split at h
  · cases h
  · exact ⟨_, (Except.error.inj h).symm⟩
  · exact ⟨_, (Except.error.inj h).symm⟩

theorem Length.check_error {b : Bounds Length} {s : String} {f : Fault} (h : Length.check b s = .error f) :
    ∃ message, f = .ofCommands .outOfRange message := by
  unfold check at h
  split at h
  · cases h
  · exact ⟨_, (Except.error.inj h).symm⟩
  · exact ⟨_, (Except.error.inj h).symm⟩

/-! ## Types -/

namespace Property

/-- The codes of the reports by which a type may refuse values. -/
def Refusal (p : Property) (code : Fault.Code) : Prop :=
  code ∈ Fault.Code.outOfRange :: ObjectType.refusals ∨
    code = .noTypeInfo ∧ ∃ q, Part q p ∧ q.shape = .array none

section Refusals

variable {p q : Property} {json : Json} {f : Fault}

theorem Refusal.of_part {code : Fault.Code} (h : q.Refusal code) (hq : Part q p) : p.Refusal code :=
  h.imp_right fun ⟨he, r, hr, hs⟩ => ⟨he, r, hr.trans hq, hs⟩

theorem refusal_of_mem {code : Fault.Code} (h : code ∈ Fault.Code.outOfRange :: ObjectType.refusals) :
    p.Refusal code :=
  .inl h

theorem reports_of_checkAllowed {allowed : Option (Attribute (List Value))} {v : Value}
    (h : checkAllowed allowed json v = .error f) : f.Reports p.Refusal := by
  unfold checkAllowed at h
  split at h
  · cases h
  · split at h
    · cases h
    · obtain rfl := Except.error.inj h
      exact Fault.reports_ofCommands (refusal_of_mem (by decide))

/-- What a shape refuses is refused for a reason of the type, if this is so for the types inside. -/
theorem reports_of_shape (hchild : ∀ q, Child q p → ∀ json f, q.convert json = .error f → f.Reports q.Refusal)
    (h : p.shape.convert json = .error f) : f.Reports p.Refusal := by
  have hlimit {check : Except Fault Unit} {v : Value} {f : Fault}
      (hcheck : ∀ f, check = .error f → ∃ message, f = .ofCommands .outOfRange message)
      (h : (check >>= fun _ => pure v) = .error f) : f.Reports p.Refusal := by
    rcases Fault.bind_error_iff.1 h with h | ⟨_, _, h⟩
    · obtain ⟨_, rfl⟩ := hcheck f h
      exact Fault.reports_ofCommands (refusal_of_mem List.mem_cons_self)
    · cases h
  have hmismatch (json : Json) (name : TypeName) : (mismatch json name).Reports p.Refusal :=
    Fault.reports_ofCommands (refusal_of_mem (by decide))
  generalize hs : p.shape = s at h
  cases s with
  | integer range =>
    simp only [Shape.convert] at h
    split at h
    · exact hlimit (fun _ => Bounds.check_error) h
    · obtain rfl := Except.error.inj h
      exact hmismatch json _
  | number range =>
    simp only [Shape.convert] at h
    split at h
    · exact hlimit (fun _ => Bounds.check_error) h
    · obtain rfl := Except.error.inj h
      exact hmismatch json _
  | boolean =>
    simp only [Shape.convert] at h
    split at h
    · cases h
    · obtain rfl := Except.error.inj h
      exact hmismatch json _
  | string lengths =>
    simp only [Shape.convert] at h
    split at h
    · exact hlimit (fun _ => Length.check_error) h
    · obtain rfl := Except.error.inj h
      exact hmismatch json _
  | object type =>
    have ho : p.object? = some type.value := object?_eq_some_iff.2 ⟨type.inherited, hs⟩
    rcases Fault.bind_error_iff.1 h with h | ⟨_, _, h⟩
    · cases ObjectType.refuses_of_convert h with
      | member hp hcause =>
        have hq : Child _ p := .member ho hp
        exact ((hchild _ hq _ _ hcause).mono fun _ hcode => hcode.of_part hq.part).inCommands
          (refusal_of_mem (by decide)) _
      | here hcode => exact Fault.reports_ofCommands (refusal_of_mem (List.mem_cons_of_mem _ hcode))
    · cases h
  | array items =>
    cases items with
    | none =>
      cases json with
      | array list =>
        obtain rfl := Except.error.inj h
        exact Fault.reports_ofCommands (.inr ⟨rfl, p, .refl p, hs⟩)
      | _ =>
        obtain rfl := Except.error.inj h
        exact hmismatch _ _
    | some items =>
      have hq : Child items.value p := .items (items?_eq_some_iff.2 ⟨items.inherited, hs⟩)
      cases json with
      | array list =>
        rcases Fault.bind_error_iff.1 h with h | ⟨_, _, h⟩
        · obtain ⟨item, _, hitem⟩ := Fault.mapM_error h
          exact (hchild _ hq item f hitem).mono fun _ hcode => hcode.of_part hq.part
        · cases h
      | _ =>
        obtain rfl := Except.error.inj h
        exact hmismatch _ _

/-- **A type refuses values by reports about definitions and commands with one of five codes**, and for a missing type
of items only if it has an array without one inside. -/
theorem reports_of_convert (h : p.convert json = .error f) : f.Reports p.Refusal := by
  induction p using byChildren generalizing json f with
  | step p ih =>
    rw [convert_eq] at h
    rcases Fault.bind_error_iff.1 h with h | ⟨_, _, h⟩
    · exact reports_of_shape (fun q hq _ _ hf => ih q hq hf) h
    · exact reports_of_checkAllowed h

end Refusals

end Property

end Capability
