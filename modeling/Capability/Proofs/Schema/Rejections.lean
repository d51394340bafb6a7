import Capability.Proofs.Schema.Reading
import Capability.Proofs.Schema.Refusals

/-!
# Why a definition is refused

A definition that is refused says why in a chain of reports, from the outermost definition down to what is wrong. All
reports are about definitions and commands, and their codes are among ten (`Definition.rejections`): those of values,
because allowed values and defaults are values, and those of definitions proper.

* `Property.rejects_of_ofJson`: so it is for the definition of a property, at any depth.
* `ObjectType.rejects_of_ofFields`: the outermost report on the definition of an object names a member.
-/

namespace Capability

open Property Definition

/-- The codes of the reports by which a definition may be refused. -/
def Definition.rejections : List Fault.Code :=
  [.unknownType, .noTypeInfo, .typeMismatch, .typeChanged, .invalidValue, .invalidDefinition, .unexpectedAttribute,
    .outOfRange, .unknownProperty, .propertyMissing]

/-- The fault may be that of a definition. -/
def Fault.Rejects (f : Fault) : Prop :=
  f.Reports (· ∈ Definition.rejections)

variable {f : Fault} {json : Json}

namespace Fault

variable {α β : Type}

theorem rejects_of_error {code : Code} {message : String} (hcode : code ∈ Definition.rejections)
    (h : (.error (.ofCommands code message) : Except Fault α) = .error f) : f.Rejects :=
  Except.error.inj h ▸ reports_ofCommands hcode

/-- What is done after a step in which a definition may fail, without failing itself. -/
theorem rejects_of_map {x : Except Fault α} {g : α → β} (hx : ∀ f, x = .error f → f.Rejects)
    (h : (x >>= fun a => pure (g a)) = .error f) : f.Rejects := by
  rcases bind_error_iff.1 h with h | ⟨_, _, h⟩
  · exact hx f h
  · cases h

end Fault

/-- A value is refused for a reason that a definition may have as well. -/
theorem Property.rejects_of_convert {p : Property} (h : p.convert json = .error f) : f.Rejects := by
  refine (reports_of_convert h).mono fun code hcode => ?_
  rcases hcode with hcode | ⟨rfl, _⟩
  · revert code
    decide
  · decide

/-! ## Types and limits -/

theorem TypeName.rejects_of_ofText {text : String} (h : TypeName.ofText text = .error f) : f.Rejects := by
  unfold TypeName.ofText at h
  split at h
  · cases h
  · exact Fault.rejects_of_error (by decide) h

theorem Definition.rejects_of_typeOf {base : Option Property} {fields : Fields Json}
    (h : Definition.typeOf base fields = .error f) : f.Rejects := by
  unfold Definition.typeOf at h
  split at h
  · exact TypeName.rejects_of_ofText h
  · exact Fault.rejects_of_error (by decide) h
  · split at h
    · cases h
    · exact Fault.rejects_of_error (by decide) h

namespace Bounds

variable {α : Type} [Numeral α]

theorem rejects_of_readLimit {key : String} (h : readLimit (α := α) key json = .error f) : f.Rejects := by
  unfold readLimit at h
  split at h
  · cases h
  · exact Fault.rejects_of_error (by decide) h

theorem rejects_of_checkLimits [LT α] [DecidableLT α] {b : Bounds α} (h : b.checkLimits = .error f) : f.Rejects := by
  unfold checkLimits at h
  split at h
  · cases h
  · exact Fault.rejects_of_error (by decide) h

end Bounds

namespace Length

theorem rejects_of_ofJson {key : String} (h : Length.ofJson key json = .error f) : f.Rejects := by
  unfold Length.ofJson at h
  split at h
  · exact Fault.rejects_of_error (by decide) h
  · split at h
    · cases h
    · exact Fault.rejects_of_error (by decide) h

theorem rejects_of_checkLimits {b : Bounds Length} (h : Length.checkLimits b = .error f) : f.Rejects := by
  unfold Length.checkLimits at h
  split at h
  · cases h
  · exact Fault.rejects_of_error (by decide) h

end Length

/-! ## Attributes -/

namespace Draft

variable {base : Option Property} {d : Draft}

theorem rejects_of_start {name : TypeName} (h : Draft.start name base = .error f) : f.Rejects := by
  cases base with
  | none => cases h
  | some base =>
    refine Fault.rejects_of_map (fun f h => ?_) h
    unfold Property.over at h
    split at h
    · exact Fault.rejects_of_error (by decide) h
    · split at h
      · split at h
        · exact Fault.rejects_of_error (by decide) h
        · cases h
      · cases h
      · cases h

theorem rejects_of_readAttribute {key : String} (h : d.readAttribute key json = .error f) : f.Rejects := by
  unfold readAttribute at h
  split at h
  · cases h
  · cases h
  · cases h
  · split at h
    · cases h
    · exact Fault.rejects_of_error (by decide) h
  · split at h
    · cases h
    · exact Fault.rejects_of_error (by decide) h
  · split at h
    · exact Fault.rejects_of_map (fun _ => Bounds.rejects_of_readLimit) h
    · exact Fault.rejects_of_map (fun _ => Bounds.rejects_of_readLimit) h
    · exact Fault.rejects_of_map (fun _ => Bounds.rejects_of_readLimit) h
    · exact Fault.rejects_of_map (fun _ => Bounds.rejects_of_readLimit) h
    · exact Fault.rejects_of_map (fun _ => Length.rejects_of_ofJson) h
    · exact Fault.rejects_of_map (fun _ => Length.rejects_of_ofJson) h
    · split at h
      · cases h
      · exact Fault.rejects_of_error (by decide) h
    · exact Fault.rejects_of_error (by decide) h
    · exact Fault.rejects_of_error (by decide) h

/-- An attribute is refused for a definition in it, or by itself. -/
theorem readOne_error_cases {key : String} (h : d.readOne base key json = .error f) :
    Property.ofJson (base.bind items?) json = .error f ∨
      (∃ fields, json = .object fields ∧ ObjectType.ofMembers (base.bind object?) fields = .error f) ∨ f.Rejects := by
  unfold readOne at h
  split at h
  · rcases Fault.bind_error_iff.1 h with h | ⟨_, _, h⟩
    · exact .inl h
    · cases h
  · rename_i fields _
    rcases Fault.bind_error_iff.1 h with h | ⟨_, _, h⟩
    · rcases Fault.bind_error_iff.1 h with h | ⟨_, _, h⟩
      · exact .inr (.inl ⟨fields, rfl, h⟩)
      · cases h
    · cases h
  · exact .inr (.inr (rejects_of_readAttribute h))

end Draft

/-! ## The end -/

namespace Property

variable {p : Property} {given : Option Json}

theorem rejects_of_checkShape (h : p.checkShape = .error f) : f.Rejects := by
  unfold checkShape at h
  split at h
  · exact Bounds.rejects_of_checkLimits h
  · exact Bounds.rejects_of_checkLimits h
  · exact Length.rejects_of_checkLimits h
  · exact Fault.rejects_of_error (by decide) h
  · cases h
  · cases h
  · cases h

theorem rejects_of_readAllowed (h : p.readAllowed given = .error f) : f.Rejects := by
  unfold readAllowed at h
  split at h
  · cases h
  · exact Fault.rejects_of_error (by decide) h
  · refine Fault.rejects_of_map (fun f h => ?_) h
    obtain ⟨cause, hcause, rfl⟩ := Fault.mapError_error_iff.1 h
    obtain ⟨_, _, hvalue⟩ := Fault.mapM_error hcause
    exact (rejects_of_convert hvalue).inCommands (by decide) _
  · exact Fault.rejects_of_error (by decide) h

theorem rejects_of_readDefault (h : p.readDefault given = .error f) : f.Rejects := by
  unfold readDefault at h
  split at h
  · cases h
  · refine Fault.rejects_of_map (fun f h => ?_) h
    obtain ⟨cause, hcause, rfl⟩ := Fault.mapError_error_iff.1 h
    exact (rejects_of_convert hcause).inCommands (by decide) _

end Property

theorem Draft.rejects_of_finish {d : Draft} (h : d.finish = .error f) : f.Rejects := by
  rcases Fault.bind_error_iff.1 h with h | ⟨_, _, h⟩
  · exact rejects_of_checkShape h
  · rcases Fault.bind_error_iff.1 h with h | ⟨_, _, h⟩
    · exact rejects_of_readAllowed h
    · exact rejects_of_readDefault h

/-! ## Whole definitions -/

mutual
/-- **A definition is refused by reports about definitions and commands with one of ten codes**, at any depth. -/
theorem Property.rejects_of_ofJson : ∀ (json : Json) {base : Option Property} {f : Fault},
    Property.ofJson base json = .error f → f.Rejects
  | .string text, base, f, h => by
    rw [Property.ofJson] at h
    rcases Fault.bind_error_iff.1 h with h | ⟨_, _, h⟩
    · exact TypeName.rejects_of_ofText h
    · rcases Fault.bind_error_iff.1 h with h | ⟨_, _, h⟩
      · exact Draft.rejects_of_start h
      · exact Draft.rejects_of_finish h
  | .array values, base, f, h => by
    rw [Property.ofJson] at h
    split at h
    · rcases Fault.bind_error_iff.1 h with h | ⟨_, _, h⟩
      · exact Draft.rejects_of_start h
      · exact Draft.rejects_of_finish h
    · exact Fault.rejects_of_error (by decide) h
  | .object fields, base, f, h => by
    rw [Property.ofJson] at h
    rcases Fault.bind_error_iff.1 h with h | ⟨_, _, h⟩
    · exact Definition.rejects_of_typeOf h
    · rcases Fault.bind_error_iff.1 h with h | ⟨_, _, h⟩
      · exact Draft.rejects_of_start h
      · rcases Fault.bind_error_iff.1 h with h | ⟨_, _, h⟩
        · exact Draft.rejects_of_readAll fields h
        · exact Draft.rejects_of_finish h
  | .null, _, _, h => Fault.rejects_of_error (by decide) h
  | .bool _, _, _, h => Fault.rejects_of_error (by decide) h
  | .number _, _, _, h => Fault.rejects_of_error (by decide) h

theorem Draft.rejects_of_readAll : ∀ (fields : List (String × Json)) {base : Option Property} {d : Draft} {f : Fault},
    Draft.readAll base d fields = .error f → f.Rejects
  | [], _, _, _, h => by
    rw [Draft.readAll] at h
    cases h
  | (key, json) :: rest, base, d, f, h => by
    rw [Draft.readAll_cons] at h
    rcases Fault.bind_error_iff.1 h with h | ⟨_, _, h⟩
    · rcases Draft.readOne_error_cases h with hitems | ⟨fields, rfl, hmembers⟩ | hf
      · exact Property.rejects_of_ofJson json hitems
      · obtain ⟨_, _, hf, _⟩ := ObjectType.rejects_of_ofMembers fields hmembers
        exact hf
      · exact hf
    · exact Draft.rejects_of_readAll rest h

/-- The first member that is refused is named by the outermost report. -/
theorem ObjectType.rejects_of_ofMembers : ∀ (fields : List (String × Json)) {base : Option ObjectType} {f : Fault},
    ObjectType.ofMembers base fields = .error f → ∃ name cause, f.Rejects ∧ f = invalidMember name cause
  | [], _, _, h => by
    rw [ObjectType.ofMembers] at h
    cases h
  | (name, json) :: rest, base, f, h => by
    rw [ObjectType.ofMembers] at h
    rcases Fault.bind_error_iff.1 h with h | ⟨_, _, h⟩
    · obtain ⟨cause, hcause, rfl⟩ := Fault.mapError_error_iff.1 h
      exact ⟨name, cause, (Property.rejects_of_ofJson json hcause).inCommands (by decide) _, rfl⟩
    · rcases Fault.bind_error_iff.1 h with h | ⟨_, _, h⟩
      · exact ObjectType.rejects_of_ofMembers rest h
      · cases h
end

/-- **The outermost report on the definition of an object names a member.** -/
theorem ObjectType.rejects_of_ofFields {base : Option ObjectType} {fields : Fields Json}
    (h : ObjectType.ofFields base fields = .error f) : f.Rejects ∧ f.report.code = .invalidDefinition := by
  rcases Fault.bind_error_iff.1 h with h | ⟨_, _, h⟩
  · obtain ⟨name, cause, hf, rfl⟩ := ObjectType.rejects_of_ofMembers fields h
    exact ⟨hf, rfl⟩
  · cases h

end Capability
