import Capability.Proofs.Fault
import Capability.Proofs.Text
import Capability.Schema.TypeName

/-!
# Type names and their texts

A text is read up to its first dot. What stands before it is the name of a kind, and what follows is read in the same
way as the name of the type of the items (`TypeName.ofText_eq`). So the texts that name a type are `array.` any number
of times, the name of a kind, and possibly one more dot (`TypeName.grammar_spec`).

* `TypeName.ofText_text`: the text of a type name is read as this type name.
* `TypeName.ofText_ok_iff`: a text is read as a type name exactly if it is the text of that name, with or without a dot
  after it.
* `TypeName.ofText_arrays_of_error`: a text that is refused is refused behind `array.` as well, and the fault quotes the
  longer text.
-/

namespace Capability.TypeName

/-! ## Reading up to the first dot -/

theorem parts_eq_empty_iff {s : String} : Text.parts '.' s = [""] ↔ s = "" := by
  rw [Text.parts_eq_iff]
  constructor
  · rintro ⟨_, _, rfl⟩
    rfl
  · rintro rfl
    exact ⟨by simp, by simp, rfl⟩

theorem ofText?_of_not_mem {s : String} (h : '.' ∉ s.toList) : ofText? s = (Kind.ofText? s).map .plain := by
  rw [ofText?, Text.parts_of_not_mem h, ofParts?]

theorem ofText?_append {before : String} (h : '.' ∉ before.toList) (after : String) :
    ofText? (before ++ "." ++ after) = (Kind.ofText? before).bind fun kind =>
      if after = "" then some (.plain kind)
      else if kind = .array then (ofText? after).map .arrayOf
      else none := by
  have hparts : Text.parts '.' (before ++ "." ++ after) = before :: Text.parts '.' after := Text.parts_append h after
  rw [ofText?, hparts, ofParts?.eq_3 _ _ (Text.parts_ne_nil '.' after)]
  simp only [parts_eq_empty_iff]
  cases Kind.ofText? before with
  | none => rfl
  | some kind =>
    show (if after = "" then some (plain kind) else if kind = .array then
      (ofText? after).bind fun items => some (arrayOf items) else none) = _
    rw [Option.map_eq_bind]
    rfl

/-- **A text is read up to its first dot. What follows is read in the same way, and where it is refused the fault
quotes the whole text.** -/
theorem ofText_eq (s : String) : ofText s =
    (match Text.first? '.' s with
    | none => ((Kind.ofText s).mapError fun _ => unknown s).map .plain
    | some (before, after) => do
      let kind ← (Kind.ofText before).mapError fun _ => unknown s
      if after = "" then .ok (.plain kind)
      else if kind = .array then ((ofText after).mapError fun _ => unknown s).map .arrayOf
      else .error (unknown s)) := by
  cases hfirst : Text.first? '.' s with
  | none =>
    rw [ofText, ofText?_of_not_mem (Text.first?_eq_none_iff.1 hfirst)]
    show _ = ((Kind.ofText s).mapError fun _ => unknown s).map TypeName.plain
    rw [Kind.ofText]
    cases Kind.ofText? s <;> rfl
  | some p =>
    obtain ⟨before, after⟩ := p
    obtain ⟨hdot, rfl⟩ := Text.first?_eq_some_iff.1 hfirst
    have hread : ofText? (before ++ String.ofList ['.'] ++ after) = _ := ofText?_append hdot after
    rw [ofText, hread]
    show _ = (((Kind.ofText before).mapError fun _ => unknown _) >>= fun kind =>
      if after = "" then Except.ok (plain kind)
      else if kind = .array then ((ofText after).mapError fun _ => unknown _).map arrayOf
      else Except.error (unknown _))
    rw [Kind.ofText, ofText]
    cases Kind.ofText? before with
    | none => rfl
    | some kind =>
      by_cases hafter : after = ""
      · simp [hafter, Except.mapError, bind, Except.bind]
      · by_cases hkind : kind = .array
        · cases ofText? after <;> simp [hafter, hkind, Except.mapError, Except.map, bind, Except.bind]
        · simp [hafter, hkind, Except.mapError, bind, Except.bind]

theorem ofText_array {s : String} (h : s ≠ "") :
    ofText ("array." ++ s) = ((ofText s).mapError fun _ => unknown ("array." ++ s)).map .arrayOf := by
  have hfirst : Text.first? '.' ("array." ++ s) = some ("array", s) :=
    Text.first?_eq_some_iff.2 ⟨by decide, rfl⟩
  rw [ofText_eq ("array." ++ s), hfirst]
  show (if s = "" then Except.ok (plain .array)
    else if Kind.array = .array then ((ofText s).mapError fun _ => unknown ("array." ++ s)).map arrayOf
    else Except.error (unknown ("array." ++ s))) = _
  rw [if_neg h, if_pos rfl]

/-- What an accepted text begins with: the name of a kind, which may be followed by a dot, or `array.` and the text of
a type name. -/
theorem ofText_cases {s : String} {name : TypeName} (h : ofText s = .ok name) :
    (∃ kind, ∃ dot ∈ ["", "."], name = .plain kind ∧ s = kind.text ++ dot) ∨
      ∃ after items, name = .arrayOf items ∧ s = "array." ++ after ∧ ofText after = .ok items := by
  have hkind {t : String} {kind : Kind} (hk : (Kind.ofText t).mapError (fun _ => unknown s) = .ok kind) :
      t = kind.text := by
    have hk := Fault.mapError_ok_iff.1 hk
    unfold Kind.ofText at hk
    split at hk
    · rename_i k hof
      obtain rfl := Except.ok.inj hk
      exact Kind.ofText?_eq_some_iff.1 hof
    · cases hk
  rw [ofText_eq] at h
  cases hfirst : Text.first? '.' s with
  | none =>
    rw [hfirst] at h
    obtain ⟨kind, hk, rfl⟩ := Fault.map_ok_iff.1 h
    exact .inl ⟨kind, "", by simp, rfl, by simp [hkind hk]⟩
  | some p =>
    obtain ⟨before, after⟩ := p
    rw [hfirst] at h
    obtain ⟨kind, hk, hrest⟩ := Fault.bind_ok_iff.1 h
    obtain rfl := hkind hk
    obtain ⟨_, hs⟩ := Text.first?_eq_some_iff.1 hfirst
    by_cases hafter : after = ""
    · rw [if_pos hafter] at hrest
      obtain rfl := Except.ok.inj hrest
      exact .inl ⟨kind, ".", by simp, rfl, by simpa [hafter] using hs⟩
    · rw [if_neg hafter] at hrest
      by_cases harray : kind = .array
      · rw [if_pos harray] at hrest
        obtain ⟨items, hitems, rfl⟩ := Fault.map_ok_iff.1 hrest
        exact .inr ⟨after, items, rfl, by rw [hs, harray]; rfl, Fault.mapError_ok_iff.1 hitems⟩
      · rw [if_neg harray] at hrest
        cases hrest

/-! ## Texts of type names -/

theorem text_ne_empty (name : TypeName) : name.text ≠ "" := by
  cases name with
  | plain kind => cases kind <;> decide
  | arrayOf items => simp [text]

/-- **The text of a type name is read as this type name.** -/
@[simp] theorem ofText_text (name : TypeName) : ofText name.text = .ok name := by
  induction name with
  | plain kind => cases kind <;> rfl
  | arrayOf items ih =>
    rw [text, ofText_array items.text_ne_empty, ih]
    rfl

/-- A dot at the end changes nothing. -/
theorem ofText_text_dot (name : TypeName) : ofText (name.text ++ ".") = .ok name := by
  induction name with
  | plain kind => cases kind <;> rfl
  | arrayOf items ih =>
    rw [text, String.append_assoc, ofText_array (by simp), ih]
    rfl

/-- **A text is read as a type name exactly if it is the text of this name, with or without a dot after it.** -/
theorem ofText_ok_iff {s : String} {name : TypeName} :
    ofText s = .ok name ↔ ∃ dot ∈ ["", "."], s = name.text ++ dot := by
  constructor
  · intro h
    induction name generalizing s with
    | plain kind =>
      rcases ofText_cases h with ⟨_, dot, hdot, he, rfl⟩ | ⟨_, _, he, _⟩
      · obtain rfl := TypeName.plain.inj he
        exact ⟨dot, hdot, rfl⟩
      · cases he
    | arrayOf items ih =>
      rcases ofText_cases h with ⟨_, _, _, he, _⟩ | ⟨after, _, he, rfl, hafter⟩
      · cases he
      · obtain rfl := TypeName.arrayOf.inj he
        obtain ⟨dot, hdot, rfl⟩ := ih hafter
        exact ⟨dot, hdot, by rw [text, String.append_assoc]⟩
  · rintro ⟨dot, hdot, rfl⟩
    obtain rfl | rfl : dot = "" ∨ dot = "." := by simpa using hdot
    · simp
    · exact ofText_text_dot name

/-! ## Levels of arrays -/

/-- `array.` so many times. -/
def arrays (levels : Nat) : String :=
  String.join (List.replicate levels "array.")

@[simp] theorem arrays_zero : arrays 0 = "" := rfl

theorem arrays_succ (levels : Nat) : arrays (levels + 1) = "array." ++ arrays levels := by
  rw [← String.toList_inj]
  simp [arrays, List.replicate_succ]

/-- The texts of type names are `array.` any number of times and the name of a kind. -/
theorem exists_text_iff {s : String} :
    (∃ name : TypeName, name.text = s) ↔ ∃ levels kind, s = arrays levels ++ Kind.text kind := by
  constructor
  · rintro ⟨name, rfl⟩
    induction name with
    | plain kind => exact ⟨0, kind, by simp [text]⟩
    | arrayOf items ih =>
      obtain ⟨levels, kind, h⟩ := ih
      exact ⟨levels + 1, kind, by rw [text, h, arrays_succ, String.append_assoc]⟩
  · rintro ⟨levels, kind, rfl⟩
    induction levels with
    | zero => exact ⟨.plain kind, by simp [text]⟩
    | succ levels ih =>
      obtain ⟨name, h⟩ := ih
      exact ⟨.arrayOf name, by rw [text, h, arrays_succ, String.append_assoc]⟩

/-! ## Faults -/

/-- The fault quotes the whole text. -/
theorem eq_unknown_of_ofText {s : String} {f : Fault} (h : ofText s = .error f) : f = unknown s := by
  unfold ofText at h
  split at h
  · cases h
  · exact (Except.error.inj h).symm

/-- What is refused is refused behind `array.` as well, with a fault that quotes the longer text. -/
theorem ofText_arrays_of_error {s : String} {f : Fault} (hs : s ≠ "") (h : ofText s = .error f) (levels : Nat) :
    ofText (arrays levels ++ s) = .error (unknown (arrays levels ++ s)) := by
  induction levels with
  | zero => simp [h, eq_unknown_of_ofText h]
  | succ levels ih =>
    rw [arrays_succ, String.append_assoc, ofText_array (by simp [hs]), ih]
    rfl

/-- **The texts that name a type are `array.` any number of times, the name of a kind, and possibly a dot.** The type is
the one whose text this is without the dot, so that the text of every type name leads back to it. Every other text is
refused with a fault that quotes the whole of it, behind however many levels of arrays the part stands that names no
kind. -/
theorem grammar_spec (s : String) :
    ((∃ name, ofText s = .ok name) ↔
      ∃ levels kind, ∃ dot ∈ ["", "."], s = arrays levels ++ Kind.text kind ++ dot) ∧
    (∀ name, ofText s = .ok name ↔ ∃ dot ∈ ["", "."], s = name.text ++ dot) ∧
    (∀ name, ofText (text name) = .ok name) ∧
    (∀ f, ofText s = .error f → f = .ofCommands .unknownType ("Unknown type " ++ s)) ∧
    ∀ levels f, s ≠ "" → ofText s = .error f →
      ofText (arrays levels ++ s) = .error (.ofCommands .unknownType ("Unknown type " ++ (arrays levels ++ s))) := by
  refine ⟨?_, fun name => ofText_ok_iff, ofText_text, fun f h => eq_unknown_of_ofText h,
    fun levels f hs h => ofText_arrays_of_error hs h levels⟩
  constructor
  · rintro ⟨name, h⟩
    obtain ⟨dot, hdot, rfl⟩ := ofText_ok_iff.1 h
    obtain ⟨levels, kind, htext⟩ := exists_text_iff.1 ⟨name, rfl⟩
    exact ⟨levels, kind, dot, hdot, by rw [htext]⟩
  · rintro ⟨levels, kind, dot, hdot, rfl⟩
    obtain ⟨name, htext⟩ := exists_text_iff.2 ⟨levels, kind, rfl⟩
    exact ⟨name, ofText_ok_iff.2 ⟨dot, hdot, by rw [htext]⟩⟩

example : ofText "array.array." = .ok (.arrayOf (.plain .array)) := rfl

example : ofText "array..integer" = .error (unknown "array..integer") := rfl

end Capability.TypeName
