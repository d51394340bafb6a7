import Capability.Text.Blank
import Capability.Text.Split
import Mathlib.Data.List.TakeWhile

/-!
# Parts and blanks of texts

The parts of a text between its marks are the texts without a mark that make it up when marks are put between them
(`parts_eq_iff`). They are the parts that `List.splitOn` finds, so that its lemmas apply.

Trimming drops the blanks at both ends, so blanks around a text do not change what is left of it (`trim_pad`).
-/

namespace Capability.Text

/-! ## Parts -/

section Parts

variable {mark : Char}

theorem charParts_eq_splitOn (mark : Char) (cs : List Char) : charParts mark cs = cs.splitOn mark := by
  induction cs with
  | nil => simp [charParts]
  | cons c cs ih =>
    rw [charParts, List.splitOn_cons_eq_if_modifyHead, ih]
    by_cases h : c = mark
    · simp [h]
    · cases hcs : cs.splitOn mark with
      | nil => exact absurd hcs (List.splitOn_ne_nil mark cs)
      | cons part parts => simp [h]

theorem not_mem_of_mem_charParts {cs part : List Char} (h : part ∈ charParts mark cs) : mark ∉ part := by
  induction cs generalizing part with
  | nil => simp_all [charParts]
  | cons c cs ih =>
    rw [charParts] at h
    by_cases hc : c = mark
    · rw [if_pos hc, List.mem_cons] at h
      rcases h with rfl | h
      · exact List.not_mem_nil
      · exact ih h
    · rw [if_neg hc] at h
      cases hcs : charParts mark cs with
      | nil => exact absurd hcs (charParts_ne_nil mark cs)
      | cons first rest =>
        rw [hcs] at h ih
        rcases List.mem_cons.1 h with rfl | h
        · simpa [Ne.symm hc] using ih List.mem_cons_self
        · exact ih (List.mem_cons_of_mem first h)

/-- What stands before the first mark is the first part. -/
theorem parts_append {before : String} (h : mark ∉ before.toList) (after : String) :
    parts mark (before ++ String.ofList [mark] ++ after) = before :: parts mark after := by
  simp [parts, charParts_eq_splitOn, List.splitOn_append_cons_self_of_not_mem h]

theorem parts_of_not_mem {s : String} (h : mark ∉ s.toList) : parts mark s = [s] := by
  simp [parts, charParts_eq_splitOn, List.splitOn_eq_singleton h]

/-- **The parts of a text are the texts without a mark that make it up when marks are put between them.** -/
theorem parts_eq_iff {s : String} {words : List String} : parts mark s = words ↔
    words ≠ [] ∧ (∀ word ∈ words, mark ∉ word.toList) ∧ (String.ofList [mark]).intercalate words = s := by
  constructor
  · rintro rfl
    refine ⟨parts_ne_nil mark s, fun word hword => ?_, ?_⟩
    · obtain ⟨part, hpart, rfl⟩ := List.mem_map.1 hword
      simpa using not_mem_of_mem_charParts hpart
    · rw [← String.toList_inj]
      simp [parts, charParts_eq_splitOn, Function.comp_def, List.intercalate_splitOn]
  · rintro ⟨hne, hmark, rfl⟩
    have hsplit : (List.intercalate [mark] (words.map String.toList)).splitOn mark = words.map String.toList :=
      List.splitOn_intercalate mark (by simpa using hmark) (by simpa using hne)
    simp [parts, charParts_eq_splitOn, hsplit, Function.comp_def]

theorem charFirst?_eq_none_iff {cs : List Char} : charFirst? mark cs = none ↔ mark ∉ cs := by
  induction cs with
  | nil => simp [charFirst?]
  | cons c cs ih =>
    rw [charFirst?]
    by_cases h : c = mark
    · simp [h]
    · simp [h, ih, Ne.symm h]

theorem first?_eq_none_iff {s : String} : first? mark s = none ↔ mark ∉ s.toList := by
  rw [first?, Option.map_eq_none_iff, charFirst?_eq_none_iff]

end Parts

/-! ## Blanks -/

/-- There are only blanks in the text. -/
def IsGap (s : String) : Prop :=
  ∀ c ∈ s.toList, isBlank c = true

/-- **Blanks around a text do not change what is left of it.** -/
theorem trim_pad {left right : String} (hl : IsGap left) (hr : IsGap right) (s : String) :
    trim (left ++ s ++ right) = trim s := by
  have hlist : (left ++ s ++ right).toList = left.toList ++ (s.toList ++ right.toList) := by simp
  rw [trim, trim, hlist, List.dropWhile_append_of_pos hl, List.dropWhile_append]
  by_cases h : (s.toList.dropWhile isBlank).isEmpty = true
  · rw [if_pos h, List.dropWhile_eq_nil_iff.2 hr, List.isEmpty_iff.1 h]
  · have hright : ∀ c ∈ right.toList.reverse, isBlank c = true := fun c hc => hr c (List.mem_reverse.1 hc)
    rw [if_neg h, List.reverse_append, List.dropWhile_append_of_pos hright]

end Capability.Text
