/-!
# Splitting texts at a mark

* `parts_ne_nil`: there is one part more than there are marks, so always at least one.
* `first?_eq_some_iff`: a text splits at the first mark into what is before it, without a mark, and what is after it.
-/

namespace Capability.Text

/-! ## All parts -/

/-- The parts between the marks of a list of characters. -/
def charParts (mark : Char) : List Char → List (List Char)
  | [] => [[]]
  | c :: cs =>
    if c = mark then [] :: charParts mark cs
    else
      match charParts mark cs with
      | [] => [[c]]
      | part :: parts => (c :: part) :: parts

/-- The parts of a text between its marks. -/
def parts (mark : Char) (s : String) : List String :=
  (charParts mark s.toList).map String.ofList

theorem charParts_ne_nil (mark : Char) (cs : List Char) : charParts mark cs ≠ [] := by
  cases cs with
  | nil => simp [charParts]
  | cons c cs =>
    simp only [charParts]
    split
    · simp
    · split <;> simp

theorem parts_ne_nil (mark : Char) (s : String) : parts mark s ≠ [] := by
  simp [parts, charParts_ne_nil]

/-! ## The first part -/

/-- The characters before the first mark and those after it. -/
def charFirst? (mark : Char) : List Char → Option (List Char × List Char)
  | [] => none
  | c :: cs => if c = mark then some ([], cs) else (charFirst? mark cs).map fun p => (c :: p.1, p.2)

/-- The text before the first mark and the text after it. -/
def first? (mark : Char) (s : String) : Option (String × String) :=
  (charFirst? mark s.toList).map fun p => (String.ofList p.1, String.ofList p.2)

theorem charFirst?_eq_some_iff {mark : Char} {cs before after : List Char} :
    charFirst? mark cs = some (before, after) ↔ mark ∉ before ∧ cs = before ++ mark :: after := by
  induction cs generalizing before with
  | nil => simp [charFirst?]
  | cons c cs ih =>
    simp only [charFirst?]
    split
    case isTrue h =>
      cases before with
      | nil => simp [h]
      | cons b before => grind
    case isFalse h =>
      simp only [Option.map_eq_some_iff, Prod.mk.injEq, Prod.exists]
      cases before with
      | nil => simp [h]
      | cons b before => grind

theorem first?_eq_some_iff {mark : Char} {s before after : String} :
    first? mark s = some (before, after) ↔ mark ∉ before.toList ∧ s = before ++ String.ofList [mark] ++ after := by
  simp only [first?, Option.map_eq_some_iff, Prod.exists, charFirst?_eq_some_iff, Prod.mk.injEq]
  constructor
  · rintro ⟨b, a, ⟨hm, hs⟩, rfl, rfl⟩
    refine ⟨by simpa using hm, ?_⟩
    rw [← String.toList_inj]
    simp [hs]
  · rintro ⟨hm, rfl⟩
    exact ⟨before.toList, after.toList, ⟨hm, by simp⟩, by simp, by simp⟩

end Capability.Text
