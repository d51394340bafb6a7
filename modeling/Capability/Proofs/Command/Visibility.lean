import Capability.Command.Visibility
import Capability.Proofs.Fault
import Capability.Proofs.Text

/-!
# Words of a visibility

A text is taken for a visibility word by word: the words stand between commas, and blanks around them do not matter
(`Visibility.words_pad`). Each word must be the name of a visibility. The text then stands for the union of these, and
otherwise the first word that is no name is refused (`Visibility.union_spec`).

* `Visibility.ofWords_ok_iff`: accepted words are the names of visibilities, and what they stand for is the union.
* `Visibility.ofWords_error_iff`: refused is the first word that is no name.
* `Visibility.ofText_eq_foldlM`: going through the words from the left, with what is visible so far, gives the same
  answer.
-/

namespace Capability.Visibility

/-! ## The words of a text -/

/-- The words of a text: what stands between its commas, without the blanks around it. -/
def words (s : String) : List String :=
  (Text.parts ',' s).map Text.trim

theorem words_intercalate {pieces : List String} (hne : pieces ≠ []) (hcomma : ∀ piece ∈ pieces, ',' ∉ piece.toList) :
    words (",".intercalate pieces) = pieces.map Text.trim := by
  have hparts : Text.parts ',' (",".intercalate pieces) = pieces := Text.parts_eq_iff.2 ⟨hne, hcomma, rfl⟩
  rw [words, hparts]

/-- The second text is the first one with blanks put around it. -/
def Pads (s t : String) : Prop :=
  ∃ left right, Text.IsGap left ∧ Text.IsGap right ∧ t = left ++ s ++ right

theorem Pads.trim_eq {s t : String} (h : Pads s t) : Text.trim t = Text.trim s := by
  obtain ⟨left, right, hl, hr, rfl⟩ := h
  exact Text.trim_pad hl hr s

theorem Pads.not_mem_comma {s t : String} (h : Pads s t) (hcomma : ',' ∉ s.toList) : ',' ∉ t.toList := by
  obtain ⟨left, right, hl, hr, rfl⟩ := h
  have hblank : Text.isBlank ',' = false := by decide
  have hgap {gap : String} (hg : Text.IsGap gap) : ',' ∉ gap.toList := fun hc => by
    simpa [hblank] using hg ',' hc
  simp [hcomma, hgap hl, hgap hr]

/-- **Blanks around the pieces do not change the words.** -/
theorem words_pad {pieces padded : List String} (hne : pieces ≠ []) (hcomma : ∀ piece ∈ pieces, ',' ∉ piece.toList)
    (h : List.Forall₂ Pads pieces padded) : words (",".intercalate padded) = words (",".intercalate pieces) := by
  have hne' : padded ≠ [] := by
    rintro rfl
    exact hne (List.forall₂_nil_right_iff.1 h)
  have hcomma' : ∀ piece ∈ padded, ',' ∉ piece.toList := by
    intro piece hpiece
    obtain ⟨old, hold, hpads⟩ := Fault.exists_left_of_mem h hpiece
    exact hpads.not_mem_comma (hcomma old hold)
  have htrim : List.Forall₂ (· = ·) (pieces.map Text.trim) (padded.map Text.trim) := by
    rw [List.forall₂_map_left_iff, List.forall₂_map_right_iff]
    exact h.imp fun _ _ hpads => hpads.trim_eq.symm
  rw [List.forall₂_eq_eq_eq] at htrim
  rw [words_intercalate hne hcomma, words_intercalate hne' hcomma', htrim]

/-! ## Single words -/

theorem ofWord?_eq_some_iff {word : String} {v : Visibility} : ofWord? word = some v ↔ word = v.text := by
  constructor
  · intro h
    have htext := List.find?_some h
    exact (beq_iff_eq.1 htext).symm
  · rintro rfl
    exact ofWord?_text v

/-- The fault of a word that is no name. -/
def unknown (word : String) : Fault :=
  .ofCommands .invalidValue s!"Invalid command visibility value '{word}'"

/-- The visibility that a word names, or the fault that quotes the word. -/
def ofWord (word : String) : Except Fault Visibility :=
  match ofWord? word with
  | some v => .ok v
  | none => .error (unknown word)

theorem ofWord_ok_iff {word : String} {v : Visibility} : ofWord word = .ok v ↔ word = v.text := by
  rw [ofWord, ← ofWord?_eq_some_iff]
  cases ofWord? word <;> simp

theorem ofWord_error_iff {word : String} {f : Fault} :
    ofWord word = .error f ↔ (∀ v, word ≠ text v) ∧ f = unknown word := by
  simp only [ofWord, ne_eq, ← ofWord?_eq_some_iff]
  cases ofWord? word <;> simp [eq_comm]

/-! ## Lists of words -/

/-- The union of visibilities. -/
def unions (vs : List Visibility) : Visibility :=
  vs.foldr union nowhere

theorem ofWords_eq_mapM (words : List String) : ofWords words = (words.mapM ofWord).map unions := by
  induction words with
  | nil => rfl
  | cons word words ih =>
    rw [ofWords, List.mapM_cons, ofWord, ih]
    cases ofWord? word with
    | none => rfl
    | some v => cases words.mapM ofWord <;> rfl

/-- **Accepted words are the names of visibilities, and they stand for the union of these.** -/
theorem ofWords_ok_iff {words : List String} {v : Visibility} :
    ofWords words = .ok v ↔ ∃ vs, words = List.map text vs ∧ unions vs = v := by
  rw [ofWords_eq_mapM, Fault.map_ok_iff]
  refine exists_congr fun vs => and_congr_left fun _ => ?_
  simp only [Fault.mapM_ok_iff, ofWord_ok_iff]
  rw [← List.forall₂_map_right_iff, List.forall₂_eq_eq_eq]

/-- **Refused is the first word that is no name.** -/
theorem ofWords_error_iff {words : List String} {f : Fault} :
    ofWords words = .error f ↔ ∃ before word after, words = before ++ word :: after ∧
      (∀ u ∈ before, ∃ v, u = text v) ∧ (∀ v, word ≠ text v) ∧ f = unknown word := by
  rw [ofWords_eq_mapM, Fault.map_error_iff, Fault.mapM_error_iff]
  simp only [ofWord_ok_iff, ofWord_error_iff]

theorem ofText_ok_iff {s : String} {v : Visibility} :
    ofText s = .ok v ↔ ∃ vs, words s = List.map text vs ∧ unions vs = v :=
  ofWords_ok_iff

theorem ofText_error_iff {s : String} {f : Fault} :
    ofText s = .error f ↔ ∃ before word after, words s = before ++ word :: after ∧
      (∀ u ∈ before, ∃ v, u = text v) ∧ (∀ v, word ≠ text v) ∧ f = unknown word :=
  ofWords_error_iff

/-- The visibility so far, after one more word. -/
def add (v : Visibility) : String → Except Fault Visibility
  | "none" => .ok v
  | "local" => .ok { v with onLocal := true }
  | "cloud" => .ok { v with onCloud := true }
  | "all" => .ok everywhere
  | word => .error (unknown word)

theorem add_eq (v : Visibility) (word : String) : v.add word = (ofWord word).map v.union := by
  unfold add
  split
  · simp [ofWord, ofWord?, all, text, Except.map, union]
  · simp [ofWord, ofWord?, all, text, Except.map, union]
  · simp [ofWord, ofWord?, all, text, Except.map, union]
  · simp [ofWord, ofWord?, all, text, Except.map, union, everywhere]
  · rename_i hnone hlocal hcloud hall
    have hword : ofWord word = .error (unknown word) := by
      refine ofWord_error_iff.2 ⟨?_, rfl⟩
      rintro ⟨_ | _, _ | _⟩
      · exact hnone
      · exact hcloud
      · exact hlocal
      · exact hall
    rw [hword]
    rfl

/-- **The words may be gone through from the left, with what is visible so far.** -/
theorem foldlM_add (words : List String) (v : Visibility) : words.foldlM add v = (ofWords words).map v.union := by
  induction words generalizing v with
  | nil => simp [ofWords, Except.map, pure, Except.pure, union_comm v nowhere]
  | cons word words ih =>
    rw [List.foldlM_cons, add_eq, ofWords, ofWord]
    cases ofWord? word with
    | none => rfl
    | some a =>
      show words.foldlM add (v.union a) = _
      rw [ih]
      cases ofWords words with
      | error f => rfl
      | ok b => exact congrArg Except.ok (union_assoc v a b)

theorem ofText_eq_foldlM (s : String) : ofText s = (words s).foldlM add nowhere := by
  rw [foldlM_add]
  show ofWords (words s) = _
  cases ofWords (words s) <;> rfl

/-! ## Channels -/

/-- The names of visibilities. -/
def names : List String := ["none", "local", "cloud", "all"]

theorem mem_names_iff {word : String} : word ∈ names ↔ ∃ v, word = text v := by
  constructor
  · intro h
    have hword : word = "none" ∨ word = "local" ∨ word = "cloud" ∨ word = "all" := by simpa [names] using h
    rcases hword with rfl | rfl | rfl | rfl
    · exact ⟨⟨false, false⟩, rfl⟩
    · exact ⟨⟨true, false⟩, rfl⟩
    · exact ⟨⟨false, true⟩, rfl⟩
    · exact ⟨⟨true, true⟩, rfl⟩
  · rintro ⟨⟨_ | _, _ | _⟩, rfl⟩ <;> decide

theorem onLocal_iff (v : Visibility) : v.onLocal = true ↔ v.text = "local" ∨ v.text = "all" := by
  obtain ⟨_ | _, _ | _⟩ := v <;> decide

theorem onCloud_iff (v : Visibility) : v.onCloud = true ↔ v.text = "cloud" ∨ v.text = "all" := by
  obtain ⟨_ | _, _ | _⟩ := v <;> decide

theorem unions_eq (vs : List Visibility) : unions vs = ⟨vs.any (·.onLocal), vs.any (·.onCloud)⟩ := by
  induction vs with
  | nil => rfl
  | cons v vs ih =>
    show v.union (unions vs) = _
    rw [ih]
    simp [union]

/-- The channels of a text, told by its words. -/
theorem channels_of_ofText {s : String} {v : Visibility} (h : ofText s = .ok v) :
    (v.onLocal = true ↔ ∃ word ∈ words s, word = "local" ∨ word = "all") ∧
      (v.onCloud = true ↔ ∃ word ∈ words s, word = "cloud" ∨ word = "all") := by
  obtain ⟨vs, hwords, rfl⟩ := ofText_ok_iff.1 h
  simp [hwords, unions_eq, onLocal_iff, onCloud_iff]

theorem exists_ofText_iff {s : String} : (∃ v, ofText s = .ok v) ↔ ∀ word ∈ words s, word ∈ names := by
  constructor
  · rintro ⟨v, h⟩ word hword
    obtain ⟨vs, hwords, _⟩ := ofText_ok_iff.1 h
    rw [hwords] at hword
    obtain ⟨a, _, rfl⟩ := List.mem_map.1 hword
    exact mem_names_iff.2 ⟨a, rfl⟩
  · intro h
    cases hread : ofText s with
    | ok v => exact ⟨v, rfl⟩
    | error f =>
      obtain ⟨before, word, after, hsplit, _, hword, _⟩ := ofText_error_iff.1 hread
      have hmem : word ∈ words s := by simp [hsplit]
      obtain ⟨v, hv⟩ := mem_names_iff.1 (h word hmem)
      exact absurd hv (hword v)

/-- Texts with the same words, in whatever order and however often, stand for the same visibility. -/
theorem ofText_of_same_words {s t : String} (hwords : ∀ word, word ∈ words s ↔ word ∈ words t) {v : Visibility}
    (h : ofText s = .ok v) : ofText t = .ok v := by
  obtain ⟨w, hw⟩ : ∃ w, ofText t = .ok w :=
    exists_ofText_iff.2 fun word hword => exists_ofText_iff.1 ⟨v, h⟩ word ((hwords word).2 hword)
  obtain ⟨hvl, hvc⟩ := channels_of_ofText h
  obtain ⟨hwl, hwc⟩ := channels_of_ofText hw
  simp only [hwords] at hvl hvc
  have heq : w = v := by
    have hlocal : w.onLocal = v.onLocal := Bool.eq_iff_iff.2 (hwl.trans hvl.symm)
    have hcloud : w.onCloud = v.onCloud := Bool.eq_iff_iff.2 (hwc.trans hvc.symm)
    cases w
    cases v
    simp_all
  rw [hw, heq]

theorem ofText_text (v : Visibility) : ofText v.text = .ok v := by
  obtain ⟨_ | _, _ | _⟩ := v <;> rfl

/-- **A text stands for the union of its words, if all of them are names of visibilities.** Neither their order nor
how often they are there nor the blanks around them matters, and the name of what they stand for is read as the same
visibility. Otherwise the fault quotes the first word that is no name. -/
theorem union_spec (s : String) :
    ((∃ v, ofText s = .ok v) ↔ ∀ word ∈ words s, word ∈ names) ∧
    (∀ v, ofText s = .ok v →
      (v.onLocal = true ↔ ∃ word ∈ words s, word = "local" ∨ word = "all") ∧
        (v.onCloud = true ↔ ∃ word ∈ words s, word = "cloud" ∨ word = "all")) ∧
    (∀ t, (∀ word, word ∈ words s ↔ word ∈ words t) → ∀ v, ofText s = .ok v ↔ ofText t = .ok v) ∧
    (∀ pieces padded, pieces ≠ [] → (∀ piece ∈ pieces, ',' ∉ String.toList piece) → List.Forall₂ Pads pieces padded →
      s = ",".intercalate pieces → ofText (",".intercalate padded) = ofText s) ∧
    (∀ v, ofText (text v) = .ok v) ∧
    ∀ f, ofText s = .error f ↔ ∃ before word after, words s = before ++ word :: after ∧
      (∀ u ∈ before, u ∈ names) ∧ word ∉ names ∧
        f = .ofCommands .invalidValue s!"Invalid command visibility value '{word}'" := by
  refine ⟨exists_ofText_iff, fun v => channels_of_ofText, fun t hwords v => ?_, ?_, ofText_text, fun f => ?_⟩
  · exact ⟨ofText_of_same_words hwords, ofText_of_same_words fun word => (hwords word).symm⟩
  · rintro pieces padded hne hcomma hpads rfl
    exact congrArg ofWords (words_pad hne hcomma hpads)
  · simp only [mem_names_iff, not_exists]
    exact ofText_error_iff

example : ofText "\tcloud, none,cloud" = .ok ⟨false, true⟩ := rfl

example : ofText "local,,Cloud" = .error (unknown "") := rfl

end Capability.Visibility
