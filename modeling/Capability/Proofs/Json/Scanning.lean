import Capability.Proofs.Json.Numerals
import Mathlib.Data.List.Forall2

/-!
# Scanning what is written

`Json.tokens` are the tokens of a value, and a scan of its text finds just these (`scan_text`), if every number in it is
read back from its word. The scan is followed from one gap between tokens to the next: `Token.Yields` says which tokens
some characters add there, and texts with a mark between them add one after the other (`Token.Yields.mark`). A string is
read back whatever characters it has (`Token.yields_quote`).
-/

namespace Capability.Json

namespace Token

variable {c : Char} {cs cs' : List Char} {t : Token} {ts ts' : List Token} {s : Scan}

/-! ## From gap to gap -/

/-- The scan has found these tokens, the last first. The last one may be a word that a further character could go on
with. -/
inductive Scan.Holds : Scan → List Token → Prop
  | gap {ts : List Token} : Holds ⟨ts, .gap⟩ ts
  | word {chars : List Char} {t : Token} {ts : List Token} (h : ofWord? chars.reverse = some t) :
      Holds ⟨ts, .word chars⟩ (t :: ts)

theorem Scan.Holds.finish (h : s.Holds ts) : s.finish = some ts.reverse := by
  cases h with
  | gap => rfl
  | word h => simp only [Scan.finish, h, Option.map_some]

theorem Scan.start_mark (h : ofMark? c = some t) : Scan.start ts c = ⟨t :: ts, .gap⟩ := by
  have hstart : isBlank c = false ∧ c ≠ '"' := by
    unfold ofMark? at h
    split at h <;> first | exact ⟨rfl, by decide⟩ | cases h
  simp [Scan.start, hstart.1, hstart.2, h]

/-- A mark ends the token before it, and is a token itself. -/
theorem Scan.Holds.step_mark (h : s.Holds ts) (hc : ofMark? c = some t) : s.step c = some ⟨t :: ts, .gap⟩ := by
  cases h with
  | gap => exact congrArg some (Scan.start_mark hc)
  | word h =>
    have hends : endsWord c = true := by simp [endsWord, hc]
    simp only [Scan.step, hends, if_true, h, Option.map_some, Scan.start_mark hc]

/-- Between two tokens the characters add these tokens. -/
def Yields (cs : List Char) (ts : List Token) : Prop :=
  ∀ before, ∃ s, cs.foldlM Scan.step ⟨before, .gap⟩ = some s ∧ s.Holds (ts.reverse ++ before)

theorem Yields.scan {text : String} (h : Yields text.toList ts) : Token.scan text = some ts := by
  obtain ⟨s, hs, hholds⟩ := h []
  rw [Token.scan, hs, Option.bind_some, hholds.finish, List.append_nil, List.reverse_reverse]

theorem yields_nil : Yields [] [] :=
  fun _ => ⟨_, rfl, .gap⟩

/-- What is written before and after a mark is scanned by itself. -/
theorem Yields.mark (h : Yields cs ts) (hc : ofMark? c = some t) (h' : Yields cs' ts') :
    Yields (cs ++ c :: cs') (ts ++ t :: ts') := fun before => by
  obtain ⟨s, hs, hholds⟩ := h before
  obtain ⟨s', hs', hholds'⟩ := h' (t :: (ts.reverse ++ before))
  refine ⟨s', ?_, by simpa using hholds'⟩
  rw [List.foldlM_append, hs, Option.bind_eq_bind, Option.bind_some, List.foldlM_cons, hholds.step_mark hc]
  exact hs'

/-- Texts with commas between them add their tokens with commas between them. -/
theorem yields_intercalate {texts : List String} {tss : List (List Token)}
    (h : List.Forall₂ (fun text ts => Yields (String.toList text) ts) texts tss) :
    Yields (",".intercalate texts).toList ([Token.comma].intercalate tss) := by
  induction h with
  | nil => exact yields_nil
  | @cons text ts texts tss hhead htail ih =>
    cases htail with
    | nil => simpa using hhead
    | cons hnext hrest =>
      rw [String.intercalate_cons_cons, List.intercalate_cons_cons, String.toList_append, String.toList_append,
        List.append_assoc, List.append_assoc]
      exact hhead.mark rfl ih

/-! ## Words -/

theorem Scan.step_word (h : endsWord c = false) (ts : List Token) (chars : List Char) :
    Scan.step ⟨ts, .word chars⟩ c = some ⟨ts, .word (c :: chars)⟩ := by
  simp [Scan.step, h]

theorem foldlM_word (h : ∀ c ∈ cs, endsWord c = false) (ts : List Token) (chars : List Char) :
    cs.foldlM Scan.step ⟨ts, .word chars⟩ = some ⟨ts, .word (cs.reverse ++ chars)⟩ := by
  induction cs generalizing chars with
  | nil => rfl
  | cons c cs ih =>
    rw [List.foldlM_cons, Scan.step_word (h c List.mem_cons_self), Option.bind_eq_bind, Option.bind_some,
      ih (fun d hd => h d (List.mem_cons_of_mem _ hd)), List.reverse_cons, List.append_assoc]
    rfl

theorem Scan.start_word (h : endsWord c = false) : Scan.start ts c = ⟨ts, .word [c]⟩ := by
  simp only [endsWord, Bool.or_eq_false_iff, beq_eq_false_iff_ne, ne_eq, Option.isSome_eq_false_iff,
    Option.isNone_iff_eq_none] at h
  obtain ⟨⟨hblank, hquote⟩, hmark⟩ := h
  simp [Scan.start, hblank, hquote, hmark]

theorem endsWord_of_any (h : cs.any endsWord = false) : ∀ c ∈ cs, endsWord c = false := fun c hc =>
  Bool.eq_false_iff.2 (List.any_eq_false.1 h c hc)

/-- A word adds the token that it is. -/
theorem yields_word (h : ∀ c ∈ cs, endsWord c = false) (ht : ofWord? cs = some t) : Yields cs [t] := fun before => by
  cases cs with
  | nil => cases ht
  | cons c cs =>
    refine ⟨⟨before, .word (cs.reverse ++ [c])⟩, ?_, .word (by simpa using ht)⟩
    rw [List.foldlM_cons, Scan.step, Scan.start_word (h c List.mem_cons_self)]
    exact foldlM_word (fun d hd => h d (List.mem_cons_of_mem _ hd)) before [c]

/-- The scan of a single word is the token that it is, if it is one. -/
theorem scan_word {text : String} (h : ∀ c ∈ text.toList, endsWord c = false) :
    scan text = some [] ∨ scan text = (ofWord? text.toList).map fun t => [t] := by
  rw [scan]
  generalize text.toList = cs at h
  cases cs with
  | nil => exact .inl rfl
  | cons c cs =>
    refine .inr ?_
    rw [List.foldlM_cons, Scan.step, Scan.start_word (h c List.mem_cons_self), Option.bind_eq_bind, Option.bind_some,
      foldlM_word fun d hd => h d (List.mem_cons_of_mem _ hd)]
    simp [Scan.finish]

/-! ## Strings -/

/-- The piece stands for the character: as itself, or for a control character as its unit. -/
def Piece.Denotes (p : Piece) (c : Char) : Prop :=
  p = .char c ∨ p = .unit c.toNat ∧ c.toNat < 0x20

theorem decode?_of_denotes {pieces : List Piece} (h : List.Forall₂ Piece.Denotes pieces cs) :
    Piece.decode? pieces = some cs := by
  induction h with
  | nil => rfl
  | @cons p c pieces cs hp _ ih =>
    rcases hp with rfl | ⟨rfl, hcontrol⟩
    · rw [Piece.decode?, ih, Option.map_some]
    · have hhigh : ¬(0xD800 ≤ c.toNat ∧ c.toNat < 0xDC00) := by omega
      have hlow : ¬(0xDC00 ≤ c.toNat ∧ c.toNat < 0xE000) := by omega
      rw [Piece.decode?.eq_def]
      simp only [if_neg hhigh, if_neg hlow, ih, Option.map_some, Char.ofNat_toNat]

theorem hexValue?_hexDigit : ∀ n < 16, hexValue? (hexDigit n) = some n := by
  decide

theorem Scan.step_code (ts : List Token) (pieces : List Piece) (value count : Nat) (c : Char) :
    Scan.step ⟨ts, .code pieces value count⟩ c = (hexValue? c).map fun d =>
      if count < 3 then ⟨ts, .code pieces (16 * value + d) (count + 1)⟩
      else ⟨ts, .quoted (.unit (16 * value + d) :: pieces)⟩ := rfl

/-- Inside of quotes an escaped character adds a piece that stands for it. -/
theorem foldlM_escape (c : Char) (ts : List Token) (pieces : List Piece) :
    ∃ p, Piece.Denotes p c ∧ (escape c).foldlM Scan.step ⟨ts, .quoted pieces⟩ = some ⟨ts, .quoted (p :: pieces)⟩ := by
  unfold escape
  iterate 7
    split
    · subst c
      exact ⟨_, .inl rfl, rfl⟩
  split
  · rename_i hcontrol
    refine ⟨_, .inr ⟨rfl, hcontrol⟩, ?_⟩
    have hhigh := hexValue?_hexDigit (c.toNat / 16) (by omega)
    have hlow := hexValue?_hexDigit (c.toNat % 16) (by omega)
    have hzero : hexValue? '0' = some 0 := by decide
    have hvalue : 16 * (c.toNat / 16) + c.toNat % 16 = c.toNat := Nat.div_add_mod _ _
    have hunit : Scan.step ⟨ts, .escape pieces⟩ 'u' = some ⟨ts, .code pieces 0 0⟩ := rfl
    have hbackslash : Scan.step ⟨ts, .quoted pieces⟩ '\\' = some ⟨ts, .escape pieces⟩ := rfl
    simp [hbackslash, hunit, Scan.step_code, hzero, hhigh, hlow, hvalue]
  · rename_i hquote hbackslash _ _ _ _ _ hcontrol
    refine ⟨_, .inl rfl, ?_⟩
    simp [Scan.step, hquote, hbackslash, hcontrol]

/-- Inside of quotes the escaped characters add pieces that stand for them. -/
theorem foldlM_quoted (cs : List Char) (ts : List Token) (pieces : List Piece) :
    ∃ ps, List.Forall₂ Piece.Denotes ps cs ∧
      (cs.flatMap escape).foldlM Scan.step ⟨ts, .quoted pieces⟩ = some ⟨ts, .quoted (ps.reverse ++ pieces)⟩ := by
  induction cs generalizing pieces with
  | nil => exact ⟨[], .nil, rfl⟩
  | cons c cs ih =>
    obtain ⟨p, hp, hstep⟩ := foldlM_escape c ts pieces
    obtain ⟨ps, hps, hrest⟩ := ih (p :: pieces)
    refine ⟨p :: ps, .cons hp hps, ?_⟩
    rw [List.flatMap_cons, List.foldlM_append, hstep, Option.bind_eq_bind, Option.bind_some, hrest, List.reverse_cons,
      List.append_assoc]
    rfl

/-- **A string in quotes is read back.** -/
theorem yields_quote (text : String) : Yields (quote text).toList [.string (some text)] := fun before => by
  obtain ⟨ps, hps, hfold⟩ := foldlM_quoted text.toList before []
  refine ⟨⟨.string (some text) :: before, .gap⟩, ?_, .gap⟩
  have hquote : (quote text).toList = '"' :: (text.toList.flatMap escape ++ ['"']) := by
    simp [quote]
  have hopen : Scan.step ⟨before, .gap⟩ '"' = some ⟨before, .quoted []⟩ := rfl
  have hclose : Scan.step ⟨before, .quoted (ps.reverse ++ [])⟩ '"' = some ⟨.string (some text) :: before, .gap⟩ := by
    have hdecode : ofPieces (ps.reverse ++ []) = .string (some text) := by
      rw [ofPieces, List.append_nil, List.reverse_reverse, decode?_of_denotes hps, Option.map_some,
        String.ofList_toList]
    rw [← hdecode]
    rfl
  rw [hquote, List.foldlM_cons, hopen, Option.bind_eq_bind, Option.bind_some, List.foldlM_append, hfold,
    Option.bind_eq_bind, Option.bind_some, List.foldlM_cons, hclose]
  rfl

end Token

/-! ## Values -/

mutual
/-- The tokens of a value. -/
def tokens : Json → List Token
  | .null => [.null]
  | .bool b => [.bool b]
  | .number n => [.number (some n)]
  | .string s => [.string (some s)]
  | .array items => .openArray :: ([Token.comma].intercalate (itemTokens items) ++ [.closeArray])
  | .object fields => .openObject :: ([Token.comma].intercalate (fieldTokens fields) ++ [.closeObject])

/-- The tokens of each item. -/
def itemTokens : List Json → List (List Token)
  | [] => []
  | item :: items => item.tokens :: itemTokens items

/-- The tokens of each field: its name, a colon and its value. -/
def fieldTokens : List (String × Json) → List (List Token)
  | [] => []
  | (name, value) :: fields => (.string (some name) :: .colon :: value.tokens) :: fieldTokens fields
end

open Token

mutual
/-- The text of a value has its tokens. -/
theorem yields_text : ∀ {json : Json}, (∀ n ∈ json.numbers, n.ReadsBack) → Yields json.text.toList json.tokens
  | .null, _ => yields_word (endsWord_of_any rfl) rfl
  | .bool true, _ => yields_word (endsWord_of_any rfl) rfl
  | .bool false, _ => yields_word (endsWord_of_any rfl) rfl
  | .number n, h => yields_word (fun c hc => endsWord_of_isNumeric (n.numeric_text c hc)) (h n List.mem_cons_self)
  | .string s, _ => yields_quote s
  | .array items, h => by
    have hitems := yields_intercalate (yields_itemTexts h)
    have htext : (Json.array items).text.toList =
        [] ++ '[' :: ((",".intercalate (itemTexts items)).toList ++ [']']) := by
      simp [text]
    rw [htext]
    exact yields_nil.mark (t := .openArray) rfl (hitems.mark (t := .closeArray) rfl yields_nil)
  | .object fields, h => by
    have hfields := yields_intercalate (yields_fieldTexts h)
    have htext : (Json.object fields).text.toList =
        [] ++ '\x7b' :: ((",".intercalate (fieldTexts fields)).toList ++ ['\x7d']) := by
      simp [text]
    rw [htext]
    exact yields_nil.mark (t := .openObject) rfl (hfields.mark (t := .closeObject) rfl yields_nil)

theorem yields_itemTexts : ∀ {items : List Json}, (∀ n ∈ itemNumbers items, n.ReadsBack) →
    List.Forall₂ (fun text ts => Yields (String.toList text) ts) (itemTexts items) (itemTokens items)
  | [], _ => .nil
  | _ :: _, h => by
    obtain ⟨hitem, hitems⟩ := List.forall_mem_append.1 h
    exact .cons (yields_text hitem) (yields_itemTexts hitems)

theorem yields_fieldTexts : ∀ {fields : List (String × Json)}, (∀ n ∈ fieldNumbers fields, n.ReadsBack) →
    List.Forall₂ (fun text ts => Yields (String.toList text) ts) (fieldTexts fields) (fieldTokens fields)
  | [], _ => .nil
  | (name, value) :: _, h => by
    obtain ⟨hvalue, hfields⟩ := List.forall_mem_append.1 h
    refine .cons ?_ (yields_fieldTexts hfields)
    have htext : (quote name ++ ":" ++ value.text).toList = (quote name).toList ++ ':' :: value.text.toList := by
      simp
    rw [htext]
    exact (yields_quote name).mark rfl (yields_text hvalue)
end

/-- **The scan of the text of a value finds its tokens**, if every number in it is read back. -/
theorem scan_text {json : Json} (h : ∀ n ∈ json.numbers, n.ReadsBack) : Token.scan json.text = some json.tokens :=
  (yields_text h).scan

end Capability.Json
