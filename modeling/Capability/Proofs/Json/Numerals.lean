import Capability.Json.Text
import Capability.Json.Token
import Mathlib.Data.List.TakeWhile

/-!
# The words of numbers

A number is written as one word: with digits, points, signs and exponents (`Number.numeric_text`), none of which ends a
word. An integer of 64 bits, signed or unsigned, is read back from its word (`Number.readsBack_integer`), and no others
are read at all (`Number.storable_of_value?`). Doubles are not all read back: the digits of a word are rounded before
they are scaled, and once more after that, so that some doubles come out as their neighbours.
-/

namespace Capability.Json

/-! ## Numeric characters -/

namespace Token

/-- Whether the character may stand in a number. -/
def isNumeric (c : Char) : Bool :=
  c.isDigit || c == '.' || c == 'e' || c == '+' || c == '-'

/-- All of the characters may stand in a number. -/
def Numeric (cs : List Char) : Prop :=
  ∀ c ∈ cs, isNumeric c = true

variable {cs ds : List Char}

theorem Numeric.append (h : Numeric cs) (h' : Numeric ds) : Numeric (cs ++ ds) :=
  fun c hc => (List.mem_append.1 hc).elim (h c) (h' c)

theorem Numeric.of_sublist (h : Numeric cs) (hs : ds.Sublist cs) : Numeric ds :=
  fun c hc => h c (hs.mem hc)

theorem numeric_toDigits (n : Nat) : Numeric (Nat.toDigits 10 n) := fun c hc => by
  rw [isNumeric, Nat.isDigit_of_mem_toDigits (by decide) (by decide) hc]
  rfl

/-- Digits of a number, as a text. -/
theorem numeric_part {n : Nat} (h : cs.Sublist (Nat.toDigits 10 n)) : Numeric (String.ofList cs).toList := by
  rw [String.toList_ofList]
  exact (numeric_toDigits n).of_sublist h

/-- A character of a number does not end a word. -/
theorem endsWord_of_isNumeric {c : Char} (h : isNumeric c = true) : endsWord c = false := by
  have hmark {t : Token} (ht : ofMark? c = some t) : isNumeric c = false := by
    unfold ofMark? at ht
    split at ht <;> first | rfl | cases ht
  have hblank (hb : isBlank c = true) : isNumeric c = false := by
    simp only [isBlank, Bool.or_eq_true, beq_iff_eq] at hb
    rcases hb with ((rfl | rfl) | rfl) | rfl <;> rfl
  refine Bool.eq_false_iff.2 fun hends => Bool.eq_false_iff.1 ?_ h
  simp only [endsWord, Bool.or_eq_true, beq_iff_eq, Option.isSome_iff_exists] at hends
  rcases hends with (hb | rfl) | ⟨t, ht⟩
  · exact hblank hb
  · rfl
  · exact hmark ht

/-- A word of numeric characters is a literal, if it is anything. -/
theorem Numeric.ofWord? (h : Numeric cs) :
    Token.ofWord? cs = (Literal.ofChars? cs).map fun l => .number l.value? := by
  have hne {c : Char} {rest : List Char} (hc : isNumeric c = false) : cs ≠ c :: rest := by
    rintro rfl
    rw [h c List.mem_cons_self] at hc
    cases hc
  rw [Token.ofWord?, if_neg (hne rfl), if_neg (hne rfl), if_neg (hne rfl)]

end Token

open Token

/-! ## Doubles -/

theorem numeric_zeros (n : Int) : Numeric (Decimal.zeros n).toList := by
  rw [Decimal.zeros, String.toList_ofList]
  intro c hc
  rw [List.eq_of_mem_replicate hc]
  rfl

/-- Positional notation is numeric if the mark on whole numbers is. -/
theorem numeric_positional (d : Decimal) {mark : String} (h : Numeric mark.toList) :
    Numeric (d.positional mark).toList := by
  have hdigits : Numeric d.digitText.toList := numeric_part (List.Sublist.refl _)
  unfold Decimal.positional
  simp only
  split
  · simp only [String.toList_append]
    exact (hdigits.append (numeric_zeros _)).append h
  · split
    · have hpoint : Numeric ".".toList := by simp [Numeric, isNumeric]
      simp only [String.toList_append]
      exact ((numeric_part (List.take_sublist _ _)).append hpoint).append (numeric_part (List.drop_sublist _ _))
    · have hzero : Numeric "0.".toList := by simp [Numeric, isNumeric]
      simp only [String.toList_append]
      exact (hzero.append (numeric_zeros _)).append hdigits

theorem numeric_scientific (d : Decimal) : Numeric d.scientific.toList := by
  have hfraction : Numeric (if (Nat.toDigits 10 d.digits).length ≤ 1 then ""
      else "." ++ String.ofList ((Nat.toDigits 10 d.digits).drop 1)).toList := by
    split
    · simp [Numeric]
    · have hpoint : Numeric ".".toList := by simp [Numeric, isNumeric]
      rw [String.toList_append]
      exact hpoint.append (numeric_part (List.drop_sublist _ _))
  have hmark : Numeric "e".toList := by simp [Numeric, isNumeric]
  have hsign : Numeric (if 0 ≤ d.leading then "+" else "-").toList := by
    split <;> simp [Numeric, isNumeric]
  have hexponent : Numeric (toString d.leading.natAbs).toList := by
    rw [Nat.toString_eq_ofList_toDigits]
    exact numeric_part (List.Sublist.refl _)
  unfold Decimal.scientific
  simp only [String.toList_append]
  exact ((((numeric_part (List.take_sublist _ _)).append hfraction).append hmark).append hsign).append hexponent

/-- The text of a double is one word. -/
theorem numeric_text_double (d : Double) : Numeric (d.text doubleLayout).toList := by
  have hmagnitude : Numeric (if doubleLayout.positional (d.shortest doubleLayout.tie).leading then
      (d.shortest doubleLayout.tie).positional doubleLayout.wholeMark
      else (d.shortest doubleLayout.tie).scientific).toList := by
    split
    · exact numeric_positional _ (by simp [Numeric, isNumeric, doubleLayout])
    · exact numeric_scientific _
  unfold Double.text
  simp only
  split
  · have hsign : Numeric "-".toList := by simp [Numeric, isNumeric]
    rw [String.toList_append]
    exact hsign.append hmagnitude
  · exact hmagnitude

/-! ## Integers -/

/-- The number is one that 64 bits hold: a signed or unsigned integer, or a double. -/
def Number.Storable : Number → Prop
  | .integer n => Int64.minValue.toInt ≤ n ∧ n < UInt64.size
  | .double _ => True

/-- The digits of a number have this value. -/
theorem digitsValue_toDigits (n : Nat) : digitsValue (Nat.toDigits 10 n) = n := by
  rw [digitsValue, ← Nat.ofDigitChars_eq_foldl, Nat.ofDigitChars_ten_toDigits]

/-- The digits of a number other than zero do not begin with a zero. -/
theorem head?_toDigits {n : Nat} (h : 0 < n) : (Nat.toDigits 10 n).head? ≠ some '0' := by
  induction n using Nat.strongRecOn with
  | ind n ih =>
    rw [Nat.toDigits_eq_if (by decide)]
    split
    · rename_i hlt
      intro he
      have hvalue := digitsValue_toDigits n
      rw [Nat.toDigits_of_lt_base hlt, Option.some.inj he] at hvalue
      exact Nat.ne_of_lt h hvalue
    · obtain ⟨c, rest, hcons⟩ := List.exists_cons_of_ne_nil (Nat.toDigits_ne_nil (n := n / 10) (b := 10))
      have hhead := ih (n / 10) (by omega) (by omega)
      rw [hcons] at hhead ⊢
      exact hhead

/-- The digits of a number are a literal without fraction and exponent. -/
theorem ofUnsigned?_toDigits (negative : Bool) (n : Nat) :
    Literal.ofUnsigned? negative (Nat.toDigits 10 n) = some ⟨negative, Nat.toDigits 10 n, none, none⟩ := by
  have hdigits : ∀ c ∈ Nat.toDigits 10 n, c.isDigit = true :=
    fun c hc => Nat.isDigit_of_mem_toDigits (by decide) (by decide) hc
  have htake : (Nat.toDigits 10 n).takeWhile Char.isDigit = Nat.toDigits 10 n := List.takeWhile_eq_self_iff.2 hdigits
  have hdrop : (Nat.toDigits 10 n).dropWhile Char.isDigit = [] := List.dropWhile_eq_nil_iff.2 hdigits
  have hzero : ¬(Nat.toDigits 10 n = [] ∨
      (Nat.toDigits 10 n).length ≠ 1 ∧ (Nat.toDigits 10 n).head? = some '0') := by
    rintro (h | ⟨hlength, hhead⟩)
    · exact Nat.toDigits_ne_nil h
    · rcases Nat.eq_zero_or_pos n with rfl | hpos
      · exact hlength rfl
      · exact head?_toDigits hpos hhead
  rw [Literal.ofUnsigned?]
  simp only [htake, hdrop, if_neg hzero]
  rfl

/-- The literal of an integer that is stored has this value. -/
theorem value?_toDigits {n : Int} (h : (Number.integer n).Storable) :
    (Literal.mk (n < 0) (Nat.toDigits 10 n.natAbs) none none).value? = some (.integer n) := by
  have hvalue : (if decide (n < 0) = true then -(n.natAbs : Int) else n.natAbs) = n := by
    split <;> rename_i hsign <;> simp only [decide_eq_true_eq] at hsign <;> omega
  have hwhole : (!(decide (n < 0) && n.natAbs == 0)) = true := by
    simp only [Bool.not_eq_true', Bool.and_eq_false_iff, decide_eq_false_iff_not, beq_eq_false_iff_ne]
    omega
  simp only [Literal.value?, digitsValue_toDigits, hvalue, hwhole]
  exact if_pos ⟨rfl, h⟩

/-- The text of an integer: its digits, after a sign if it is negative. -/
theorem Number.text_integer (n : Int) : (Number.integer n).text.toList =
    if n < 0 then '-' :: Nat.toDigits 10 n.natAbs else Nat.toDigits 10 n.natAbs := by
  rw [Number.text, Int.toString_eq_repr, Int.repr_eq_if]
  by_cases h : 0 ≤ n
  · rw [if_pos h, if_neg (Int.not_lt.2 h), Nat.toList_repr, show n.toNat = n.natAbs by omega]
  · rw [if_neg h, if_pos (Int.not_le.1 h), String.toList_append, Nat.toList_repr, show (-n).toNat = n.natAbs by omega]
    rfl

/-- The text of an integer is a literal of these digits. -/
theorem ofChars?_text_integer (n : Int) :
    Literal.ofChars? (Number.integer n).text.toList = some ⟨n < 0, Nat.toDigits 10 n.natAbs, none, none⟩ := by
  rw [Number.text_integer]
  split
  · rename_i hneg
    rw [Literal.ofChars?, ofUnsigned?_toDigits, decide_eq_true hneg]
  · rename_i hpos
    rw [decide_eq_false hpos, ← ofUnsigned?_toDigits]
    unfold Literal.ofChars?
    split
    · rename_i rest hdigits
      have hsign : '-' ∈ Nat.toDigits 10 n.natAbs := hdigits ▸ List.mem_cons_self
      exact absurd (Nat.isDigit_of_mem_toDigits (by decide) (by decide) hsign) (by decide)
    · rfl

/-- **The text of a number is one word.** -/
theorem Number.numeric_text : ∀ n : Number, Numeric n.text.toList
  | .integer n => by
    rw [text_integer]
    split
    · have hsign : Numeric ['-'] := by simp [Numeric, isNumeric]
      exact hsign.append (numeric_toDigits _)
    · exact numeric_toDigits _
  | .double d => numeric_text_double d

/-! ## Reading back -/

/-- The word of the number is read as this number. -/
def Number.ReadsBack (n : Number) : Prop :=
  ofWord? n.text.toList = some (.number (some n))

/-- A number is read back if the literal that it is written as has its value. -/
theorem Number.readsBack_iff {n : Number} :
    n.ReadsBack ↔ (Literal.ofChars? n.text.toList).bind Literal.value? = some n := by
  rw [ReadsBack, n.numeric_text.ofWord?]
  cases Literal.ofChars? n.text.toList with
  | none => exact iff_of_false nofun nofun
  | some l =>
    rw [Option.map_some, Option.bind_some]
    exact ⟨fun h => Token.number.inj (Option.some.inj h), fun h => by rw [h]⟩

instance (n : Number) : Decidable n.ReadsBack :=
  decidable_of_iff _ Number.readsBack_iff.symm

/-- **An integer that is stored is read back.** -/
theorem Number.readsBack_integer {n : Int} (h : (Number.integer n).Storable) : (Number.integer n).ReadsBack := by
  rw [readsBack_iff, ofChars?_text_integer, Option.bind_some, value?_toDigits h]

-- Not so a double: what is written as `5.068169999999999e-12` is read as the double below it.
example : ¬(Number.double ⟨false, 6274090568904985, 984, by decide⟩).ReadsBack := by
  decide +kernel

/-- **Only numbers that are stored are read.** -/
theorem Number.storable_of_value? {l : Literal} {n : Number} (h : l.value? = some n) : n.Storable := by
  unfold Literal.value? at h
  simp only at h
  generalize (if l.negative = true then -(digitsValue l.whole : Int) else digitsValue l.whole) = m at h
  split at h
  · rename_i hrange
    obtain rfl := Option.some.inj h
    exact hrange.2
  · obtain ⟨_, _, rfl⟩ := Option.map_eq_some_iff.1 h
    trivial

/-! ## The numbers in a value -/

mutual
/-- All numbers in the value, at any depth. -/
def numbers : Json → List Number
  | .number n => [n]
  | .array items => itemNumbers items
  | .object fields => fieldNumbers fields
  | .null | .bool _ | .string _ => []

/-- All numbers in the items. -/
def itemNumbers : List Json → List Number
  | [] => []
  | item :: items => item.numbers ++ itemNumbers items

/-- All numbers in the values. -/
def fieldNumbers : List (String × Json) → List Number
  | [] => []
  | (_, value) :: fields => value.numbers ++ fieldNumbers fields
end

theorem mem_itemNumbers_iff {items : List Json} {n : Number} :
    n ∈ itemNumbers items ↔ ∃ json ∈ items, n ∈ json.numbers := by
  induction items with
  | nil => simp [itemNumbers]
  | cons item items ih => simp [itemNumbers, ih]

theorem mem_fieldNumbers_iff {fields : List (String × Json)} {n : Number} :
    n ∈ fieldNumbers fields ↔ ∃ p ∈ fields, n ∈ p.2.numbers := by
  induction fields with
  | nil => simp [fieldNumbers]
  | cons p fields ih =>
    obtain ⟨name, value⟩ := p
    rw [fieldNumbers, List.mem_append, ih]
    simp only [List.mem_cons, exists_eq_or_imp]

end Capability.Json
