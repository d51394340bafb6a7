import Capability.Proofs.Schema.Conformance
import Capability.Proofs.Schema.Overlay
import Capability.Proofs.Schema.Refusals

/-!
# Numbers that are taken for integers

A number is taken for an integer in three places: as a value of an integer type, as a limit on such values, and as a
limit on the length of strings. In all of them it is taken for its exact value or refused
(`Json.Number.integer_spec`), whether it is written as an integer, signed or unsigned, or as a double: nothing is
rounded to an integer, held back at an end of the range, or carried over to the other one.

* `Bounds.readLimit_ok_iff`, `Length.ofJson_ok_iff`: which limits are read from a number.
-/

namespace Capability

open Conversion

namespace Conversion

/-- A value is refused for not being allowed only with the list of those that are. -/
theorem checkAllowed_error {allowed : Option (Attribute (List Value))} {json : Json} {v : Value} {f : Fault}
    (h : checkAllowed allowed json v = .error f) : ∃ list, f = notAllowed json list := by
  unfold checkAllowed at h
  split at h
  · cases h
  · split at h
    · cases h
    · exact ⟨_, (Except.error.inj h).symm⟩

end Conversion

/-- A limit on integers is the exact value of the number that gives it. -/
theorem Bounds.readLimit_ok_iff {key : String} {num : Json.Number} {n : Int64} :
    Bounds.readLimit key (.number num) = .ok n ↔ num.units = n.toInt * Double.one := by
  rw [← Json.Number.toInt64?_eq_some_iff]
  refine ⟨Bounds.readLimit_ok, fun h => ?_⟩
  have hread : Numeral.ofJson? (Json.number num) = some n := h
  rw [readLimit, hread]

/-- A limit on lengths is the exact value of the number that gives it. -/
theorem Length.ofJson_ok_iff {key : String} {num : Json.Number} {length : Length} :
    Length.ofJson key (.number num) = .ok length ↔ num.units = (length.val : Int) * Double.one := by
  constructor
  · intro h
    obtain ⟨n, hn, hlength⟩ := Length.ofJson_ok h
    rw [← hlength]
    exact Json.Number.toInt64?_eq_some_iff.1 hn
  · intro h
    have hread : (Json.number num).toInt64? = some (Int64.ofInt length.val) :=
      Json.Number.toInt64?_eq_some_iff.2 (by rw [length.toInt_ofInt]; exact h)
    simp only [ofJson, hread, ofInt64?_ofInt]

namespace Property

variable {p : Property} {range : Bounds Int64} {num : Json.Number} {v : Value}

/-- A type of integers takes a number for its exact value, if this is allowed. -/
theorem convert_integer_ok_iff :
    convert { p with shape := .integer range } (.number num) = .ok v ↔
      ∃ n : Int64, v = .integer n ∧ num.units = n.toInt * Double.one ∧ range.Within Int64.toInt n.toInt ∧
        p.Allows v := by
  rw [convert_ok_iff, Shape.convert_ok_iff]
  constructor
  · rintro ⟨hmakes, hallowed⟩
    cases hmakes with
    | integer hn hcheck =>
      exact ⟨_, rfl, Json.Number.toInt64?_eq_some_iff.1 hn,
        (Bounds.check_ok_iff fun _ _ => Int64.lt_iff_toInt_lt).1 hcheck, allows_iff.2 hallowed⟩
  · rintro ⟨n, rfl, hunits, hwithin, hallowed⟩
    exact ⟨.integer (Json.Number.toInt64?_eq_some_iff.2 hunits)
      ((Bounds.check_ok_iff fun _ _ => Int64.lt_iff_toInt_lt).2 hwithin), allows_iff.1 hallowed⟩

/-- A type of integers refuses with a mismatch the numbers that are no integer of 64 bits, and no others: an integer
outside its range, or one that is not allowed, is refused for that. -/
theorem convert_integer_mismatch_iff :
    convert { p with shape := .integer range } (.number num) = .error (mismatch (.number num) (.plain .integer)) ↔
      ∀ n : Int64, num.units ≠ n.toInt * Double.one := by
  rw [convert_eq]
  cases hread : num.toInt64? with
  | none =>
    refine iff_of_true ?_ fun n hn => ?_
    · simp only [Shape.convert, Json.toInt64?, hread]
      rfl
    · rw [Json.Number.toInt64?_eq_some_iff.2 hn] at hread
      cases hread
  | some n =>
    refine iff_of_false (fun h => ?_) fun h => h n (Json.Number.toInt64?_eq_some_iff.1 hread)
    simp only [Shape.convert, Json.toInt64?, hread] at h
    rcases Fault.bind_error_iff.1 h with h | ⟨w, _, h⟩
    · rcases Fault.bind_error_iff.1 h with h | ⟨_, _, h⟩
      · obtain ⟨_, hrange⟩ := Bounds.check_error h
        have hcode : Fault.Code.typeMismatch = .outOfRange := congrArg (·.report.code) hrange
        cases hcode
      · cases h
    · obtain ⟨list, hallowed⟩ := checkAllowed_error h
      have hcode : Fault.Code.typeMismatch = .invalidValue := congrArg (·.report.code) hallowed
      cases hcode

end Property

/-- **A number is read as an integer exactly if its value is one from `-2 ^ 63` to `2 ^ 63 - 1`, and then as this one.**
So an integer type takes a number for its exact value, if the range and the list of allowed values admit it, and refuses
with a mismatch exactly the numbers that have no such value; and a limit on integers or on lengths is the exact value of
the number that gives it. -/
theorem Json.Number.integer_spec (num : Json.Number) :
    (∀ i : Int, (∃ n : Int64, (Json.number num).toInt64? = some n ∧ n.toInt = i) ↔
      num.units = i * Double.one ∧ -9223372036854775808 ≤ i ∧ i ≤ 9223372036854775807) ∧
    (∀ (p : Property) (range : Bounds Int64) (v : Value),
      Property.convert { p with shape := .integer range } (.number num) = .ok v ↔
        ∃ n : Int64, v = .integer n ∧ num.units = n.toInt * Double.one ∧ range.Within Int64.toInt n.toInt ∧
          p.Allows v) ∧
    (∀ (p : Property) (range : Bounds Int64),
      Property.convert { p with shape := .integer range } (.number num) =
          .error (mismatch (.number num) (.plain .integer)) ↔
        ∀ n : Int64, num.units ≠ n.toInt * Double.one) ∧
    (∀ (key : String) (n : Int64), Bounds.readLimit key (.number num) = .ok n ↔
      num.units = n.toInt * Double.one) ∧
    ∀ (key : String) (length : Length), Length.ofJson key (.number num) = .ok length ↔
      num.units = (length.val : Int) * Double.one := by
  refine ⟨fun i => ?_, fun _ _ _ => Property.convert_integer_ok_iff,
    fun _ _ => Property.convert_integer_mismatch_iff, fun _ _ => Bounds.readLimit_ok_iff,
    fun _ _ => Length.ofJson_ok_iff⟩
  constructor
  · rintro ⟨n, hn, rfl⟩
    exact ⟨toInt64?_eq_some_iff.1 hn, n.minValue_le_toInt, n.toInt_le⟩
  · rintro ⟨hunits, hlow, hhigh⟩
    have hi : (Int64.ofInt i).toInt = i := Int64.toInt_ofInt_of_le hlow (Int.lt_of_le_sub_one hhigh)
    exact ⟨Int64.ofInt i, toInt64?_eq_some_iff.2 (by rw [hi]; exact hunits), hi⟩

/-- At the lower end of the range, at the upper end, and just beyond it: the double nearest to the greatest integer and
the least unsigned integer that is not signed are both refused. -/
example : (Json.double (.ofInt (-9223372036854775808))).toInt64? = some (-9223372036854775808) ∧
    (Json.integer 9223372036854775807).toInt64? = some 9223372036854775807 ∧
    (Json.double (.ofInt 9223372036854775807)).toInt64? = none ∧
    (Json.integer 9223372036854775808).toInt64? = none := by decide +kernel

end Capability
