import Capability.Double.Basic

/-!
# Rounding and the range of integers

An integer that reaches a power of two is not rounded below it (`Double.le_units_ofInt`), since powers of two are
doubles. So the doubles nearest to the ends of the signed 64-bit range are known (`Double.units_ofInt_minValue`,
`Double.units_ofInt_maxValue`): the lower end is a double itself, and the upper end is rounded up to the first integer
beyond the range. A test against these two is therefore exact (`Double.toInt64?_eq_some_iff`), although one of them is
not the end that it is meant for.
-/

namespace Capability.Double

/-! ## Powers of two -/

theorem twoTo_add (m n : Nat) : twoTo (m + n) = twoTo m * twoTo n :=
  Nat.pow_add 2 m n

theorem twoTo_le {m n : Nat} (h : m ≤ n) : twoTo m ≤ twoTo n :=
  Nat.pow_le_pow_right (by decide) h

/-- What is within half a unit of the quotient is not below its integral part. -/
theorem div_le_roundDiv (num : Nat) {den : Nat} (hden : 0 < den) : num / den ≤ roundDiv num den := by
  have hhalf := @le_two_mul_roundDiv num den hden
  refine Nat.le_of_lt_succ ((Nat.div_lt_iff_lt_mul hden).2 ?_)
  rw [Nat.succ_mul, Nat.mul_comm]
  omega

section Rounding

variable {negative : Bool} {num den p : Nat} {d : Double}

theorem parts_of_ofParts? {m k : Nat} (h : ofParts? negative m k = some d) :
    d.negative = negative ∧ d.magnitude = m * twoTo k := by
  unfold ofParts? at h
  split at h
  · obtain rfl := Option.some.inj h
    exact ⟨rfl, rfl⟩
  · cases h

/-- **A quotient that reaches a power of two is not rounded below it**, and keeps its sign. -/
theorem le_magnitude_of_ofRatio? (hden : 0 < den) (hp : 52 ≤ p) (h : twoTo p * den ≤ num * one)
    (hd : ofRatio? negative num den = some d) : d.negative = negative ∧ twoTo p ≤ d.magnitude := by
  have hquotient : twoTo p ≤ num * one / den := (Nat.le_div_iff_mul_le hden).2 h
  have hpos : num * one / den ≠ 0 := Nat.ne_of_gt (Nat.lt_of_lt_of_le (twoTo_pos p) hquotient)
  have hlog : p ≤ Nat.log2 (num * one / den) := (Nat.le_log2 hpos).2 hquotient
  have hself : twoTo (Nat.log2 (num * one / den)) ≤ num * one / den := Nat.log2_self_le hpos
  obtain ⟨k, hk⟩ := Nat.exists_eq_add_of_le (Nat.le_trans hp hlog)
  simp only [ofRatio?, hk, Nat.add_sub_cancel_left] at hd
  rw [hk] at hlog hself
  -- the significand has all its bits, whether it is carried or not
  have hcarried : twoTo p ≤ twoTo 52 * twoTo k := twoTo_add 52 k ▸ twoTo_le hlog
  split at hd
  · obtain ⟨hsign, hmagnitude⟩ := parts_of_ofParts? hd
    have hm : twoTo 52 ≤ num * one / (den * twoTo k) := by
      rw [← Nat.div_div_eq_div_mul, Nat.le_div_iff_mul_le (twoTo_pos k), ← twoTo_add]
      exact hself
    have hscaled : 0 < den * twoTo k := Nat.mul_pos hden (twoTo_pos k)
    rw [hmagnitude]
    exact ⟨hsign, Nat.le_trans hcarried (Nat.mul_le_mul_right _ (Nat.le_trans hm (div_le_roundDiv _ hscaled)))⟩
  · obtain ⟨hsign, hmagnitude⟩ := parts_of_ofParts? hd
    rw [hmagnitude]
    exact ⟨hsign, Nat.le_trans hcarried (Nat.mul_le_mul_left _ (twoTo_le (Nat.le_succ k)))⟩

end Rounding

/-- **An integer that reaches a power of two is not rounded below it.** -/
theorem le_units_ofInt {p : Nat} {n : Int} (hp : p ≤ 1023) (h : (twoTo p : Int) ≤ n) :
    (twoTo p : Int) * one ≤ (ofInt n).units := by
  have hn : ¬n < 0 := Int.not_lt.2 (Int.le_trans (Int.natCast_nonneg _) h)
  obtain ⟨m, rfl⟩ := Int.eq_ofNat_of_zero_le (Int.not_lt.1 hn)
  have hone : twoTo p * one = twoTo (p + unitPlaces) := (twoTo_add p unitPlaces).symm
  rw [← Int.natCast_mul, hone, ofInt, decide_eq_false hn, Int.natAbs_natCast]
  cases hr : ofRatio? false m 1 with
  | none =>
    have hgreatest : twoTo (1023 + unitPlaces) ≤ (greatest false).magnitude := by decide +kernel
    exact Int.ofNat_le.2 (Nat.le_trans (twoTo_le (Nat.add_le_add_right hp _)) hgreatest)
  | some d =>
    have hreach : twoTo (p + unitPlaces) * 1 ≤ m * one := by
      rw [Nat.mul_one, ← hone]
      exact Nat.mul_le_mul_right _ (Int.ofNat_le.1 h)
    obtain ⟨hsign, hle⟩ := le_magnitude_of_ofRatio? Nat.one_pos (by unfold unitPlaces; omega) hreach hr
    rw [Option.getD_some, units, hsign]
    exact Int.ofNat_le.2 hle

/-! ## The signed 64-bit range -/

/-- The least signed 64-bit integer is a double. -/
theorem units_ofInt_minValue : (ofInt Int64.minValue.toInt).units = Int64.minValue.toInt * one := by
  decide +kernel

/-- The greatest signed 64-bit integer is rounded up, out of the range. -/
theorem units_ofInt_maxValue : (ofInt Int64.maxValue.toInt).units = (Int64.maxValue.toInt + 1) * one := by
  decide +kernel

/-- **A double is read as a 64-bit integer exactly when that is its value.** -/
theorem toInt64?_eq_some_iff {d : Double} {n : Int64} : d.toInt64? = some n ↔ d.units = n.toInt * one := by
  have hone : (0 : Int) < one := Int.natCast_pos.2 one_pos
  have hrange {i : Int} (hi : d.units = i * one) :
      (¬d < ofInt Int64.minValue.toInt ∧ d < ofInt Int64.maxValue.toInt) ↔
        Int64.minValue.toInt ≤ i ∧ i ≤ Int64.maxValue.toInt := by
    rw [lt_iff, lt_iff, units_ofInt_minValue, units_ofInt_maxValue, hi, Int.not_lt,
      Int.mul_le_mul_right hone, Int.mul_lt_mul_right hone, Int.lt_add_one_iff]
  constructor
  · intro h
    obtain ⟨i, hi, h⟩ := Option.bind_eq_some_iff.1 h
    have hunits := toInt?_eq_some_iff.1 hi
    split at h
    · rename_i hguard
      obtain ⟨hlow, hhigh⟩ := (hrange hunits).1 hguard
      obtain rfl := Option.some.inj h
      rw [Int64.toInt_ofInt_of_le hlow (Int.lt_of_le_sub_one hhigh)]
      exact hunits
    · cases h
  · intro h
    refine Option.bind_eq_some_iff.2 ⟨n.toInt, toInt?_eq_some_iff.2 h, ?_⟩
    rw [if_pos ((hrange h).2 ⟨n.minValue_le_toInt, n.toInt_le⟩), Int64.ofInt_toInt]

end Capability.Double
