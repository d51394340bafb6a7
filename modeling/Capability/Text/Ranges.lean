/-!
# Sets of characters as ranges

A set of characters is listed as closed ranges of code points, in ascending order and with a gap between any two
(`Ranges.isApart`), so that a list says its set in one way only.
-/

namespace Capability.Text

/-- Closed ranges of code points. -/
abbrev Ranges := List (Nat × Nat)

namespace Ranges

/-- Whether a character is in one of the ranges. -/
def contains (ranges : Ranges) (c : Char) : Bool :=
  ranges.any fun r => r.1 ≤ c.toNat && c.toNat ≤ r.2

/-- Whether each range is not empty, and each but the first begins after a gap. -/
def isApart : Ranges → Bool
  | [] => true
  | [r] => r.1 ≤ r.2
  | r :: s :: rest => r.1 ≤ r.2 && r.2 + 1 < s.1 && isApart (s :: rest)

/-- How many code points the ranges hold. -/
def count : Ranges → Nat
  | [] => 0
  | r :: rest => r.2 + 1 - r.1 + count rest

end Ranges

end Capability.Text
