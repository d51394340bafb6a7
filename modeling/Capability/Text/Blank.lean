import Capability.Text.Ranges

/-!
# Blanks

The blank characters are those with the property `White_Space`, which is more than the blanks of ASCII.
-/

namespace Capability.Text

/-- The characters with the property `White_Space`. -/
def blanks : Ranges :=
  [(0x9, 0xD), (0x20, 0x20), (0x85, 0x85), (0xA0, 0xA0), (0x1680, 0x1680), (0x2000, 0x200A), (0x2028, 0x2029),
    (0x202F, 0x202F), (0x205F, 0x205F), (0x3000, 0x3000)]

/-- Whether a character is blank. -/
def isBlank (c : Char) : Bool :=
  blanks.contains c

example : blanks.isApart = true := by decide

example : blanks.count = 25 := by decide

/-- The text without the blanks at its ends. -/
def trim (s : String) : String :=
  String.ofList ((s.toList.dropWhile isBlank).reverse.dropWhile isBlank).reverse

end Capability.Text
