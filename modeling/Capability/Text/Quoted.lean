import Capability.Text.Extending
import Capability.Text.Unseen

/-!
# Quoted texts

A text in quotes, with escapes for what cannot be seen: line breaks and other controls, blanks other than the space,
marks that join the character before them, and characters without a form of their own.
-/

namespace Capability.Text

/-- A character as it stands inside quotes. -/
def quotedChar (c : Char) : List Char :=
  if c = '"' ∨ c = '\\' then ['\\', c]
  else if c = '\n' then ['\\', 'n']
  else if c = '\r' then ['\\', 'r']
  else if c = '\t' then ['\\', 't']
  else if c = '\x00' then ['\\', '0']
  else if isExtending c || isUnseen c then ['\\', 'u', '{'] ++ Nat.toDigits 16 c.toNat ++ ['}']
  else [c]

/-- A text in quotes. -/
def quoted (s : String) : String :=
  "\"" ++ String.ofList (s.toList.flatMap quotedChar) ++ "\""

end Capability.Text
