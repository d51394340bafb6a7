import Capability.Json.Basic

/-!
# Writing JSON

`Json.text` writes a value without blanks, the fields of objects in their order. Doubles always look like doubles, so
that reading keeps them apart from integers.
-/

namespace Capability.Json

/-! ## Strings -/

/-- The digit of a number below sixteen, in lower case. -/
def hexDigit (n : Nat) : Char :=
  (Nat.toDigits 16 n).headD '0'

/-- A character as it stands inside quotes: quotes, backslashes and control characters are escaped. -/
def escape (c : Char) : List Char :=
  if c = '"' then ['\\', '"']
  else if c = '\\' then ['\\', '\\']
  else if c = '\x08' then ['\\', 'b']
  else if c = '\x0c' then ['\\', 'f']
  else if c = '\n' then ['\\', 'n']
  else if c = '\r' then ['\\', 'r']
  else if c = '\t' then ['\\', 't']
  else if c.toNat < 0x20 then ['\\', 'u', '0', '0', hexDigit (c.toNat / 16), hexDigit (c.toNat % 16)]
  else [c]

/-- A string in quotes. -/
def quote (s : String) : String :=
  "\"" ++ String.ofList (s.toList.flatMap escape) ++ "\""

/-! ## Values -/

/-- Doubles are positional from `0.00001` up to sixteen digits before the point, and a whole number ends in `.0`. -/
def doubleLayout : Double.Layout where
  tie := .even
  positional e := decide (-5 ≤ e ∧ e ≤ 15)
  wholeMark := ".0"

/-- The text of a number. -/
def Number.text : Number → String
  | .integer n => toString n
  | .double d => d.text doubleLayout

mutual
/-- The compact text of a value. -/
def text : Json → String
  | .null => "null"
  | .bool true => "true"
  | .bool false => "false"
  | .number n => n.text
  | .string s => quote s
  | .array items => "[" ++ ",".intercalate (itemTexts items) ++ "]"
  | .object fields => "\x7b" ++ ",".intercalate (fieldTexts fields) ++ "\x7d"

/-- The texts of the items. -/
def itemTexts : List Json → List String
  | [] => []
  | item :: items => item.text :: itemTexts items

/-- The texts of the fields, each with its name. -/
def fieldTexts : List (String × Json) → List String
  | [] => []
  | (name, value) :: fields => (quote name ++ ":" ++ value.text) :: fieldTexts fields
end

end Capability.Json
