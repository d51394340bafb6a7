import Capability.Json.Basic

/-!
# The tokens of a JSON text

`Token.scan` cuts a text into tokens, one character at a time: the state between two characters is the kind of token
they are in (`Token.Mode`). Strings and numbers that follow the grammar but denote nothing, a lone half of a surrogate
pair or a number beyond the doubles, are tokens without a value, so that a reader may skip over them.
-/

namespace Capability.Json

/-- A token of a JSON text. -/
inductive Token where
  | openArray
  | closeArray
  | openObject
  | closeObject
  | comma
  | colon
  | null
  | bool (b : Bool)
  | number (n : Option Number)
  | string (s : Option String)

namespace Token

/-! ## Numbers -/

/-- The number that a list of digits denotes. -/
def digitsValue (digits : List Char) : Nat :=
  digits.foldl (fun n c => 10 * n + (c.toNat - '0'.toNat)) 0

/-- The parts of a number literal. -/
structure Literal where
  negative : Bool
  whole : List Char
  fraction : Option (List Char)
  exponent : Option Int

/-- The exponent after its `e`: an optional sign and at least one digit. -/
def exponentValue? (cs : List Char) : Option Int :=
  let (negative, digits) :=
    match cs with
    | '-' :: ds => (true, ds)
    | '+' :: ds => (false, ds)
    | ds => (false, ds)
  if digits ≠ [] ∧ digits.all Char.isDigit then
    some (if negative then -(digitsValue digits : Int) else digitsValue digits)
  else none

/-- What follows the digits of a literal: nothing, or an `e` and an exponent. -/
def exponentPart? : List Char → Option (Option Int)
  | [] => some none
  | c :: cs => if c = 'e' ∨ c = 'E' then (exponentValue? cs).map some else none

/-- The parts of a literal after its sign. A leading zero stands alone, and a point has digits on both sides. -/
def Literal.ofUnsigned? (negative : Bool) (cs : List Char) : Option Literal := do
  let whole := cs.takeWhile Char.isDigit
  if whole = [] ∨ whole.length ≠ 1 ∧ whole.head? = some '0' then none
  else
    match cs.dropWhile Char.isDigit with
    | '.' :: rest =>
      let fraction := rest.takeWhile Char.isDigit
      if fraction = [] then none
      else return ⟨negative, whole, some fraction, ← exponentPart? (rest.dropWhile Char.isDigit)⟩
    | rest => return ⟨negative, whole, none, ← exponentPart? rest⟩

/-- The parts of a literal. -/
def Literal.ofChars? : List Char → Option Literal
  | '-' :: cs => Literal.ofUnsigned? true cs
  | cs => Literal.ofUnsigned? false cs

/-- The number that digits denote after those that denote `n`, as far as 64 bits hold it, and how many were read. -/
def leadingDigits (n : Nat) : List Char → Nat × Nat
  | [] => (n, 0)
  | c :: cs =>
    let next := 10 * n + (c.toNat - '0'.toNat)
    if next < UInt64.size then
      let (value, count) := leadingDigits next cs
      (value, count + 1)
    else (n, 0)

/-- The number of a literal: an integer when it has neither fraction nor exponent, fits 64 bits, signed or unsigned,
and is not a negative zero; else a double, if it is within the range. Digits that 64 bits do not hold count only as
places. -/
def Literal.value? (l : Literal) : Option Number :=
  let digits := digitsValue l.whole
  let n : Int := if l.negative then -(digits : Int) else digits
  let isWhole := l.fraction.isNone && l.exponent.isNone && !(l.negative && digits == 0)
  if isWhole ∧ Int64.minValue.toInt ≤ n ∧ n < UInt64.size then some (.integer n)
  else
    let (whole, read) := leadingDigits 0 l.whole
    let (significand, places) := leadingDigits whole (l.fraction.getD [])
    let exponent := l.exponent.getD 0 + (l.whole.length - read : Nat) - places
    (Double.ofDecimal? l.negative significand exponent).map .double

/-- The token of a run of characters outside quotes. -/
def ofWord? (cs : List Char) : Option Token :=
  if cs = ['n', 'u', 'l', 'l'] then some .null
  else if cs = ['t', 'r', 'u', 'e'] then some (.bool true)
  else if cs = ['f', 'a', 'l', 's', 'e'] then some (.bool false)
  else (Literal.ofChars? cs).map fun l => .number l.value?

/-! ## Strings -/

/-- A part of a string: a character, or the UTF-16 unit of an escape. -/
inductive Piece where
  | char (c : Char)
  | unit (n : Nat)

/-- The characters of a string; none when a surrogate lacks its partner. -/
def Piece.decode? : List Piece → Option (List Char)
  | [] => some []
  | .char c :: rest => (Piece.decode? rest).map (c :: ·)
  | .unit n :: rest =>
    if 0xD800 ≤ n ∧ n < 0xDC00 then
      match rest with
      | .unit m :: rest =>
        if 0xDC00 ≤ m ∧ m < 0xE000 then
          (Piece.decode? rest).map (Char.ofNat (0x10000 + (n - 0xD800) * 0x400 + (m - 0xDC00)) :: ·)
        else none
      | _ => none
    else if 0xDC00 ≤ n ∧ n < 0xE000 then none
    else (Piece.decode? rest).map (Char.ofNat n :: ·)

/-- The token of a string from its parts, the last first. -/
def ofPieces (reversed : List Piece) : Token :=
  .string ((Piece.decode? reversed.reverse).map String.ofList)

/-- The character that a one-letter escape stands for. -/
def escaped? (c : Char) : Option Char :=
  match c with
  | '"' => some '"'
  | '\\' => some '\\'
  | '/' => some '/'
  | 'b' => some '\x08'
  | 'f' => some '\x0c'
  | 'n' => some '\n'
  | 'r' => some '\r'
  | 't' => some '\t'
  | _ => none

/-- The value of a hexadecimal digit. -/
def hexValue? (c : Char) : Option Nat :=
  if '0' ≤ c ∧ c ≤ '9' then some (c.toNat - '0'.toNat)
  else if 'a' ≤ c ∧ c ≤ 'f' then some (c.toNat - 'a'.toNat + 10)
  else if 'A' ≤ c ∧ c ≤ 'F' then some (c.toNat - 'A'.toNat + 10)
  else none

/-! ## Scanning -/

/-- The kind of token that the scan is in. Lists have the last character first. -/
inductive Mode where
  /-- Between two tokens. -/
  | gap
  /-- In a number or a name. -/
  | word (chars : List Char)
  /-- In a string. -/
  | quoted (pieces : List Piece)
  /-- After a backslash. -/
  | escape (pieces : List Piece)
  /-- In the four digits of an escaped unit, of which `count` have been read. -/
  | code (pieces : List Piece) (value count : Nat)

/-- The state of a scan: the finished tokens, the last first, and the token under way. -/
structure Scan where
  tokens : List Token
  mode : Mode

/-- The blanks of JSON. -/
def isBlank (c : Char) : Bool :=
  c == ' ' || c == '\t' || c == '\n' || c == '\r'

/-- The tokens of a single character. -/
def ofMark? (c : Char) : Option Token :=
  match c with
  | '[' => some .openArray
  | ']' => some .closeArray
  | '{' => some .openObject
  | '}' => some .closeObject
  | ',' => some .comma
  | ':' => some .colon
  | _ => none

/-- Reads a character between two tokens. -/
def Scan.start (tokens : List Token) (c : Char) : Scan :=
  if isBlank c then ⟨tokens, .gap⟩
  else if c = '"' then ⟨tokens, .quoted []⟩
  else
    match ofMark? c with
    | some t => ⟨t :: tokens, .gap⟩
    | none => ⟨tokens, .word [c]⟩

/-- Whether a character ends a run of characters outside quotes. -/
def endsWord (c : Char) : Bool :=
  isBlank c || c == '"' || (ofMark? c).isSome

/-- Reads one character. -/
def Scan.step (s : Scan) (c : Char) : Option Scan :=
  match s.mode with
  | .gap => some (Scan.start s.tokens c)
  | .word chars =>
    if endsWord c then (ofWord? chars.reverse).map fun t => Scan.start (t :: s.tokens) c
    else some ⟨s.tokens, .word (c :: chars)⟩
  | .quoted pieces =>
    if c = '"' then some ⟨ofPieces pieces :: s.tokens, .gap⟩
    else if c = '\\' then some ⟨s.tokens, .escape pieces⟩
    else if c.toNat < 0x20 then none
    else some ⟨s.tokens, .quoted (.char c :: pieces)⟩
  | .escape pieces =>
    if c = 'u' then some ⟨s.tokens, .code pieces 0 0⟩
    else (escaped? c).map fun e => ⟨s.tokens, .quoted (.char e :: pieces)⟩
  | .code pieces value count =>
    (hexValue? c).map fun d =>
      if count < 3 then ⟨s.tokens, .code pieces (16 * value + d) (count + 1)⟩
      else ⟨s.tokens, .quoted (.unit (16 * value + d) :: pieces)⟩

/-- The tokens at the end of the text. -/
def Scan.finish (s : Scan) : Option (List Token) :=
  match s.mode with
  | .gap => some s.tokens.reverse
  | .word chars => (ofWord? chars.reverse).map fun t => (t :: s.tokens).reverse
  | _ => none

/-- The tokens of a text. -/
def scan (s : String) : Option (List Token) :=
  (s.toList.foldlM Scan.step ⟨[], .gap⟩).bind Scan.finish

end Token

end Capability.Json
