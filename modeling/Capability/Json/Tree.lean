import Capability.Fault
import Capability.Json.Token

/-!
# The trees of a JSON text

A `Tree` is a text after its grammar is checked and before it is taken for a value: the fields of objects are in the
order of the text, names may repeat, and strings and numbers that denote nothing are still there. `Tree.ofTokens?`
builds it from the tokens with a stack of the arrays and objects that are still open.

`Tree.toJson?` takes a tree for a value: the last of several fields with one name counts.
-/

namespace Capability.Json

/-- A JSON text as it is written. -/
inductive Tree where
  | null
  | bool (b : Bool)
  | number (n : Option Number)
  | string (s : Option String)
  | array (items : List Tree)
  | object (fields : List (Option String × Tree))

namespace Tree

/-! ## From tokens to trees -/

/-- An array or object that is open, with its finished members, the last first. -/
inductive Frame where
  | array (items : List Tree)
  /-- An object in which the value of the last name is due. -/
  | object (fields : List (Option String × Tree)) (name : Option String)

/-- What is due inside the innermost open array or object. -/
inductive Place where
  /-- A value. -/
  | value
  /-- A value, or the end of an array without items. -/
  | item
  /-- A name, or the end of an object without fields. -/
  | entry
  /-- A name, after the fields. -/
  | name (fields : List (Option String × Tree))
  /-- The colon after a name. -/
  | colon (fields : List (Option String × Tree)) (name : Option String)
  /-- What follows a finished tree. -/
  | after (tree : Tree)

/-- The state of the reading of tokens. -/
structure Reader where
  frames : List Frame
  place : Place

/-- Reads the first token of a value. -/
def Reader.start (frames : List Frame) : Token → Option Reader
  | .null => some ⟨frames, .after .null⟩
  | .bool b => some ⟨frames, .after (.bool b)⟩
  | .number n => some ⟨frames, .after (.number n)⟩
  | .string s => some ⟨frames, .after (.string s)⟩
  | .openArray => some ⟨.array [] :: frames, .item⟩
  | .openObject => some ⟨frames, .entry⟩
  | .closeArray | .closeObject | .comma | .colon => none

/-- Reads the token after a finished tree. -/
def Reader.next (tree : Tree) : List Frame → Token → Option Reader
  | .array items :: frames, .comma => some ⟨.array (tree :: items) :: frames, .value⟩
  | .array items :: frames, .closeArray => some ⟨frames, .after (.array (tree :: items).reverse)⟩
  | .object fields name :: frames, .comma => some ⟨frames, .name ((name, tree) :: fields)⟩
  | .object fields name :: frames, .closeObject =>
    some ⟨frames, .after (.object ((name, tree) :: fields).reverse)⟩
  | _, _ => none

/-- Reads one token. -/
def Reader.step (r : Reader) (t : Token) : Option Reader :=
  match r.place, t with
  | .value, t => Reader.start r.frames t
  | .item, .closeArray => some ⟨r.frames.tail, .after (.array [])⟩
  | .item, t => Reader.start r.frames t
  | .entry, .closeObject => some ⟨r.frames, .after (.object [])⟩
  | .entry, .string name => some ⟨r.frames, .colon [] name⟩
  | .name fields, .string name => some ⟨r.frames, .colon fields name⟩
  | .colon fields name, .colon => some ⟨.object fields name :: r.frames, .value⟩
  | .after tree, t => Reader.next tree r.frames t
  | _, _ => none

/-- The tree at the end of the tokens, when nothing is open. -/
def Reader.finish : Reader → Option Tree
  | ⟨[], .after tree⟩ => some tree
  | _ => none

/-- The tree of a list of tokens. -/
def ofTokens? (tokens : List Token) : Option Tree :=
  (tokens.foldlM Reader.step ⟨[], .value⟩).bind Reader.finish

/-- The tree of a text. -/
def ofText? (s : String) : Option Tree :=
  (Token.scan s).bind ofTokens?

/-! ## From trees to values -/

mutual
/-- The value of a tree with at most `levels` arrays and objects inside each other. There is none where a string or a
number denotes nothing. -/
def toJson? (levels : Nat) : Tree → Option Json
  | .null => some .null
  | .bool b => some (.bool b)
  | .number n => n.map .number
  | .string s => s.map .string
  | .array items => if levels = 0 then none else (itemsToJson? (levels - 1) items).map .array
  | .object fields =>
    if levels = 0 then none else (fieldsToJson? (levels - 1) fields).map fun pairs => .object (Fields.ofPairs pairs)

/-- The values of the items. -/
def itemsToJson? (levels : Nat) : List Tree → Option (List Json)
  | [] => some []
  | item :: items => do return (← item.toJson? levels) :: (← itemsToJson? levels items)

/-- The names and values of the fields. -/
def fieldsToJson? (levels : Nat) : List (Option String × Tree) → Option (List (String × Json))
  | [] => some []
  | (name, value) :: fields => do return (← name, ← value.toJson? levels) :: (← fieldsToJson? levels fields)
end

/-- How many arrays and objects may be inside each other. -/
def maxLevels : Nat := 127

end Tree

/-! ## Reading values -/

/-- The fault of a text that is not well-formed, or does not have the expected form. The text of its message is not
part of what clients may rely on. -/
def malformed : Fault :=
  ⟨⟨.json, .malformedJson, "malformed JSON"⟩, []⟩

/-- The value that a text denotes. -/
def read? (s : String) : Option Json :=
  (Tree.ofText? s).bind (Tree.toJson? Tree.maxLevels)

/-- The value that a text denotes, or the fault of a malformed text. -/
def read (s : String) : Except Fault Json :=
  match read? s with
  | some json => .ok json
  | none => .error malformed

end Capability.Json
