import Capability.Fault
import Capability.Schema.Kind
import Capability.Text.Split

/-!
# Type names

A type name is a kind, or `array.` and the type name of the items. A dot at the end says that nothing follows, so
`array.` is the name of arrays with items of an unknown type.
-/

namespace Capability

/-- The name of a type: a kind, and for arrays possibly the type of the items. -/
inductive TypeName where
  | plain (kind : Kind)
  | arrayOf (items : TypeName)
  deriving DecidableEq, Repr

namespace TypeName

/-- The kind of the type. -/
def kind : TypeName → Kind
  | .plain kind => kind
  | .arrayOf _ => .array

/-- The name of the type of the items. -/
def items? : TypeName → Option TypeName
  | .plain _ => none
  | .arrayOf items => some items

/-- The dotted form. -/
def text : TypeName → String
  | .plain kind => kind.text
  | .arrayOf items => "array." ++ items.text

/-- The type name that has these parts between its dots. Only arrays may go on after their dot, unless what follows is
empty. -/
def ofParts? : List String → Option TypeName
  | [] => none
  | [part] => (Kind.ofText? part).map .plain
  | part :: rest => do
    let kind ← Kind.ofText? part
    if rest = [""] then return .plain kind
    else if kind = .array then return .arrayOf (← ofParts? rest)
    else none

/-- The type that a text names. -/
def ofText? (s : String) : Option TypeName :=
  ofParts? (Text.parts '.' s)

/-- The fault of a text that names no type. -/
def unknown (s : String) : Fault :=
  Fault.ofCommands .unknownType s!"Unknown type {s}"

/-- The type that a text names, or the fault that quotes the text. -/
def ofText (s : String) : Except Fault TypeName :=
  match ofText? s with
  | some name => .ok name
  | none => .error (unknown s)

end TypeName

/-- The kind that a text names, or the fault that quotes the text. -/
def Kind.ofText (s : String) : Except Fault Kind :=
  match Kind.ofText? s with
  | some kind => .ok kind
  | none => .error (TypeName.unknown s)

end Capability
