import Capability.Command.Role
import Capability.Command.Visibility
import Capability.Schema.Definition
import Capability.Schema.Writing

/-!
# Commands

A command takes parameters, reports its progress and ends with results. Each of these three parts has an object type.
-/

namespace Capability

/-- The parts of a command that carry values. -/
inductive Command.Part where
  | parameters
  | progress
  | results
  deriving DecidableEq, Repr

/-- The key of a part. -/
def Command.Part.text : Command.Part → String
  | .parameters => "parameters"
  | .progress => "progress"
  | .results => "results"

/-- The definition of a command. -/
structure Command where
  /-- Whose command it is: all commands of a category are loaded together. -/
  category : String
  parameters : ObjectType
  progress : ObjectType
  results : ObjectType
  visibility : Visibility
  /-- The least trusted role that may invoke the command. -/
  minimalRole : Role

namespace Command

/-- The object type of a part. -/
def type (c : Command) : Part → ObjectType
  | .parameters => c.parameters
  | .progress => c.progress
  | .results => c.results

/-- The JSON form of a part, where it is written: the parameters always, the others unless they are empty. -/
def partToJson? (form : Form) (c : Command) (part : Part) : Option Json :=
  if part ≠ .parameters ∧ (c.type part).properties.isEmpty then none else some ((c.type part).toJson form)

/-- The JSON form of a command. Its visibility is not part of it. -/
def toJson (form : Form) (c : Command) : Json :=
  .object <|
    [("minimalRole", some (.string c.minimalRole.text)), ("parameters", c.partToJson? form .parameters),
      ("progress", c.partToJson? form .progress), ("results", c.partToJson? form .results)].filterMap
      fun entry => entry.2.map fun json => (entry.1, json)

/-! ## Faults -/

/-- A part of the definition is not an object. -/
def partNotObject (part : Part) (json : Json) : Fault :=
  .ofCommands .typeMismatch s!"Expecting an object for '{part.text}', got {json.text}"

/-- A part of the definition is refused. -/
def invalidPart (name : String) (cause : Fault) : Fault :=
  cause.inCommands .invalidObject s!"Invalid definition for command '{name}'"

/-- A word is not a string. -/
def notString (json : Json) : Fault :=
  .ofCommands .typeMismatch s!"Expecting a string, got {json.text}"

/-- The visibility is refused. -/
def invalidVisibility (name : String) (cause : Fault) : Fault :=
  cause.inCommands .invalidVisibility s!"Error parsing command visibility for '{name}'"

/-- The minimal role is refused. -/
def invalidRole (name : String) (cause : Fault) : Fault :=
  cause.inCommands .invalidRole s!"Error parsing command minimal role for '{name}'"

/-! ## Reading -/

/-- Reads a part of a definition. A part that is left out is that of the base, or empty. -/
def readPart (name : String) (base : Option Command) (fields : Fields Json) (part : Part) : Except Fault ObjectType :=
  let type := base.map (·.type part)
  match fields.get? part.text with
  | none => .ok (type.getD .empty)
  | some (.object members) => (ObjectType.ofFields type members).mapError (invalidPart name)
  | some json => .error (invalidPart name (partNotObject part json))

/-- Reads a word of a definition. -/
def readWord {α : Type} (read : String → Except Fault α) : Json → Except Fault α
  | .string s => read s
  | json => .error (notString json)

/-- Reads the visibility. One that is left out is that of the base, or everywhere. -/
def readVisibility (name : String) (base : Option Command) (fields : Fields Json) : Except Fault Visibility :=
  match fields.get? "visibility" with
  | some json => (readWord Visibility.ofText json).mapError (invalidVisibility name)
  | none => .ok ((base.map (·.visibility)).getD .everywhere)

/-- Reads the minimal role. One that is left out is that of the base, or the user. -/
def readRole (name : String) (base : Option Command) (fields : Fields Json) : Except Fault Role :=
  match fields.get? "minimalRole" with
  | some json => (readWord Role.ofText json).mapError (invalidRole name)
  | none => .ok ((base.map (·.minimalRole)).getD .user)

/-- The command that a definition gives, over a base if there is one. Other keys of the definition do not matter. -/
def ofFields (name category : String) (base : Option Command) (fields : Fields Json) : Except Fault Command := do
  let parameters ← readPart name base fields .parameters
  let progress ← readPart name base fields .progress
  let results ← readPart name base fields .results
  let visibility ← readVisibility name base fields
  let minimalRole ← readRole name base fields
  return ⟨category, parameters, progress, results, visibility, minimalRole⟩

end Command

end Capability
