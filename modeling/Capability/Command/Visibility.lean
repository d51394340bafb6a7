import Capability.Fault
import Capability.Text.Blank
import Capability.Text.Split

/-!
# Visibility

A command is visible to local clients, to the cloud, to both or to nobody. A visibility is given as a list of words
between commas, and the list stands for the union of what its words stand for.
-/

namespace Capability

/-- The channels on which a command is visible. -/
structure Visibility where
  onLocal : Bool
  onCloud : Bool
  deriving DecidableEq, Repr

namespace Visibility

/-- Visible to nobody. -/
def nowhere : Visibility := ⟨false, false⟩

/-- Visible on every channel. -/
def everywhere : Visibility := ⟨true, true⟩

/-- Visible wherever one of the two is. -/
def union (a b : Visibility) : Visibility :=
  ⟨a.onLocal || b.onLocal, a.onCloud || b.onCloud⟩

/-- The name of a visibility. -/
def text : Visibility → String
  | ⟨false, false⟩ => "none"
  | ⟨true, false⟩ => "local"
  | ⟨false, true⟩ => "cloud"
  | ⟨true, true⟩ => "all"

/-- Every visibility once. -/
def all : List Visibility := [⟨false, false⟩, ⟨true, false⟩, ⟨false, true⟩, ⟨true, true⟩]

/-- The visibility with a name. -/
def ofWord? (s : String) : Option Visibility :=
  all.find? fun v => v.text == s

/-- The union of the visibilities that words stand for; the first word that is no name is refused. -/
def ofWords : List String → Except Fault Visibility
  | [] => .ok nowhere
  | word :: words =>
    match ofWord? word with
    | some v => do return v.union (← ofWords words)
    | none => .error (.ofCommands .invalidValue s!"Invalid command visibility value '{word}'")

/-- The visibility that a text stands for: words between commas, with blanks around them. -/
def ofText (s : String) : Except Fault Visibility :=
  ofWords ((Text.parts ',' s).map Text.trim)

@[simp] theorem ofWord?_text (v : Visibility) : ofWord? v.text = some v := by
  obtain ⟨_ | _, _ | _⟩ := v <;> rfl

@[simp] theorem nowhere_union (v : Visibility) : nowhere.union v = v := rfl

theorem union_assoc (a b c : Visibility) : (a.union b).union c = a.union (b.union c) := by
  simp [union, Bool.or_assoc]

theorem union_comm (a b : Visibility) : a.union b = b.union a := by
  simp [union, Bool.or_comm]

end Visibility

end Capability
