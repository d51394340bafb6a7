import Capability.Command.Basic
import Capability.Json.Tree

/-!
# Dictionaries of commands

A dictionary holds commands under their full names, `package.command`. Commands come in categories: a load gives all
commands of a category at once, in place of those it had, and is refused as a whole if one of them is wrong or belongs
to another category. Over a base dictionary each command either refines the base command of its name or has a name that
starts with `_`.
-/

namespace Capability

/-- Commands under their full names. -/
structure Dictionary where
  commands : Fields Command

namespace Dictionary

/-- The dictionary without commands. -/
def empty : Dictionary := ⟨[]⟩

/-- The command with a full name. -/
def get? (d : Dictionary) (name : String) : Option Command :=
  d.commands.get? name

/-- The full names in order. -/
def names (d : Dictionary) : List String :=
  d.commands.names

/-- How many commands there are. -/
def size (d : Dictionary) : Nat :=
  d.commands.length

/-! ## Faults -/

/-- The tree is not an object. -/
def notPackages (json : Json) : Fault :=
  .ofCommands .typeMismatch s!"Expecting an object of command packages, got {json.text}"

/-- A package is not an object. -/
def packageNotObject (package : String) : Fault :=
  .ofCommands .typeMismatch s!"Expecting an object for package '{package}'"

/-- A package has an empty name or a name with a dot. -/
def invalidPackage (package : String) : Fault :=
  .ofCommands .invalidCommandName s!"Invalid package name '{package}'"

/-- A command has an empty name. -/
def unnamed (package : String) : Fault :=
  .ofCommands .invalidCommandName s!"Unnamed command encountered in package '{package}'"

/-- The name of a command has a dot. -/
def dottedName (package command : String) : Fault :=
  .ofCommands .invalidCommandName s!"Command name '{command}' in package '{package}' must not contain '.'"

/-- The definition of a command is not an object. -/
def commandNotObject (name : String) : Fault :=
  .ofCommands .typeMismatch s!"Expecting an object for command '{name}'"

/-- A command that is not in the base does not start with `_`. -/
def invalidCustomName (package command : String) : Fault :=
  .ofCommands .invalidCommandName
    s!"The name of custom command '{command}' in package '{package}' must start with '_'"

/-- A command belongs to another category. -/
def duplicate (name owner : String) : Fault :=
  .ofCommands .duplicateCommand
    s!"Definition for command '{name}' overrides an earlier definition in category '{owner}'"

/-! ## Reading trees of commands -/

/-- The full name of a command. -/
def fullName (package command : String) : String :=
  package ++ "." ++ command

/-- Reads the definition of one command. -/
def readCommand (category : String) (base : Option Dictionary) (package command : String) (json : Json) :
    Except Fault Command :=
  let name := fullName package command
  let baseCommand := base.bind (·.get? name)
  if package = "" ∨ '.' ∈ package.toList then .error (invalidPackage package)
  else if command = "" then .error (unnamed package)
  else if '.' ∈ command.toList then .error (dottedName package command)
  else
    match json with
    | .object fields =>
      if base.isSome ∧ baseCommand.isNone ∧ command.toList.head? ≠ some '_' then
        .error (invalidCustomName package command)
      else Command.ofFields name category baseCommand fields
    | _ => .error (commandNotObject name)

/-- Reads the commands of a package. -/
def readPackage (category : String) (base : Option Dictionary) (package : String) :
    List (String × Json) → Except Fault (List (String × Command))
  | [] => .ok []
  | (command, json) :: rest => do
    let c ← readCommand category base package command json
    return (fullName package command, c) :: (← readPackage category base package rest)

/-- Reads the packages of a tree. -/
def readPackages (category : String) (base : Option Dictionary) :
    List (String × Json) → Except Fault (List (String × Command))
  | [] => .ok []
  | (package, .object commands) :: rest => do
    let list ← readPackage category base package commands
    return list ++ (← readPackages category base rest)
  | (package, _) :: _ => .error (packageNotObject package)

/-- The commands that a tree defines. -/
def readTree (category : String) (base : Option Dictionary) : Json → Except Fault (Fields Command)
  | .object packages => do return Fields.ofPairs (← readPackages category base packages)
  | json => .error (notPackages json)

/-! ## Loading -/

/-- The first of some commands that belongs to another category in the dictionary, with its owner. -/
def firstForeign? (d : Dictionary) (category : String) (loaded : Fields Command) : Option (String × String) :=
  loaded.findSome? fun entry =>
    (d.get? entry.1).bind fun c => if c.category = category then none else some (entry.1, c.category)

/-- Gives a category these commands, in place of those it had. -/
def replace (d : Dictionary) (category : String) (loaded : Fields Command) : Dictionary :=
  ⟨Fields.merge (d.commands.filter fun entry => entry.2.category ≠ category) loaded⟩

/-- Loads the commands of a category from a tree. -/
def load (d : Dictionary) (json : Json) (category : String) (base : Option Dictionary) : Except Fault Dictionary := do
  let loaded ← readTree category base json
  match d.firstForeign? category loaded with
  | some (name, owner) => .error (duplicate name owner)
  | none => return d.replace category loaded

/-- Loads the commands of a category from the text of a tree. -/
def loadText (d : Dictionary) (text category : String) (base : Option Dictionary) : Except Fault Dictionary := do
  d.load (← Json.read text) category base

/-! ## Writing -/

/-- Values under pairs of names, gathered by the first name. -/
def gather {α : Type} (entries : List ((String × String) × α)) : Fields (Fields α) :=
  entries.foldl (fun packages e => packages.put e.1.1 (((packages.get? e.1.1).getD []).put e.1.2 e.2)) []

/-- The commands that pass a test, as a tree of packages. -/
def toJson (form : Form) (keep : Command → Bool) (d : Dictionary) : Json :=
  let kept := d.commands.filter fun entry => keep entry.2
  let entries := kept.filterMap fun entry => (Text.first? '.' entry.1).map fun name => (name, entry.2.toJson form)
  .object ((gather entries).mapValues .object)

end Dictionary

end Capability
