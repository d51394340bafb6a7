/-!
# Faults

A refused operation answers a `Fault`: a report of what went wrong, followed by the reports it was raised from. The
reports run from the outermost context to the root cause, so wrapping a fault puts one report in front of it and
loses none (`chain_wrap`, `root_wrap`).
-/

namespace Capability

/-! ## Areas and codes -/

/-- The part of the library that refused an operation. -/
inductive Fault.Area where
  /-- Property types, object types and commands. -/
  | commands
  /-- The state store and its change log. -/
  | state
  /-- Text that is not well-formed JSON. -/
  | json
  deriving DecidableEq, Repr

/-- The name of an area as clients see it. -/
def Fault.Area.text : Fault.Area → String
  | .commands => "commands"
  | .state => "state"
  | .json => "json"

/-- What went wrong, as a symbol that clients may rely on. -/
inductive Fault.Code where
  /-- A type name names no type. -/
  | unknownType
  /-- A definition does not tell the type of its property. -/
  | noTypeInfo
  /-- A JSON value has the wrong kind for its place. -/
  | typeMismatch
  /-- A derived definition changes the type that its base fixes. -/
  | typeChanged
  /-- A value, or a word such as the name of a role, is not acceptable. -/
  | invalidValue
  /-- The definition of a property is invalid. -/
  | invalidDefinition
  /-- The definition of a section of a command is invalid. -/
  | invalidObject
  /-- A command has no name, is unknown, or breaks the rule for custom names. -/
  | invalidCommandName
  /-- The `visibility` of a command is invalid. -/
  | invalidVisibility
  /-- The `minimalRole` of a command is invalid. -/
  | invalidRole
  /-- A property is not part of its object type. -/
  | unknownProperty
  /-- A definition has an attribute that its type does not understand. -/
  | unexpectedAttribute
  /-- A required property has neither a value nor a default. -/
  | propertyMissing
  /-- A value is outside its range or its length limits. -/
  | outOfRange
  /-- A command belongs to another category already. -/
  | duplicateCommand
  /-- The caller may not see or invoke the command. -/
  | accessDenied
  /-- A qualified name lacks its property part. -/
  | propertyNameMissing
  /-- A qualified name lacks its package part. -/
  | packageNameMissing
  /-- A state property, or its package, is not defined. -/
  | propertyNotDefined
  /-- A state property is defined twice. -/
  | propertyRedefined
  /-- The name of a state package is invalid. -/
  | invalidPackage
  /-- The name of a state category is invalid. -/
  | invalidCategory
  /-- A JSON object was expected. -/
  | objectExpected
  /-- A text is not well-formed JSON. -/
  | malformedJson
  deriving DecidableEq, Repr

/-- The symbol of a code as clients see it. -/
def Fault.Code.text : Fault.Code → String
  | .unknownType => "unknown_type"
  | .noTypeInfo => "no_type_info"
  | .typeMismatch => "type_mismatch"
  | .typeChanged => "param_type_changed"
  | .invalidValue => "invalid_parameter_value"
  | .invalidDefinition => "invalid_parameter_definition"
  | .invalidObject => "invalid_object_schema"
  | .invalidCommandName => "invalid_command_name"
  | .invalidVisibility => "invalid_command_visibility"
  | .invalidRole => "invalid_minimal_role"
  | .unknownProperty => "unknown_property"
  | .unexpectedAttribute => "unexpected_parameter"
  | .propertyMissing => "parameter_missing"
  | .outOfRange => "out_of_range"
  | .duplicateCommand => "duplicate_command_definition"
  | .accessDenied => "access_denied"
  | .propertyNameMissing => "property_name_missing"
  | .packageNameMissing => "package_name_missing"
  | .propertyNotDefined => "property_not_defined"
  | .propertyRedefined => "property_redefinition"
  | .invalidPackage => "invalid_package"
  | .invalidCategory => "invalid_category"
  | .objectExpected => "object_expected"
  | .malformedJson => "json_parse_error"

/-- Every code once, in the order of their definition. -/
def Fault.Code.all : List Fault.Code :=
  [.unknownType, .noTypeInfo, .typeMismatch, .typeChanged, .invalidValue, .invalidDefinition, .invalidObject,
    .invalidCommandName, .invalidVisibility, .invalidRole, .unknownProperty, .unexpectedAttribute, .propertyMissing,
    .outOfRange, .duplicateCommand, .accessDenied, .propertyNameMissing, .packageNameMissing, .propertyNotDefined,
    .propertyRedefined, .invalidPackage, .invalidCategory, .objectExpected, .malformedJson]

/-! ## Reports and their chains -/

/-- One link in the explanation of a fault. -/
structure Fault.Report where
  area : Fault.Area
  code : Fault.Code
  message : String
  deriving DecidableEq, Repr

/-- A report on one line. -/
def Fault.Report.text (r : Fault.Report) : String :=
  s!"{r.area.text}.{r.code.text}: {r.message}"

/-- Why an operation was refused: the outermost report and the reports it was raised from, the root cause last. -/
structure Fault where
  report : Fault.Report
  causes : List Fault.Report := []
  deriving DecidableEq, Repr

namespace Fault

/-- A fault of the definitions and commands, without a cause. -/
def ofCommands (code : Code) (message : String) : Fault :=
  ⟨⟨.commands, code, message⟩, []⟩

/-- A fault of the state, without a cause. -/
def ofState (code : Code) (message : String) : Fault :=
  ⟨⟨.state, code, message⟩, []⟩

/-- All reports, the outermost first. -/
def chain (f : Fault) : List Report :=
  f.report :: f.causes

/-- Raises a report from the fault. -/
def wrap (outer : Report) (f : Fault) : Fault :=
  ⟨outer, f.chain⟩

/-- Raises a report of the definitions and commands from the fault. -/
def inCommands (code : Code) (message : String) (f : Fault) : Fault :=
  f.wrap ⟨.commands, code, message⟩

/-- The fault that this one was raised from. -/
def cause? (f : Fault) : Option Fault :=
  match f.causes with
  | [] => none
  | r :: rs => some ⟨r, rs⟩

/-- The root cause: the last report of the chain. -/
def root (f : Fault) : Report :=
  f.causes.getLastD f.report

/-- Whether some report of the chain has the code. -/
def hasCode (f : Fault) (code : Code) : Bool :=
  f.chain.any (·.code == code)

@[simp] theorem chain_wrap (outer : Report) (f : Fault) : (f.wrap outer).chain = outer :: f.chain := rfl

@[simp] theorem cause?_wrap (outer : Report) (f : Fault) : (f.wrap outer).cause? = some f := rfl

@[simp] theorem root_wrap (outer : Report) (f : Fault) : (f.wrap outer).root = f.root := by
  cases f with
  | mk r rs => cases rs <;> simp [root, wrap, chain, List.getLastD]

end Fault

end Capability
