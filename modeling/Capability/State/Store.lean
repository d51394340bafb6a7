import Capability.State.Package

/-!
# The state store

The store holds the packages of state and the names of the loaded categories. Its properties go by qualified names,
`package.property`. Every operation is all or nothing: it answers the new store, or a fault.
-/

namespace Capability

/-- The state of a device: its packages by name, and the names of the loaded categories. -/
structure Store where
  packages : Fields Package
  categories : Fields Unit

namespace Store

/-- The store without packages. -/
def empty : Store := ⟨[], []⟩

/-! ## Faults -/

/-- The name of a category is empty. -/
def emptyCategory : Fault :=
  .ofState .invalidCategory "State category name is empty"

/-- The tree is not an object. -/
def notPackages (json : Json) : Fault :=
  .ofState .objectExpected s!"Expecting an object of state packages, got {json.text}"

/-- The name of a package is empty. -/
def emptyPackage : Fault :=
  .ofState .invalidPackage "State package name is empty"

/-- A package is not an object. -/
def packageNotObject (name : String) : Fault :=
  .ofState .objectExpected s!"State package '{name}' must be an object"

/-- There is no such package to give initial values to. -/
def undefinedPackage (name : String) : Fault :=
  .ofState .propertyNotDefined s!"Providing values for undefined state package '{name}'"

/-- There is no such package. -/
def unknownPackage (name : String) : Fault :=
  .ofState .propertyNotDefined s!"Unknown state property package '{name}'"

/-- There is no such property. -/
def unknownProperty (name : String) : Fault :=
  .ofState .propertyNotDefined s!"State property '{name}' is not defined"

/-- A qualified name has no property part. -/
def noPropertyName : Fault :=
  .ofState .propertyNameMissing "Property name is missing"

/-- A qualified name has no package part. -/
def noPackageName : Fault :=
  .ofState .packageNameMissing "Package name is missing in the property name"

/-! ## Names and trees -/

/-- The qualified name of a property. -/
def qualify (package property : String) : String :=
  package ++ "." ++ property

/-- The package and the property of a qualified name, which are parted by its first dot. -/
def splitName (name : String) : Except Fault (String × String) :=
  match Text.first? '.' name with
  | some (package, property) =>
    if property = "" then .error noPropertyName
    else if package = "" then .error noPackageName
    else .ok (package, property)
  | none => if name = "" then .error noPropertyName else .error noPackageName

/-- The packages of a tree. -/
def packagesOf : Json → Except Fault (Fields Json)
  | .object packages => .ok packages
  | json => .error (notPackages json)

/-- The properties of a package in a tree. -/
def propertiesOf (name : String) (json : Json) : Except Fault (Fields Json) :=
  if name = "" then .error emptyPackage
  else
    match json with
    | .object properties => .ok properties
    | _ => .error (packageNotObject name)

/-! ## Declaring -/

/-- Declares the properties of packages one after the other; a package appears with its first properties. -/
def declareAll (packages : Fields Package) : List (String × Json) → Except Fault (Fields Package)
  | [] => .ok packages
  | (name, json) :: rest => do
    let definitions ← propertiesOf name json
    let package ← ((packages.get? name).getD (.empty name)).declare definitions
    declareAll (packages.put name package) rest

/-- Loads the definitions of a category. -/
def load (s : Store) (json : Json) (category : String) : Except Fault Store := do
  if category = "" then .error emptyCategory
  else
    let packages ← declareAll s.packages (← packagesOf json)
    return ⟨packages, s.categories.put category ()⟩

/-- Sets the values of packages one after the other. -/
def presetAll (packages : Fields Package) : List (String × Json) → Except Fault (Fields Package)
  | [] => .ok packages
  | (name, json) :: rest => do
    let values ← propertiesOf name json
    match packages.get? name with
    | some package => presetAll (packages.put name (← package.setAll values)) rest
    | none => .error (undefinedPackage name)

/-- Sets values without taking it for a change of the state. -/
def preset (s : Store) (json : Json) : Except Fault Store := do
  return { s with packages := ← presetAll s.packages (← packagesOf json) }

/-! ## Values -/

/-- The package with a name. -/
def package (s : Store) (name : String) : Except Fault Package :=
  match s.packages.get? name with
  | some p => .ok p
  | none => .error (unknownPackage name)

/-- The value of a property. -/
def get (s : Store) (name : String) : Except Fault Value := do
  let (package, property) ← splitName name
  match (← s.package package).get? property with
  | some value => .ok value
  | none => .error (unknownProperty name)

/-- Stores a value, if the store has the package. -/
def put (s : Store) (package property : String) (value : Value) : Store :=
  match s.packages.get? package with
  | some p => { s with packages := s.packages.put package (p.store property value) }
  | none => s

/-- The store after an update, and the updated properties by their qualified names. -/
structure Update where
  store : Store
  changed : Fields Json

/-- Sets one property. -/
def set (s : Store) (name : String) (json : Json) : Except Fault Update := do
  let (package, property) ← splitName name
  let (p, value) ← (← s.package package).set property json
  return ⟨{ s with packages := s.packages.put package p }, [(name, value.toJson)]⟩

/-- The values that a tree of packages sets, each with the package and the name of its property. -/
def checkAll (s : Store) : List (String × Json) → Except Fault (List ((String × String) × Value))
  | [] => .ok []
  | (name, json) :: rest => do
    let given ← propertiesOf name json
    let values ← (← s.package name).checkAll given
    return values.map (fun v => ((name, v.1), v.2)) ++ (← s.checkAll rest)

/-- Sets several properties at once. There is no update where none is named. -/
def setAll (s : Store) (json : Json) : Except Fault (Option Update) := do
  match ← s.checkAll (← packagesOf json) with
  | [] => return none
  | values =>
    return some
      ⟨values.foldl (fun s v => s.put v.1.1 v.1.2 v.2) s,
        Fields.ofPairs (values.map fun v => (qualify v.1.1 v.1.2, v.2.toJson))⟩

/-! ## Writing -/

/-- The values of all properties by package. -/
def toJson (s : Store) : Json :=
  .object (s.packages.mapValues Package.toJson)

/-- The definitions of all properties by package. -/
def definitions (form : Form) (s : Store) : Json :=
  .object (s.packages.mapValues (Package.definitions form))

end Store

end Capability
