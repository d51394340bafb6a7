/-!
# Attributes and where they come from

A definition may rest on a base. Each attribute of the result remembers whether the definition gave it or it was taken
over, because the minimal written form holds only what the definition itself gave.
-/

namespace Capability

/-- How much of a definition is written: every attribute, or only those that it gave itself. -/
inductive Form where
  | full
  | minimal
  deriving DecidableEq, Repr

/-- The value of an attribute, and whether it was taken over from the base. -/
structure Attribute (α : Type) where
  value : α
  inherited : Bool
  deriving DecidableEq

namespace Attribute

variable {α β : Type}

/-- An attribute that the definition gives itself. -/
def own (value : α) : Attribute α :=
  ⟨value, false⟩

/-- The attribute as a derived definition takes it over. -/
def inherit (a : Attribute α) : Attribute α :=
  ⟨a.value, true⟩

/-- The attribute with its value seen through a function. -/
def map (f : α → β) (a : Attribute α) : Attribute β :=
  ⟨f a.value, a.inherited⟩

/-- The value, where the form writes the attribute. -/
def written? (form : Form) (a : Attribute α) : Option α :=
  if form = .full ∨ a.inherited = false then some a.value else none

/-- Whether two attributes have the same value, wherever it comes from. -/
def same (eq : α → α → Bool) (a b : Attribute α) : Bool :=
  eq a.value b.value

/-- Whether an optional attribute is there and given by the definition itself. -/
def isOwn (a? : Option (Attribute α)) : Bool :=
  a?.any fun a => !a.inherited

/-- Whether two optional attributes have the same value, or are both missing. -/
def same? (eq : α → α → Bool) : Option (Attribute α) → Option (Attribute α) → Bool
  | none, none => true
  | some a, some b => a.same eq b
  | _, _ => false

@[simp] theorem value_own (value : α) : (own value).value = value := rfl

@[simp] theorem value_inherit (a : Attribute α) : a.inherit.value = a.value := rfl

@[simp] theorem inherit_inherit (a : Attribute α) : a.inherit.inherit = a.inherit := rfl

@[simp] theorem isOwn_map_inherit (a? : Option (Attribute α)) : isOwn (a?.map inherit) = false := by
  cases a? <;> rfl

end Attribute

end Capability
