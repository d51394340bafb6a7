import Capability.Fault

/-!
# Roles

The roles of callers, from the least to the most trusted. Whoever has a role may do all that the roles below it may.
-/

namespace Capability

/-- The role of a caller. -/
inductive Role where
  /-- May only look. -/
  | viewer
  | user
  | manager
  /-- May do everything. -/
  | owner
  deriving DecidableEq, Repr

namespace Role

/-- The name of a role. -/
def text : Role → String
  | .viewer => "viewer"
  | .user => "user"
  | .manager => "manager"
  | .owner => "owner"

/-- Every role once, the least trusted first. -/
def all : List Role := [.viewer, .user, .manager, .owner]

/-- How far up the role is. -/
def rank : Role → Nat
  | .viewer => 0
  | .user => 1
  | .manager => 2
  | .owner => 3

instance : LE Role := ⟨fun a b => a.rank ≤ b.rank⟩

instance (a b : Role) : Decidable (a ≤ b) :=
  inferInstanceAs (Decidable (a.rank ≤ b.rank))

/-- The role with a name. -/
def ofText (s : String) : Except Fault Role :=
  match all.find? fun r => r.text == s with
  | some r => .ok r
  | none => .error (.ofCommands .invalidValue s!"Invalid role: '{s}'")

@[simp] theorem ofText_text (r : Role) : ofText r.text = .ok r := by
  cases r <;> rfl

theorem le_trans {a b c : Role} (h : a ≤ b) (h' : b ≤ c) : a ≤ c :=
  Nat.le_trans h h'

theorem le_owner (r : Role) : r ≤ .owner := by
  cases r <;> decide

end Role

end Capability
