import Capability.Command.Dictionary
import Capability.Proofs.Json

/-!
# Commands as they are listed

A dictionary is written as a tree of packages: each full name is parted at its first dot, and the commands are gathered
by the name of their package. Whatever commands there are, the tree has under two names the command of that full name,
if it passes the test (`Dictionary.property?_toJson`).
-/

namespace Capability.Dictionary

/-! ## Gathering -/

section Gather

variable {α : Type}

/-- The value under two names. -/
def find? (packages : Fields (Fields α)) (package command : String) : Option α :=
  (packages.get? package).bind fun commands => commands.get? command

/-- Putting one value under its two names leaves the others alone. -/
theorem find?_put (packages : Fields (Fields α)) (name : String × String) (value : α) (package command : String) :
    find? (packages.put name.1 (((packages.get? name.1).getD []).put name.2 value)) package command =
      if (package, command) = name then some value else find? packages package command := by
  obtain ⟨package', command'⟩ := name
  unfold find?
  rw [Fields.get?_put]
  by_cases hpackage : package = package'
  · obtain rfl := hpackage
    rw [if_pos rfl, Option.bind_some, Fields.get?_put]
    by_cases hcommand : command = command'
    · rw [if_pos hcommand, if_pos (by rw [hcommand])]
    · rw [if_neg hcommand, if_neg fun he => hcommand (Prod.mk.inj he).2]
      cases packages.get? package <;> rfl
  · rw [if_neg hpackage, if_neg fun he => hpackage (Prod.mk.inj he).1]

/-- **Of several values under two names the last one is found.** -/
theorem find?_gather (entries : List ((String × String) × α)) (package command : String) :
    find? (gather entries) package command = entries.reverse.lookup (package, command) := by
  suffices h : ∀ packages : Fields (Fields α),
      find? (entries.foldl (fun packages e => packages.put e.1.1 (((packages.get? e.1.1).getD []).put e.1.2 e.2))
        packages) package command =
        (entries.reverse.lookup (package, command)).or (find? packages package command) from
    (h []).trans (Option.or_none ..)
  induction entries with
  | nil => exact fun packages => rfl
  | cons e rest ih =>
    intro packages
    rw [List.foldl_cons, ih, find?_put, List.reverse_cons, List.lookup_append, Option.or_assoc]
    congr 1
    obtain ⟨name, value⟩ := e
    rw [List.lookup_cons, List.lookup_nil]
    by_cases he : (package, command) = name
    · rw [if_pos he, he, beq_self_eq_true]
      rfl
    · rw [if_neg he, beq_false_of_ne he]
      rfl

end Gather

/-! ## Full names -/

theorem first?_eq_iff {name package command : String} :
    Text.first? '.' name = some (package, command) ↔ '.' ∉ package.toList ∧ name = fullName package command :=
  Text.first?_eq_some_iff

/-- Looking up two names among parted full names is looking up the full name, if that is parted so. -/
theorem lookup_parted {α β : Type} (f : α → β) (entries : Fields α) (package command : String) :
    (entries.filterMap fun e => (Text.first? '.' e.1).map fun name => (name, f e.2)).lookup (package, command) =
      if '.' ∈ package.toList then none else (entries.get? (fullName package command)).map f := by
  induction entries with
  | nil => split <;> rfl
  | cons e rest ih =>
    obtain ⟨name, value⟩ := e
    rw [List.filterMap_cons, Fields.get?_cons]
    by_cases hparted : Text.first? '.' name = some (package, command)
    · obtain ⟨hdot, hname⟩ := first?_eq_iff.1 hparted
      rw [hparted, if_neg hdot, if_pos hname.symm]
      exact List.lookup_cons_self
    · have hrest : (if '.' ∈ package.toList then none else
          (if fullName package command = name then some value else Fields.get? rest (fullName package command)).map f) =
          if '.' ∈ package.toList then none else (Fields.get? rest (fullName package command)).map f := by
        by_cases hdot : '.' ∈ package.toList
        · rw [if_pos hdot, if_pos hdot]
        · rw [if_neg hdot, if_neg hdot, if_neg fun he => hparted (first?_eq_iff.2 ⟨hdot, he.symm⟩)]
      rw [hrest, ← ih]
      cases hfirst : Text.first? '.' name with
      | none => rfl
      | some parted =>
        have hne : (package, command) ≠ parted := by
          rintro rfl
          exact hparted hfirst
        show List.lookup _ ((parted, f value) :: _) = _
        rw [List.lookup_cons, beq_false_of_ne hne]

/-! ## Listings -/

/-- In a tree of packages a value lies where it is found under its two names. -/
theorem property?_packages (packages : Fields (Fields Json)) (package command : String) :
    (Json.object (packages.mapValues .object)).property? package command = find? packages package command := by
  show ((packages.mapValues Json.object).get? package).bind _ = _
  rw [Fields.get?_mapValues, find?]
  cases packages.get? package <;> rfl

/-- **Under two names a listing has the command of that full name, if it passes the test**; names of packages have no
dot. -/
theorem property?_toJson {d : Dictionary} (hd : d.commands.Sorted) (form : Form) (keep : Command → Bool)
    (package command : String) : (d.toJson form keep).property? package command =
      if '.' ∈ package.toList then none
      else ((d.get? (fullName package command)).filter keep).map (Command.toJson form) := by
  have hkept : Fields.Sorted (d.commands.filter fun entry => keep entry.2) := hd.filter _
  have hfound : (d.toJson form keep).property? package command = find? (gather
      ((d.commands.filter fun entry => keep entry.2).filterMap fun entry =>
        (Text.first? '.' entry.1).map fun name => (name, entry.2.toJson form))) package command :=
    property?_packages _ package command
  rw [hfound, find?_gather, ← List.filterMap_reverse, lookup_parted]
  unfold get?
  rw [hkept.get?_reverse, hd.get?_filter_value]

end Capability.Dictionary
