import Capability.Proofs.Command.Listing
import Capability.Proofs.Command.Ownership
import Mathlib.Data.List.Induction

/-!
# Commands grouped by package

A listing parts full names at their first dot and groups the commands by the first part, so it is right only for names
that come from two names without dots. Whatever is loaded into a dictionary, all its names do
(`Dictionary.Named.first?_fullName`, `Dictionary.named_run`).

* `Dictionary.grouped_gather`, `Dictionary.count_gather`: gathering leaves no package empty, and of values under
  different names it loses none.
* `Dictionary.listing_spec`: a listing has exactly the commands that pass the test, each under its two names.
-/

namespace Capability

namespace Dictionary

/-! ## Gathering -/

section Gather

variable {α : Type} {packages : Fields (Fields α)}

/-- The packages are in order, and so is what is in them, which is never nothing. -/
structure Grouped (packages : Fields (Fields α)) : Prop where
  sorted : packages.Sorted
  package : ∀ p ∈ packages, p.2.Sorted ∧ p.2 ≠ []

/-- How many values there are in all packages. -/
def count (packages : Fields (Fields α)) : Nat :=
  (packages.map fun p => p.2.length).sum

theorem gather_concat (entries : List ((String × String) × α)) (e : (String × String) × α) :
    gather (entries ++ [e]) =
      (gather entries).put e.1.1 ((((gather entries).get? e.1.1).getD []).put e.1.2 e.2) :=
  List.foldl_concat ..

theorem Grouped.sorted_get? (h : Grouped packages) (package : String) :
    Fields.Sorted ((packages.get? package).getD []) := by
  cases hget : packages.get? package with
  | none => exact Fields.sorted_nil
  | some commands => exact (h.package _ (Fields.mem_of_get? hget)).1

/-- **Gathering leaves no package empty.** -/
theorem grouped_gather (entries : List ((String × String) × α)) : Grouped (gather entries) := by
  induction entries using List.reverseRecOn with
  | nil => exact ⟨Fields.sorted_nil, fun _ hp => absurd hp List.not_mem_nil⟩
  | append_singleton rest e ih =>
    rw [gather_concat]
    refine ⟨ih.sorted.put _ _, fun p hp => ?_⟩
    rcases Fields.mem_put hp with rfl | hp
    · exact ⟨(ih.sorted_get? e.1.1).put _ _, Fields.put_ne_nil _ _ _⟩
    · exact ih.package p hp

/-- **Of values under different names gathering loses none.** -/
theorem count_gather {entries : List ((String × String) × α)} (h : (entries.map (·.1)).Nodup) :
    count (gather entries) = entries.length := by
  induction entries using List.reverseRecOn with
  | nil => rfl
  | append_singleton rest e ih =>
    rw [List.map_append, List.nodup_append] at h
    obtain ⟨hrest, _, hnew⟩ := h
    have hgrouped := grouped_gather rest
    -- nothing was found under the two names before
    have hnone : find? (gather rest) e.1.1 e.1.2 = none := by
      have hlookup : rest.reverse.lookup e.1 = none := List.lookup_eq_none_iff.2 fun e' he' => by
        have hmem : e'.1 ∈ rest.map (·.1) := List.mem_map_of_mem (List.mem_reverse.1 he')
        exact bne_iff_ne.2 fun he => hnew _ hmem _ (List.mem_singleton.2 rfl) he.symm
      rw [find?_gather]
      exact hlookup
    have hsum := hgrouped.sorted.sum_put List.length e.1.1 ((((gather rest).get? e.1.1).getD []).put e.1.2 e.2)
    have hlength : ((((gather rest).get? e.1.1).getD []).put e.1.2 e.2).length =
        (((gather rest).get? e.1.1).getD []).length + 1 := by
      refine (hgrouped.sorted_get? e.1.1).length_put ?_ e.2
      cases hget : (gather rest).get? e.1.1 with
      | none => rfl
      | some commands =>
        rw [find?, hget] at hnone
        exact hnone
    have hold : (((gather rest).get? e.1.1).map List.length).getD 0 =
        (((gather rest).get? e.1.1).getD []).length := by
      cases (gather rest).get? e.1.1 <;> rfl
    have hrestcount : ((gather rest).map fun p => p.2.length).sum = rest.length := ih hrest
    rw [hlength, hold, hrestcount] at hsum
    rw [gather_concat, List.length_append, List.length_singleton, count]
    omega

end Gather

/-! ## Names -/

variable {package command : String}

theorem count_dot_fullName (package command : String) :
    (fullName package command).toList.count '.' =
      package.toList.count '.' + command.toList.count '.' + 1 := by
  simp [fullName, List.count_append]
  omega

/-- A full name is parted at its first dot into the two names that it is made of. -/
theorem Named.first?_fullName (h : Named package command) :
    Text.first? '.' (fullName package command) = some (package, command) :=
  first?_eq_iff.2 ⟨h.package_dot, rfl⟩

/-- Proper names are told by their full name. -/
theorem Named.fullName_inj (h : Named package command) {package' command' : String} (h' : Named package' command')
    (he : fullName package command = fullName package' command') : package = package' ∧ command = command' := by
  have hparted := h.first?_fullName
  rw [he, h'.first?_fullName] at hparted
  exact ⟨(Prod.mk.inj (Option.some.inj hparted)).1.symm, (Prod.mk.inj (Option.some.inj hparted)).2.symm⟩

/-- A full name of proper names is not made of other names. -/
theorem Named.not_mem_dot (h : Named package command) {package' command' : String}
    (he : fullName package' command' = fullName package command) : '.' ∉ package'.toList := by
  have hcount := congrArg (fun name : String => name.toList.count '.') he
  simp only [count_dot_fullName, List.count_eq_zero.2 h.package_dot, List.count_eq_zero.2 h.command_dot] at hcount
  exact List.count_eq_zero.1 (by omega)

/-! ## Listings -/

/-- Full names that can be parted are put together again from their parts. -/
theorem fullName_parted {α β : Type} (f : α → β) {entries : Fields α}
    (h : ∀ e ∈ entries, ∃ package command, Text.first? '.' e.1 = some (package, command)) :
    (entries.filterMap fun e => (Text.first? '.' e.1).map fun name => (name, f e.2)).map
      (fun e => fullName e.1.1 e.1.2) = entries.names := by
  induction entries with
  | nil => rfl
  | cons e rest ih =>
    obtain ⟨package, command, hparted⟩ := h e List.mem_cons_self
    have hrest := ih fun e' he' => h e' (List.mem_cons_of_mem _ he')
    rw [List.filterMap_cons, hparted]
    show fullName package command :: _ = e.1 :: Fields.names rest
    rw [← hrest, (first?_eq_iff.1 hparted).2]

/-- **Whatever was loaded, each full name is parted at its first dot into a proper package and a proper name. A listing
has under two names exactly the command of that full name, if it passes the test. None of its packages is empty, and it
has as many entries as commands pass the test.** -/
theorem listing_spec (calls : List Call) (form : Form) (keep : Command → Bool) :
    let d := (run calls).dictionary
    (∀ name c, d.get? name = some c →
      ∃ package command, Text.first? '.' name = some (package, command) ∧ Named package command) ∧
    (∀ package command, (d.toJson form keep).property? package command =
      ((d.get? (fullName package command)).filter keep).map (Command.toJson form)) ∧
    ∃ packages : Fields (Fields Json), d.toJson form keep = .object (packages.mapValues .object) ∧
      Grouped packages ∧ count packages = (d.commands.filter fun e => keep e.2).length := by
  intro d
  have hsorted : d.commands.Sorted := (owned_run calls).sorted
  have hparted : ∀ name c, d.get? name = some c →
      ∃ package command, Text.first? '.' name = some (package, command) ∧ Named package command := by
    intro name c hc
    obtain ⟨package, command, rfl, hnamed⟩ := named_run calls hc
    exact ⟨package, command, hnamed.first?_fullName, hnamed⟩
  refine ⟨hparted, fun package command => ?_, _, rfl, grouped_gather _, ?_⟩
  · rw [property?_toJson hsorted]
    split
    · rename_i hdot
      cases hget : d.get? (fullName package command) with
      | none => rfl
      | some c =>
        obtain ⟨package', command', he, hnamed⟩ := named_run calls hget
        exact absurd hdot (hnamed.not_mem_dot he)
    · rfl
  · have hkept : Fields.Sorted (d.commands.filter fun e => keep e.2) := hsorted.filter _
    have hkeptParted : ∀ e ∈ d.commands.filter fun e => keep e.2,
        ∃ package command, Text.first? '.' e.1 = some (package, command) := by
      intro e he
      obtain ⟨package, command, hfirst, _⟩ := hparted e.1 e.2 (hsorted.get?_of_mem (List.mem_filter.1 he).1)
      exact ⟨package, command, hfirst⟩
    have hnames := fullName_parted (Command.toJson form) hkeptParted
    have hlength := congrArg List.length hnames
    rw [List.length_map, Fields.names, List.length_map] at hlength
    rw [count_gather, hlength]
    -- the full names are different, so the parts are
    have hnodup := hkept.nodup_names
    rw [← hnames, ← Function.comp_def (fun n : String × String => fullName n.1 n.2), ← List.map_map] at hnodup
    exact List.Nodup.of_map _ hnodup

/-- Two commands of one package and one of another, of which the first is not seen by all. -/
example : (run [.load (.object [("base", .object [("halt", .object [("visibility", .string "none")]),
      ("reboot", .object [])]), ("lamp", .object [("blink", .object [])])]) "base" none]).dictionary.toJson .minimal
        (fun c => c.visibility.onCloud) =
    .object [("base", .object [("reboot", .object [("minimalRole", .string "user"), ("parameters", .object [])])]),
      ("lamp", .object [("blink", .object [("minimalRole", .string "user"), ("parameters", .object [])])])] :=
  rfl

end Dictionary

end Capability
