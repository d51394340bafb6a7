import Capability.Proofs.Command.Reading
import Capability.Proofs.Command.Visibility
import Capability.Proofs.Schema.Rejections

/-!
# Why a load is refused

A tree of commands is read entry by entry, in the order of the names (`Dictionary.readPackages_eq`), and the first entry
that is refused answers for the tree. Only a tree without one can collide with the commands of another category, and the
least name that does answers for it (`Dictionary.load_error_cases`).

* `Dictionary.refused_spec`: what the chain of reports of a refused load holds, and what it is about.
-/

namespace Capability

theorem Visibility.error_of_ofWords {words : List String} {f : Fault} (h : Visibility.ofWords words = .error f) :
    ∃ message, f = .ofCommands .invalidValue message := by
  obtain ⟨_, _, _, _, _, _, rfl⟩ := ofWords_error_iff.1 h
  exact ⟨_, rfl⟩

theorem Role.error_of_ofText {text : String} {f : Fault} (h : Role.ofText text = .error f) :
    ∃ message, f = .ofCommands .invalidValue message := by
  unfold Role.ofText at h
  split at h
  · cases h
  · exact ⟨_, (Except.error.inj h).symm⟩

/-! ## Definitions of commands -/

namespace Command

variable {f : Fault}

/-- The fault may be that of the definition of a command: it is about the names or the definition as a whole, or was
raised from the fault of a part or of a word. -/
inductive Rejects : Fault → Prop
  | whole {code : Fault.Code} {message : String} (h : code ∈ [Fault.Code.typeMismatch, .invalidCommandName]) :
      Rejects (.ofCommands code message)
  | part {cause : Fault} {message : String} (hcause : cause.Rejects)
      (h : cause.report.code ∈ [Fault.Code.typeMismatch, .invalidDefinition]) :
      Rejects (cause.inCommands .invalidObject message)
  | word {code inner : Fault.Code} {message innerMessage : String}
      (hcode : code ∈ [Fault.Code.invalidVisibility, .invalidRole])
      (h : inner ∈ [Fault.Code.typeMismatch, .invalidValue]) :
      Rejects ((Fault.ofCommands inner innerMessage).inCommands code message)

/-- The codes of the outermost reports on a definition. -/
def rejections : List Fault.Code :=
  [.typeMismatch, .invalidCommandName, .invalidObject, .invalidVisibility, .invalidRole]

/-! ### What the chain holds -/

theorem Rejects.reports (h : Rejects f) : f.Reports fun _ => True := by
  cases h with
  | whole => exact Fault.reports_ofCommands trivial
  | part hcause => exact (hcause.mono fun _ _ => trivial).inCommands trivial _
  | word => exact (Fault.reports_ofCommands trivial).inCommands trivial _

theorem Rejects.code_mem (h : Rejects f) : f.report.code ∈ rejections := by
  cases h with
  | @whole code message h =>
    have hall : ∀ code ∈ [Fault.Code.typeMismatch, .invalidCommandName], code ∈ rejections := by decide
    exact hall code h
  | part =>
    have hmem : Fault.Code.invalidObject ∈ rejections := by decide
    exact hmem
  | @word code inner message innerMessage hcode =>
    have hall : ∀ code ∈ [Fault.Code.invalidVisibility, .invalidRole], code ∈ rejections := by decide
    exact hall code hcode

theorem Rejects.code_ne (h : Rejects f) : f.report.code ≠ .duplicateCommand := by
  have hall : ∀ code ∈ rejections, code ≠ .duplicateCommand := by decide
  exact hall f.report.code h.code_mem

theorem Rejects.causes (h : Rejects f) : ∀ r ∈ f.causes, r.code ∈ Definition.rejections := by
  cases h with
  | whole => exact fun _ hr => absurd hr List.not_mem_nil
  | part hcause => exact fun r hr => (hcause r hr).2
  | @word code inner message innerMessage hcode h =>
    have hall : ∀ code ∈ [Fault.Code.typeMismatch, .invalidValue], code ∈ Definition.rejections := by decide
    intro r hr
    obtain rfl := List.mem_singleton.1 hr
    exact hall inner h

theorem Rejects.cause_of_invalidObject (h : Rejects f) (hcode : f.report.code = .invalidObject) :
    ∃ cause, f.cause? = some cause ∧ cause.report.code ∈ [Fault.Code.typeMismatch, .invalidDefinition] := by
  cases h with
  | @whole code message h =>
    have hall : ∀ code ∈ [Fault.Code.typeMismatch, .invalidCommandName], code ≠ .invalidObject := by decide
    exact absurd hcode (hall code h)
  | @part cause message hcause h => exact ⟨cause, rfl, h⟩
  | @word code inner message innerMessage h =>
    have hall : ∀ code ∈ [Fault.Code.invalidVisibility, .invalidRole], code ≠ .invalidObject := by decide
    exact absurd hcode (hall code h)

theorem Rejects.cause_of_word (h : Rejects f) (hcode : f.report.code ∈ [Fault.Code.invalidVisibility, .invalidRole]) :
    ∃ cause, f.cause? = some cause ∧ cause.report.code ∈ [Fault.Code.typeMismatch, .invalidValue] := by
  cases h with
  | @whole code message h =>
    have hall : ∀ code ∈ [Fault.Code.typeMismatch, .invalidCommandName],
      code ∉ [Fault.Code.invalidVisibility, .invalidRole] := by decide
    exact absurd hcode (hall code h)
  | part =>
    have hno : Fault.Code.invalidObject ∉ [Fault.Code.invalidVisibility, .invalidRole] := by decide
    exact absurd hcode hno
  | word _ h => exact ⟨_, rfl, h⟩

/-! ### Reading -/

variable {name category : String} {base : Option Command} {fields : Fields Json}

theorem rejects_of_readPart {part : Part} (h : readPart name base fields part = .error f) : Rejects f := by
  unfold readPart at h
  simp only at h
  split at h
  · cases h
  · obtain ⟨cause, hcause, rfl⟩ := Fault.mapError_error_iff.1 h
    obtain ⟨hrejects, hcode⟩ := ObjectType.rejects_of_ofFields hcause
    exact .part hrejects (List.mem_cons_of_mem _ (List.mem_singleton.2 hcode))
  · obtain rfl := Except.error.inj h
    exact .part (Fault.reports_ofCommands (by decide)) List.mem_cons_self

/-- A word is refused because it is no string, or none that is known. -/
theorem rejects_of_readWord {α : Type} {read : String → Except Fault α} {json : Json} {code : Fault.Code}
    {message : String} (hread : ∀ s f, read s = .error f → ∃ message, f = .ofCommands .invalidValue message)
    (hcode : code ∈ [Fault.Code.invalidVisibility, .invalidRole])
    (h : (readWord read json).mapError (·.inCommands code message) = .error f) : Rejects f := by
  obtain ⟨cause, hcause, rfl⟩ := Fault.mapError_error_iff.1 h
  cases json with
  | string s =>
    obtain ⟨inner, rfl⟩ := hread s cause hcause
    exact .word hcode (by decide)
  | _ =>
    obtain rfl := Except.error.inj hcause
    exact .word hcode List.mem_cons_self

theorem rejects_of_readVisibility (h : readVisibility name base fields = .error f) : Rejects f := by
  unfold readVisibility at h
  split at h
  · exact rejects_of_readWord (fun _ _ => Visibility.error_of_ofWords) (by decide) h
  · cases h

theorem rejects_of_readRole (h : readRole name base fields = .error f) : Rejects f := by
  unfold readRole at h
  split at h
  · exact rejects_of_readWord (fun _ _ => Role.error_of_ofText) (by decide) h
  · cases h

theorem rejects_of_ofFields (h : Command.ofFields name category base fields = .error f) : Rejects f := by
  rcases Fault.bind_error_iff.1 h with h | ⟨_, _, h⟩
  · exact rejects_of_readPart h
  rcases Fault.bind_error_iff.1 h with h | ⟨_, _, h⟩
  · exact rejects_of_readPart h
  rcases Fault.bind_error_iff.1 h with h | ⟨_, _, h⟩
  · exact rejects_of_readPart h
  rcases Fault.bind_error_iff.1 h with h | ⟨_, _, h⟩
  · exact rejects_of_readVisibility h
  rcases Fault.bind_error_iff.1 h with h | ⟨_, _, h⟩
  · exact rejects_of_readRole h
  · cases h

end Command

namespace Dictionary

variable {category : String} {base : Option Dictionary} {f : Fault}

theorem rejects_of_readCommand {package command : String} {json : Json}
    (h : readCommand category base package command json = .error f) : Command.Rejects f := by
  unfold readCommand at h
  simp only at h
  split at h
  · exact Except.error.inj h ▸ .whole (by decide)
  split at h
  · exact Except.error.inj h ▸ .whole (by decide)
  split at h
  · exact Except.error.inj h ▸ .whole (by decide)
  split at h
  · split at h
    · exact Except.error.inj h ▸ .whole (by decide)
    · exact Command.rejects_of_ofFields h
  · exact Except.error.inj h ▸ .whole (by decide)

/-! ## Entries of a tree -/

/-- An entry of a tree: the definition of a command, or what stands in the place of a package. -/
inductive Entry where
  | command (package name : String) (json : Json)
  | other (package : String)

namespace Entry

/-- The name of the package. -/
def package : Entry → String
  | .command package _ _ => package
  | .other package => package

/-- The name of the command, if it is one. -/
def name : Entry → String
  | .command _ name _ => name
  | .other _ => ""

/-- The entry comes before another by the names of their packages, and then by their own. -/
def Before (a b : Entry) : Prop :=
  a.package < b.package ∨ a.package = b.package ∧ a.name < b.name

/-- Reads the entry. -/
def read (category : String) (base : Option Dictionary) : Entry → Except Fault (String × Command)
  | .command package name json => do return (fullName package name, ← readCommand category base package name json)
  | .other package => .error (packageNotObject package)

theorem rejects_of_read {e : Entry} (h : e.read category base = .error f) : Command.Rejects f := by
  cases e with
  | command package name json =>
    rcases Fault.bind_error_iff.1 h with h | ⟨_, _, h⟩
    · exact rejects_of_readCommand h
    · cases h
  | other package => exact Except.error.inj h ▸ .whole (by decide)

end Entry

/-- The entries of a tree in order. -/
def entries : List (String × Json) → List Entry
  | [] => []
  | (package, .object commands) :: rest => commands.map (fun c => .command package c.1 c.2) ++ entries rest
  | (package, _) :: rest => .other package :: entries rest

theorem readPackage_eq (category : String) (base : Option Dictionary) (package : String)
    (commands : List (String × Json)) : readPackage category base package commands =
      (commands.map fun c => Entry.command package c.1 c.2).mapM (Entry.read category base) := by
  induction commands with
  | nil => rfl
  | cons c rest ih =>
    obtain ⟨name, json⟩ := c
    rw [readPackage, ih, List.map_cons, List.mapM_cons]
    show _ = ((readCommand category base package name json >>= _) >>= _)
    rw [bind_assoc]
    rfl

/-- **A tree is read entry by entry.** -/
theorem readPackages_eq (category : String) (base : Option Dictionary) (packages : List (String × Json)) :
    readPackages category base packages = (entries packages).mapM (Entry.read category base) := by
  induction packages with
  | nil => rfl
  | cons p rest ih =>
    obtain ⟨package, json⟩ := p
    cases json with
    | object commands => rw [readPackages, entries, List.mapM_append, readPackage_eq, ih]
    | _ => rfl

theorem package_mem_of_mem_entries {packages : List (String × Json)} {e : Entry} (he : e ∈ entries packages) :
    e.package ∈ Fields.names packages := by
  induction packages with
  | nil => cases he
  | cons p rest ih =>
    obtain ⟨package, json⟩ := p
    have hrest (he : e ∈ entries rest) : e.package ∈ Fields.names ((package, json) :: rest) :=
      List.mem_cons_of_mem _ (ih he)
    cases json with
    | object commands =>
      rcases List.mem_append.1 he with he | he
      · obtain ⟨c, _, rfl⟩ := List.mem_map.1 he
        exact List.mem_cons_self
      · exact hrest he
    | _ =>
      rcases List.mem_cons.1 he with rfl | he
      · exact List.mem_cons_self
      · exact hrest he

/-- The entries of a tree in order stand in order. -/
theorem entries_ordered {packages : Fields Json} (h : (Json.object packages).Sorted) :
    (entries packages).Pairwise Entry.Before := by
  induction packages with
  | nil => exact .nil
  | cons p rest ih =>
    obtain ⟨package, json⟩ := p
    have hrest : (Json.object rest).Sorted := ⟨h.1.tail, h.2.2⟩
    have hlt : ∀ e ∈ entries rest, package < e.package := by
      intro e he
      obtain ⟨q, hq, hname⟩ := List.mem_map.1 (package_mem_of_mem_entries he)
      exact hname ▸ h.1.lt_of_mem hq
    cases json with
    | object commands =>
      have hcommands : (Json.object commands).Sorted := h.2.1
      refine List.pairwise_append.2 ⟨?_, ih hrest, fun a ha b hb => ?_⟩
      · exact List.pairwise_map.2 (hcommands.1.imp fun hab => .inr ⟨rfl, hab⟩)
      · obtain ⟨c, _, rfl⟩ := List.mem_map.1 ha
        exact .inl (hlt b hb)
    | _ => exact List.pairwise_cons.2 ⟨fun e he => .inl (hlt e he), ih hrest⟩

/-! ## Collisions -/

/-- A command of the tree has a name that belongs to another category, its owner. -/
def Collides (d : Dictionary) (category : String) (packages : List (String × Json)) (name owner : String) : Prop :=
  (∃ package command json, Entry.command package command json ∈ entries packages ∧ name = fullName package command) ∧
    ∃ c, d.get? name = some c ∧ c.category = owner ∧ owner ≠ category

theorem fullName_of_read {e : Entry} {name : String} {c : Command} (h : e.read category base = .ok (name, c)) :
    ∃ package command json, e = .command package command json ∧ name = fullName package command := by
  cases e with
  | command package command json =>
    obtain ⟨c', _, h⟩ := Fault.bind_ok_iff.1 h
    exact ⟨package, command, json, rfl, (Prod.mk.inj (Except.ok.inj h)).1.symm⟩
  | other package => cases h

/-- The commands that are read have the names that the tree gives them. -/
theorem mem_names_iff_of_read {packages : List (String × Json)} {pairs : List (String × Command)}
    (h : (entries packages).mapM (Entry.read category base) = .ok pairs) {name : String} :
    name ∈ (Fields.ofPairs pairs).names ↔
      ∃ package command json, Entry.command package command json ∈ entries packages ∧
        name = fullName package command := by
  rw [Fields.mem_names_ofPairs_iff]
  constructor
  · intro hname
    obtain ⟨⟨name, c⟩, hm, rfl⟩ := List.mem_map.1 hname
    obtain ⟨e, he, hread⟩ := Fault.exists_of_mem_mapM h hm
    obtain ⟨package, command, json, rfl, hname⟩ := fullName_of_read hread
    exact ⟨package, command, json, he, hname⟩
  · rintro ⟨package, command, json, he, rfl⟩
    obtain ⟨⟨name, c⟩, hm, hread⟩ := Fault.exists_left_of_mem (Fault.mapM_ok_iff.1 h).flip he
    obtain ⟨_, _, _, hentry, rfl⟩ := fullName_of_read hread
    obtain ⟨rfl, rfl, rfl⟩ := Entry.command.inj hentry
    exact List.mem_map_of_mem hm

/-- The collision that is found is that of the least name. -/
theorem collides_of_firstForeign? {d : Dictionary} {packages : List (String × Json)}
    {pairs : List (String × Command)} (h : (entries packages).mapM (Entry.read category base) = .ok pairs)
    {name owner : String} (hforeign : d.firstForeign? category (Fields.ofPairs pairs) = some (name, owner)) :
    d.Collides category packages name owner ∧
      ∀ name' owner', d.Collides category packages name' owner' → name ≤ name' := by
  obtain ⟨before, entry, after, hsplit, hentry, hbefore⟩ := List.findSome?_eq_some_iff.1 hforeign
  obtain ⟨c, hc, hcategory⟩ := Option.bind_eq_some_iff.1 hentry
  split at hcategory
  · cases hcategory
  rename_i hne
  obtain ⟨rfl, rfl⟩ := Prod.mk.inj (Option.some.inj hcategory)
  constructor
  · refine ⟨(mem_names_iff_of_read h).1 ?_, c, hc, rfl, hne⟩
    rw [hsplit]
    exact List.mem_map_of_mem (List.mem_append_right before List.mem_cons_self)
  · rintro name' owner' ⟨hname', c', hc', rfl, hne'⟩
    have hsorted : Fields.Sorted (before ++ entry :: after) := hsplit ▸ Fields.Sorted.ofPairs pairs
    have hmem := (mem_names_iff_of_read h).2 hname'
    rw [hsplit] at hmem
    obtain ⟨entry', hentry', rfl⟩ := List.mem_map.1 hmem
    rcases List.mem_append.1 hentry' with hentry' | hentry'
    · -- what comes before collides with nothing
      have hnone := hbefore entry' hentry'
      rw [hc', Option.bind_some, if_neg hne'] at hnone
      cases hnone
    · rcases List.mem_cons.1 hentry' with rfl | hentry'
      · exact String.le_refl _
      · have hafter : Fields.Sorted (entry :: after) := (List.pairwise_append.1 hsorted).2.1
        have hlt : entry.1 < entry'.1 := hafter.lt_of_mem hentry'
        exact String.not_lt.1 fun hgt => String.lt_irrefl _ (String.lt_trans hlt hgt)

/-! ## Loads -/

variable {d : Dictionary} {packages : List (String × Json)}

/-- **The first entry that is refused answers for the tree**, whatever comes after it and whatever the dictionary
holds. -/
theorem load_of_refused {before after : List Entry} {e : Entry} (hsplit : entries packages = before ++ e :: after)
    (hbefore : ∀ e' ∈ before, ∃ entry, e'.read category base = .ok entry) (he : e.read category base = .error f) :
    d.load (.object packages) category base = .error f := by
  have hread : readPackages category base packages = .error f := by
    rw [readPackages_eq]
    exact Fault.mapM_error_iff.2 ⟨before, e, after, hsplit, hbefore, he⟩
  exact Fault.bind_error_iff.2 (.inl (Fault.bind_error_iff.2 (.inl hread)))

/-- A load is refused because the tree is no object, for the first entry that is refused, or for a collision. -/
theorem load_error_cases {json : Json} (h : d.load json category base = .error f) :
    ((∀ packages, json ≠ .object packages) ∧ f = notPackages json) ∨
    (∃ packages before e after, json = .object packages ∧ entries packages = before ++ e :: after ∧
      (∀ e' ∈ before, ∃ entry, e'.read category base = .ok entry) ∧ e.read category base = .error f) ∨
    ∃ packages name owner, json = .object packages ∧
      (∀ e ∈ entries packages, ∃ entry, e.read category base = .ok entry) ∧ f = duplicate name owner ∧
      d.Collides category packages name owner ∧
      ∀ name' owner', d.Collides category packages name' owner' → name ≤ name' := by
  rcases Fault.bind_error_iff.1 h with h | ⟨loaded, hloaded, h⟩
  · cases json with
    | object packages =>
      rcases Fault.bind_error_iff.1 h with h | ⟨_, _, h⟩
      · rw [readPackages_eq] at h
        obtain ⟨before, e, after, hsplit, hbefore, he⟩ := Fault.mapM_error_iff.1 h
        exact .inr (.inl ⟨packages, before, e, after, rfl, hsplit, hbefore, he⟩)
      · cases h
    | _ => exact .inl ⟨nofun, (Except.error.inj h).symm⟩
  · cases json with
    | object packages =>
      obtain ⟨pairs, hpairs, hloaded⟩ := Fault.bind_ok_iff.1 hloaded
      obtain rfl := Except.ok.inj hloaded
      rw [readPackages_eq] at hpairs
      split at h
      · rename_i name owner hforeign
        obtain ⟨hcollides, hleast⟩ := collides_of_firstForeign? hpairs hforeign
        refine .inr (.inr ⟨packages, name, owner, rfl, fun e he => ?_, (Except.error.inj h).symm, hcollides, hleast⟩)
        obtain ⟨entry, _, hread⟩ := Fault.exists_left_of_mem (Fault.mapM_ok_iff.1 hpairs).flip he
        exact ⟨entry, hread⟩
      · cases h
    | _ => cases hloaded

/-- **Why a load is refused.** All reports of the chain are about definitions and commands; the outermost one has one of
six codes, and the others have those of definitions. An invalid part was raised from a wrong kind or an invalid member,
an invalid visibility or role from a wrong kind or an unknown word. A duplicate is reported only if every entry of the
tree can be read, and then it is that of the least name that belongs to another category. Any other fault is that of the
first entry that cannot be read, if the tree is an object at all; any other tree that goes as far and any other
dictionary give the same one. The entries of a tree in order are read in the order of their names. -/
theorem refused_spec {json : Json} (h : d.load json category base = .error f) :
    (∀ r ∈ f.chain, r.area = .commands) ∧ f.report.code ∈ .duplicateCommand :: Command.rejections ∧
    (∀ r ∈ f.causes, r.code ∈ Definition.rejections) ∧
    (f.report.code = .invalidObject → ∃ cause, f.cause? = some cause ∧
      cause.report.code ∈ [Fault.Code.typeMismatch, .invalidDefinition]) ∧
    (f.report.code ∈ [Fault.Code.invalidVisibility, .invalidRole] → ∃ cause, f.cause? = some cause ∧
      cause.report.code ∈ [Fault.Code.typeMismatch, .invalidValue]) ∧
    (f.report.code = .duplicateCommand → ∃ packages name owner, json = .object packages ∧
      (∀ e ∈ entries packages, ∃ entry, e.read category base = .ok entry) ∧ f = duplicate name owner ∧
      d.Collides category packages name owner ∧
      ∀ name' owner', d.Collides category packages name' owner' → name ≤ name') ∧
    (f.report.code ≠ .duplicateCommand → (∀ packages, json ≠ .object packages) ∧ f = notPackages json ∨
      ∃ packages before e after, json = .object packages ∧ entries packages = before ++ e :: after ∧
        e.read category base = .error f ∧ (∀ e' ∈ before, ∃ entry, e'.read category base = .ok entry) ∧
        (json.Sorted → (∀ e' ∈ before, e'.Before e) ∧ ∀ e' ∈ after, e.Before e') ∧
        ∀ (d' : Dictionary) packages' after', entries packages' = before ++ e :: after' →
          d'.load (.object packages') category base = .error f) := by
  rcases load_error_cases h with ⟨hjson, rfl⟩ | ⟨packages, before, e, after, rfl, hsplit, hbefore, he⟩ |
    ⟨packages, name, owner, rfl, hvalid, rfl, hcollides, hleast⟩
  · have hrejects : Command.Rejects (notPackages json) := .whole List.mem_cons_self
    exact ⟨fun r hr => (hrejects.reports r hr).1, List.mem_cons_of_mem _ hrejects.code_mem, hrejects.causes,
      hrejects.cause_of_invalidObject, hrejects.cause_of_word, nofun, fun _ => .inl ⟨hjson, rfl⟩⟩
  · have hrejects : Command.Rejects f := Entry.rejects_of_read he
    refine ⟨fun r hr => (hrejects.reports r hr).1, List.mem_cons_of_mem _ hrejects.code_mem, hrejects.causes,
      hrejects.cause_of_invalidObject, hrejects.cause_of_word, fun hcode => absurd hcode hrejects.code_ne,
      fun _ => .inr ⟨packages, before, e, after, rfl, hsplit, he, hbefore, fun hs => ?_,
        fun d' packages' after' hsplit' => load_of_refused hsplit' hbefore he⟩⟩
    have hordered := entries_ordered hs
    rw [hsplit] at hordered
    obtain ⟨_, hafter, hacross⟩ := List.pairwise_append.1 hordered
    exact ⟨fun e' he' => hacross e' he' e List.mem_cons_self, (List.pairwise_cons.1 hafter).1⟩
  · have hword : Fault.Code.duplicateCommand ∉ [Fault.Code.invalidVisibility, .invalidRole] := by decide
    refine ⟨fun r hr => ?_, List.mem_cons_self, fun r hr => absurd hr List.not_mem_nil, nofun,
      fun hcode => absurd hcode hword, fun _ => ⟨packages, name, owner, rfl, hvalid, rfl, hcollides, hleast⟩,
      fun hne => absurd rfl hne⟩
    obtain rfl := List.mem_singleton.1 hr
    rfl

/-- The second command has a wrong limit. The first one belongs to another category, and the other package is no object,
but neither is reported. -/
theorem refused_spec_robot : ∃ (d : Dictionary) (json : Json) (f : Fault),
    d.names = ["robot._beep"] ∧ (d.get? "robot._beep").any (·.category == "base") = true ∧
    json = .object [("robot", .object [("_beep", .object []),
      ("_jump", .object [("parameters", .object [("height", .object [("minimum", .string "low")])])])]),
      ("toy", .null)] ∧
    d.load json "custom" none = .error f ∧
    f.chain.map (·.code) = [.invalidObject, .invalidDefinition, .typeMismatch] ∧
    (∃ cause, f.cause? = some cause ∧ cause.report.code ∈ [Fault.Code.typeMismatch, .invalidDefinition]) ∧
    empty.load json "custom" none = .error f := by
  let d : Dictionary := ⟨[("robot._beep", ⟨"base", .empty, .empty, .empty, .everywhere, .user⟩)]⟩
  let json : Json := .object [("robot", .object [("_beep", .object []),
    ("_jump", .object [("parameters", .object [("height", .object [("minimum", .string "low")])])])]), ("toy", .null)]
  have hcodes : (match d.load json "custom" none with
      | .error f => f.chain.map (·.code)
      | .ok _ => []) = [Fault.Code.invalidObject, .invalidDefinition, .typeMismatch] := rfl
  cases hload : d.load json "custom" none with
  | ok d' =>
    rw [hload] at hcodes
    cases hcodes
  | error f =>
    rw [hload] at hcodes
    have hcode : f.report.code = .invalidObject := (List.cons_eq_cons.1 hcodes).1
    have hne : f.report.code ≠ .duplicateCommand := by
      rw [hcode]
      decide
    obtain ⟨_, _, _, hcause, _, _, hfirst⟩ := refused_spec hload
    rcases hfirst hne with ⟨hobject, _⟩ | ⟨packages, before, e, after, hjson, hsplit, _, _, _, hsame⟩
    · exact absurd rfl (hobject _)
    · exact ⟨d, json, f, rfl, rfl, rfl, hload, hcodes, hcause hcode, hjson ▸ hsame empty packages after hsplit⟩

end Dictionary

end Capability
