import Capability.Proofs.Json
import Capability.Proofs.Json.Scanning

/-!
# Reading what is written

A value whose names are in order, whose numbers are read back from their words, and which has not too many arrays and
objects inside each other is read back from its text (`read?_text`). The tokens of the text are built up to
`Json.tree`, which shows each name once (`ofText?_text`), and this tree is taken for the value (`Tree.toJson?_tree`).

* `Tree.Builds`: what some tokens build wherever a value is due.
* `Number.readsBack_of_read?`: the word of a number is read back if its text is.
-/

namespace Capability

namespace Json

/-! ## Trees of values -/

mutual
/-- The tree that the text of a value is. -/
def tree : Json → Tree
  | .null => .null
  | .bool b => .bool b
  | .number n => .number (some n)
  | .string s => .string (some s)
  | .array items => .array (itemTrees items)
  | .object fields => .object (fieldTrees fields)

/-- The tree of each item. -/
def itemTrees : List Json → List Tree
  | [] => []
  | item :: items => item.tree :: itemTrees items

/-- The name and the tree of each field. -/
def fieldTrees : List (String × Json) → List (Option String × Tree)
  | [] => []
  | (name, value) :: fields => (some name, value.tree) :: fieldTrees fields
end

namespace Tree

/-- Wherever a value is due, the tokens build this tree. -/
def Builds (ts : List Token) (tree : Tree) : Prop :=
  ∀ frames place, place = .value ∨ place = .item →
    ts.foldlM Reader.step ⟨frames, place⟩ = some ⟨frames, .after tree⟩

/-- One token builds a tree that is finished with it. -/
theorem builds_single {t : Token} {tree : Tree} (ht : t ≠ .closeArray)
    (h : ∀ frames, Reader.start frames t = some ⟨frames, .after tree⟩) : Builds [t] tree := by
  intro frames place hplace
  have hstep : Reader.step ⟨frames, place⟩ t = Reader.start frames t := by
    rcases hplace with rfl | rfl
    · rfl
    · cases t <;> first | rfl | exact absurd rfl ht
  rw [List.foldlM_cons, hstep, h]
  rfl

/-- Items with commas between them, up to the end of their array, add to the items before them. -/
theorem foldlM_items {tss : List (List Token)} {trees : List Tree} (h : List.Forall₂ Builds tss trees)
    (hne : tss ≠ []) (done : List Tree) (frames : List Frame) {place : Place}
    (hplace : place = .value ∨ place = .item) :
    ([Token.comma].intercalate tss ++ [Token.closeArray]).foldlM Reader.step ⟨.array done :: frames, place⟩ =
      some ⟨frames, .after (.array (done.reverse ++ trees))⟩ := by
  induction h generalizing done place with
  | nil => exact absurd rfl hne
  | @cons ts tree tss trees hhead htail ih =>
    cases htail with
    | nil =>
      rw [List.intercalate_singleton, List.foldlM_append, hhead _ _ hplace]
      show some (Reader.mk frames (.after (.array (tree :: done).reverse))) = _
      rw [List.reverse_cons]
    | cons hnext hrest =>
      rw [List.intercalate_cons_cons, List.append_assoc, List.append_assoc, List.foldlM_append, hhead _ _ hplace]
      show ([Token.comma].intercalate _ ++ [Token.closeArray]).foldlM Reader.step
        ⟨.array (tree :: done) :: frames, .value⟩ = _
      rw [ih (List.cons_ne_nil _ _) (tree :: done) (.inl rfl), List.reverse_cons, List.append_assoc]
      rfl

/-- The tokens of a field: its name, a colon, and what builds its value. -/
def BuildsField (ts : List Token) (field : Option String × Tree) : Prop :=
  ∃ name value, field.1 = some name ∧ ts = .string (some name) :: .colon :: value ∧ Builds value field.2

/-- Fields with commas between them, up to the end of their object, add to the fields before them. -/
theorem foldlM_fields {tss : List (List Token)} {fields : List (Option String × Tree)}
    (h : List.Forall₂ BuildsField tss fields) (hne : tss ≠ []) (done : List (Option String × Tree))
    (frames : List Frame) {place : Place} (hplace : place = .name done ∨ place = .entry ∧ done = []) :
    ([Token.comma].intercalate tss ++ [Token.closeObject]).foldlM Reader.step ⟨frames, place⟩ =
      some ⟨frames, .after (.object (done.reverse ++ fields))⟩ := by
  induction h generalizing done place with
  | nil => exact absurd rfl hne
  | @cons ts field tss fields hhead htail ih =>
    obtain ⟨name, tree⟩ := field
    obtain ⟨name, value, rfl, rfl, hvalue⟩ := hhead
    have hname : Reader.step ⟨frames, place⟩ (.string (some name)) = some ⟨frames, .colon done (some name)⟩ := by
      rcases hplace with rfl | ⟨rfl, rfl⟩ <;> rfl
    have hfield : (Token.string (some name) :: .colon :: value).foldlM Reader.step ⟨frames, place⟩ =
        some ⟨.object done (some name) :: frames, .after tree⟩ := by
      rw [List.foldlM_cons, hname]
      exact hvalue _ _ (.inl rfl)
    cases htail with
    | nil =>
      rw [List.intercalate_singleton, List.foldlM_append, hfield]
      show some (Reader.mk frames (.after (.object ((some name, tree) :: done).reverse))) = _
      rw [List.reverse_cons]
    | cons hnext hrest =>
      rw [List.intercalate_cons_cons, List.append_assoc, List.append_assoc, List.foldlM_append, hfield]
      show ([Token.comma].intercalate _ ++ [Token.closeObject]).foldlM Reader.step
        ⟨frames, .name ((some name, tree) :: done)⟩ = _
      rw [ih (List.cons_ne_nil _ _) ((some name, tree) :: done) (.inl rfl), List.reverse_cons, List.append_assoc]
      rfl

end Tree

open Json.Tree

mutual
/-- The tokens of a value build its tree. -/
theorem builds_tokens : ∀ json : Json, Builds json.tokens json.tree
  | .null => builds_single nofun fun _ => rfl
  | .bool _ => builds_single nofun fun _ => rfl
  | .number _ => builds_single nofun fun _ => rfl
  | .string _ => builds_single nofun fun _ => rfl
  | .array items => fun frames place hplace => by
    have hopen : Reader.step ⟨frames, place⟩ .openArray = some ⟨.array [] :: frames, .item⟩ := by
      rcases hplace with rfl | rfl <;> rfl
    rw [tokens, List.foldlM_cons, hopen]
    cases items with
    | nil => rfl
    | cons item items =>
      exact foldlM_items (builds_itemTokens (item :: items)) (List.cons_ne_nil _ _) [] frames (.inr rfl)
  | .object fields => fun frames place hplace => by
    have hopen : Reader.step ⟨frames, place⟩ .openObject = some ⟨frames, .entry⟩ := by
      rcases hplace with rfl | rfl <;> rfl
    rw [tokens, List.foldlM_cons, hopen]
    cases fields with
    | nil => rfl
    | cons field fields =>
      exact foldlM_fields (builds_fieldTokens (field :: fields)) (List.cons_ne_nil _ _) [] frames (.inr ⟨rfl, rfl⟩)

theorem builds_itemTokens : ∀ items : List Json, List.Forall₂ Builds (itemTokens items) (itemTrees items)
  | [] => .nil
  | item :: items => .cons (builds_tokens item) (builds_itemTokens items)

theorem builds_fieldTokens : ∀ fields : List (String × Json),
    List.Forall₂ BuildsField (fieldTokens fields) (fieldTrees fields)
  | [] => .nil
  | (name, value) :: fields =>
    .cons ⟨name, value.tokens, rfl, rfl, builds_tokens value⟩ (builds_fieldTokens fields)
end

/-- **The text of a value is its tree**, if every number in it is read back. -/
theorem ofText?_text {json : Json} (h : ∀ n ∈ json.numbers, n.ReadsBack) : Tree.ofText? json.text = some json.tree := by
  rw [ofText?, scan_text h, Option.bind_some, ofTokens?, builds_tokens json [] .value (.inl rfl)]
  rfl

/-! ## Values of trees -/

mutual
/-- How many arrays and objects are inside each other. -/
def levels : Json → Nat
  | .array items => itemLevels items + 1
  | .object fields => fieldLevels fields + 1
  | .null | .bool _ | .number _ | .string _ => 0

/-- How many arrays and objects are inside each other in some item. -/
def itemLevels : List Json → Nat
  | [] => 0
  | item :: items => max item.levels (itemLevels items)

/-- How many arrays and objects are inside each other in some value. -/
def fieldLevels : List (String × Json) → Nat
  | [] => 0
  | (_, value) :: fields => max value.levels (fieldLevels fields)
end

mutual
/-- The tree of a value is taken for the value, if its names are in order and there are levels enough. -/
theorem toJson?_tree : ∀ {json : Json} {n : Nat}, json.Sorted → json.levels ≤ n → json.tree.toJson? n = some json
  | .null, _, _, _ => rfl
  | .bool _, _, _, _ => rfl
  | .number _, _, _, _ => rfl
  | .string _, _, _, _ => rfl
  | .array items, n, hs, hl => by
    rw [levels] at hl
    rw [tree, toJson?, if_neg (by omega), itemsToJson?_itemTrees hs (by omega), Option.map_some]
  | .object fields, n, hs, hl => by
    rw [levels] at hl
    rw [tree, toJson?, if_neg (by omega), fieldsToJson?_fieldTrees hs.2 (by omega), Option.map_some, hs.1.ofPairs_eq]

theorem itemsToJson?_itemTrees : ∀ {items : List Json} {n : Nat}, SortedItems items → itemLevels items ≤ n →
    itemsToJson? n (itemTrees items) = some items
  | [], _, _, _ => rfl
  | item :: items, n, hs, hl => by
    rw [itemLevels] at hl
    rw [itemTrees, itemsToJson?, toJson?_tree hs.1 (by omega), itemsToJson?_itemTrees hs.2 (by omega)]
    rfl

theorem fieldsToJson?_fieldTrees : ∀ {fields : List (String × Json)} {n : Nat}, SortedFields fields →
    fieldLevels fields ≤ n → fieldsToJson? n (fieldTrees fields) = some fields
  | [], _, _, _ => rfl
  | (name, value) :: fields, n, hs, hl => by
    rw [fieldLevels] at hl
    rw [fieldTrees, fieldsToJson?, toJson?_tree hs.1 (by omega), fieldsToJson?_fieldTrees hs.2 (by omega)]
    rfl
end

/-- **A value is read back from its text.** -/
theorem read?_text {json : Json} (hs : json.Sorted) (hn : ∀ n ∈ json.numbers, n.ReadsBack)
    (hl : json.levels ≤ maxLevels) : read? json.text = some json := by
  rw [read?, ofText?_text hn, Option.bind_some, toJson?_tree hs hl]

/-- The word of a number is read back if its text is. -/
theorem Number.readsBack_of_read? {n : Number} (h : read? (Json.number n).text = some (.number n)) : n.ReadsBack := by
  obtain ⟨tree, htree, hjson⟩ := Option.bind_eq_some_iff.1 h
  obtain ⟨ts, hts, htree⟩ := Option.bind_eq_some_iff.1 htree
  have hends : ∀ c ∈ n.text.toList, Token.endsWord c = false := fun c hc =>
    Token.endsWord_of_isNumeric (n.numeric_text c hc)
  rcases Token.scan_word hends with hnil | hword
  · obtain rfl := Option.some.inj (hnil.symm.trans hts)
    cases htree
  · obtain ⟨t, ht, rfl⟩ := Option.map_eq_some_iff.1 (hword.symm.trans hts)
    cases t with
    | number m =>
      obtain rfl := Option.some.inj htree
      obtain ⟨m, rfl, hm⟩ := Option.map_eq_some_iff.1 hjson
      obtain rfl := Json.number.inj hm
      exact ht
    | string s =>
      obtain rfl := Option.some.inj htree
      obtain ⟨s, rfl, hs⟩ := Option.map_eq_some_iff.1 hjson
      cases hs
    | null =>
      obtain rfl := Option.some.inj htree
      cases hjson
    | bool b =>
      obtain rfl := Option.some.inj htree
      cases hjson
    | _ => cases htree

end Json

end Capability
