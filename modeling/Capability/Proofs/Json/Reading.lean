import Capability.Proofs.Json.Printing

/-!
# What is read from texts

Whatever a text denotes, its integers are ones that 64 bits hold, the names in its objects are in order, and it has no
more arrays and objects inside each other than the reader allows (`valid_of_toJson?`). The first of these goes back to
the words of the text: every step of the scan and of the reading of tokens keeps it (`Token.stored_step`,
`Tree.stored_step`).

* `Valid.read?_text`: a value with these properties is read back from its text, if its doubles are.
-/

namespace Capability.Json

/-- What holds at the start of a run of steps, and is kept by every step, holds at its end. -/
theorem foldlM_keeps {σ α : Type} {f : σ → α → Option σ} {P : σ → Prop} {Q : α → Prop}
    (hstep : ∀ s a s', P s → Q a → f s a = some s' → P s') {as : List α} (has : ∀ a ∈ as, Q a) {s s' : σ} (hs : P s)
    (h : as.foldlM f s = some s') : P s' := by
  induction as generalizing s with
  | nil =>
    obtain rfl := Option.some.inj h
    exact hs
  | cons a as ih =>
    rw [List.foldlM_cons] at h
    obtain ⟨s₁, hs₁, h⟩ := Option.bind_eq_some_iff.1 h
    exact ih (fun b hb => has b (List.mem_cons_of_mem _ hb)) (hstep s a s₁ hs (has a List.mem_cons_self) hs₁) h

/-! ## Tokens -/

namespace Token

/-- The number of the token, if it is one and denotes something, is stored. -/
def Stored : Token → Prop
  | .number (some n) => n.Storable
  | _ => True

variable {c : Char} {t : Token} {s s' : Scan}

theorem stored_of_ofMark? (h : ofMark? c = some t) : t.Stored := by
  unfold ofMark? at h
  split at h <;> first | (obtain rfl := Option.some.inj h; trivial) | cases h

theorem stored_of_ofWord? {cs : List Char} (h : ofWord? cs = some t) : t.Stored := by
  unfold ofWord? at h
  split at h
  · obtain rfl := Option.some.inj h
    trivial
  split at h
  · obtain rfl := Option.some.inj h
    trivial
  split at h
  · obtain rfl := Option.some.inj h
    trivial
  obtain ⟨l, _, rfl⟩ := Option.map_eq_some_iff.1 h
  cases hl : l.value? with
  | none => trivial
  | some n => exact Number.storable_of_value? hl

theorem stored_start {ts : List Token} (h : ∀ t ∈ ts, t.Stored) (c : Char) :
    ∀ t ∈ (Scan.start ts c).tokens, t.Stored := by
  unfold Scan.start
  split
  · exact h
  split
  · exact h
  split
  · rename_i t ht
    exact List.forall_mem_cons.2 ⟨stored_of_ofMark? ht, h⟩
  · exact h

/-- Every step of a scan keeps the numbers of the tokens stored. -/
theorem stored_step (h : ∀ t ∈ s.tokens, t.Stored) (hs : s.step c = some s') : ∀ t ∈ s'.tokens, t.Stored := by
  obtain ⟨ts, mode⟩ := s
  cases mode with
  | gap =>
    obtain rfl := Option.some.inj hs
    exact stored_start h c
  | word chars =>
    simp only [Scan.step] at hs
    split at hs
    · obtain ⟨t, ht, rfl⟩ := Option.map_eq_some_iff.1 hs
      exact stored_start (List.forall_mem_cons.2 ⟨stored_of_ofWord? ht, h⟩) c
    · obtain rfl := Option.some.inj hs
      exact h
  | quoted pieces =>
    simp only [Scan.step] at hs
    split at hs
    · obtain rfl := Option.some.inj hs
      exact List.forall_mem_cons.2 ⟨trivial, h⟩
    split at hs
    · obtain rfl := Option.some.inj hs
      exact h
    split at hs
    · cases hs
    · obtain rfl := Option.some.inj hs
      exact h
  | escape pieces =>
    simp only [Scan.step] at hs
    split at hs
    · obtain rfl := Option.some.inj hs
      exact h
    · obtain ⟨_, _, rfl⟩ := Option.map_eq_some_iff.1 hs
      exact h
  | code pieces value count =>
    obtain ⟨d, _, rfl⟩ := Option.map_eq_some_iff.1 (hs : (hexValue? c).map _ = some s')
    split <;> exact h

/-- **The numbers of the tokens of a text are stored.** -/
theorem stored_of_scan {text : String} {ts : List Token} (h : scan text = some ts) : ∀ t ∈ ts, t.Stored := by
  obtain ⟨s, hs, hfinish⟩ := Option.bind_eq_some_iff.1 h
  have hstored : ∀ t ∈ s.tokens, t.Stored :=
    foldlM_keeps (Q := fun _ => True) (fun _ _ _ h _ hs => stored_step h hs) (fun _ _ => trivial)
      (fun _ ht => absurd ht List.not_mem_nil) hs
  unfold Scan.finish at hfinish
  split at hfinish
  · obtain rfl := Option.some.inj hfinish
    exact fun t ht => hstored t (List.mem_reverse.1 ht)
  · obtain ⟨t, ht, rfl⟩ := Option.map_eq_some_iff.1 hfinish
    exact fun u hu => (List.forall_mem_cons.2 ⟨stored_of_ofWord? ht, hstored⟩) u (List.mem_reverse.1 hu)
  · cases hfinish

end Token

/-! ## Trees -/

namespace Tree

mutual
/-- The numbers in the tree that denote something are stored. -/
def Stored : Tree → Prop
  | .number n => ∀ m, n = some m → m.Storable
  | .array items => StoredItems items
  | .object fields => StoredFields fields
  | .null | .bool _ | .string _ => True

/-- The numbers in the items are stored. -/
def StoredItems : List Tree → Prop
  | [] => True
  | item :: items => item.Stored ∧ StoredItems items

/-- The numbers in the values are stored. -/
def StoredFields : List (Option String × Tree) → Prop
  | [] => True
  | (_, value) :: fields => value.Stored ∧ StoredFields fields
end

theorem storedItems_iff {items : List Tree} : StoredItems items ↔ ∀ tree ∈ items, tree.Stored := by
  induction items with
  | nil => simp [StoredItems]
  | cons item items ih => simp [StoredItems, ih]

theorem storedFields_iff {fields : List (Option String × Tree)} :
    StoredFields fields ↔ ∀ p ∈ fields, p.2.Stored := by
  induction fields with
  | nil => simp [StoredFields]
  | cons p fields ih =>
    obtain ⟨name, value⟩ := p
    simp [StoredFields, ih]

/-- The numbers in an open array or object are stored. -/
def Frame.Stored : Frame → Prop
  | .array items => StoredItems items
  | .object fields _ => StoredFields fields

/-- The numbers in what is finished at a place are stored. -/
def Place.Stored : Place → Prop
  | .name fields => StoredFields fields
  | .colon fields _ => StoredFields fields
  | .after tree => tree.Stored
  | .value | .item | .entry => True

/-- The numbers in all that has been read are stored. -/
def Reader.Stored (r : Reader) : Prop :=
  (∀ f ∈ r.frames, f.Stored) ∧ r.place.Stored

variable {frames : List Frame} {t : Token} {r r' : Reader}

theorem stored_readerStart (hf : ∀ f ∈ frames, f.Stored) (ht : t.Stored) (h : Reader.start frames t = some r') :
    r'.Stored := by
  cases t with
  | number n =>
    obtain rfl := Option.some.inj h
    refine ⟨hf, ?_⟩
    rintro m rfl
    exact ht
  | openArray =>
    obtain rfl := Option.some.inj h
    exact ⟨List.forall_mem_cons.2 ⟨trivial, hf⟩, trivial⟩
  | null | bool _ | string _ | openObject =>
    obtain rfl := Option.some.inj h
    exact ⟨hf, trivial⟩
  | closeArray | closeObject | comma | colon => cases h

theorem stored_next {tree : Tree} (htree : tree.Stored) (hf : ∀ f ∈ frames, f.Stored)
    (h : Reader.next tree frames t = some r') : r'.Stored := by
  unfold Reader.next at h
  split at h
  · rename_i items frames
    obtain ⟨hitems, hframes⟩ := List.forall_mem_cons.1 hf
    obtain rfl := Option.some.inj h
    exact ⟨List.forall_mem_cons.2 ⟨⟨htree, hitems⟩, hframes⟩, trivial⟩
  · rename_i items frames
    obtain ⟨hitems, hframes⟩ := List.forall_mem_cons.1 hf
    obtain rfl := Option.some.inj h
    have hall : StoredItems (tree :: items) := ⟨htree, hitems⟩
    exact ⟨hframes, storedItems_iff.2 fun u hu => storedItems_iff.1 hall u (List.mem_reverse.1 hu)⟩
  · rename_i fields name frames
    obtain ⟨hfields, hframes⟩ := List.forall_mem_cons.1 hf
    obtain rfl := Option.some.inj h
    exact ⟨hframes, htree, hfields⟩
  · rename_i fields name frames
    obtain ⟨hfields, hframes⟩ := List.forall_mem_cons.1 hf
    obtain rfl := Option.some.inj h
    have hall : StoredFields ((name, tree) :: fields) := ⟨htree, hfields⟩
    exact ⟨hframes, storedFields_iff.2 fun p hp => storedFields_iff.1 hall p (List.mem_reverse.1 hp)⟩
  · cases h

/-- Every token that is read keeps the numbers stored. -/
theorem stored_step (hr : r.Stored) (ht : t.Stored) (h : r.step t = some r') : r'.Stored := by
  obtain ⟨frames, place⟩ := r
  obtain ⟨hframes, hplace⟩ := hr
  unfold Reader.step at h
  split at h
  · exact stored_readerStart hframes ht h
  · obtain rfl := Option.some.inj h
    exact ⟨fun f hf => hframes f (List.mem_of_mem_tail hf), trivial⟩
  · exact stored_readerStart hframes ht h
  · obtain rfl := Option.some.inj h
    exact ⟨hframes, trivial⟩
  · obtain rfl := Option.some.inj h
    exact ⟨hframes, trivial⟩
  · rename_i hname
    obtain rfl := Option.some.inj h
    obtain rfl : place = _ := hname
    exact ⟨hframes, hplace⟩
  · rename_i hcolon
    obtain rfl := Option.some.inj h
    obtain rfl : place = _ := hcolon
    exact ⟨List.forall_mem_cons.2 ⟨hplace, hframes⟩, trivial⟩
  · rename_i hafter
    obtain rfl : place = _ := hafter
    exact stored_next hplace hframes h
  · cases h

/-- **The numbers in the tree of a text are stored.** -/
theorem stored_of_ofText? {text : String} {tree : Tree} (h : ofText? text = some tree) : tree.Stored := by
  obtain ⟨ts, hts, h⟩ := Option.bind_eq_some_iff.1 h
  obtain ⟨r, hr, hfinish⟩ := Option.bind_eq_some_iff.1 h
  have hstart : Reader.Stored ⟨[], .value⟩ := ⟨fun _ hf => absurd hf List.not_mem_nil, trivial⟩
  have hstored : r.Stored :=
    foldlM_keeps (fun _ _ _ hr ht h => stored_step hr ht h) (Token.stored_of_scan hts) hstart hr
  unfold Reader.finish at hfinish
  split at hfinish
  · obtain rfl := Option.some.inj hfinish
    exact hstored.2
  · cases hfinish

end Tree

/-! ## Values -/

/-- 64 bits hold the integers in the value, and it has at most so many arrays and objects inside each other. -/
structure Bounded (n : Nat) (json : Json) : Prop where
  stored : ∀ n ∈ json.numbers, n.Storable
  shallow : json.levels ≤ n

/-- The value may be read from a text: it is bounded, and its names are in order. -/
structure Valid (n : Nat) (json : Json) : Prop extends Bounded n json where
  sorted : json.Sorted

/-- A value without numbers and without levels is bounded. -/
theorem bounded_of_eq {json : Json} (hn : json.numbers = []) (hl : json.levels = 0) (n : Nat) : json.Bounded n :=
  ⟨fun _ hm => absurd (hn ▸ hm) List.not_mem_nil, hl ▸ Nat.zero_le n⟩

theorem valid_null {n : Nat} : Json.null.Valid n :=
  ⟨bounded_of_eq rfl rfl n, trivial⟩

theorem itemLevels_le_iff {items : List Json} {n : Nat} : itemLevels items ≤ n ↔ ∀ json ∈ items, json.levels ≤ n := by
  induction items with
  | nil => simp [itemLevels]
  | cons item items ih => rw [itemLevels, Nat.max_le, ih, List.forall_mem_cons]

theorem fieldLevels_le_iff {fields : List (String × Json)} {n : Nat} :
    fieldLevels fields ≤ n ↔ ∀ p ∈ fields, p.2.levels ≤ n := by
  induction fields with
  | nil => simp [fieldLevels]
  | cons p fields ih =>
    obtain ⟨name, value⟩ := p
    rw [fieldLevels, Nat.max_le, ih, List.forall_mem_cons]

theorem bounded_array {items : List Json} {n : Nat} (hn : n ≠ 0) (h : ∀ json ∈ items, json.Bounded (n - 1)) :
    (Json.array items).Bounded n := by
  refine ⟨fun m hm => ?_, ?_⟩
  · obtain ⟨json, hj, hm⟩ := mem_itemNumbers_iff.1 hm
    exact (h json hj).stored m hm
  · have hlevels := itemLevels_le_iff.2 fun json hj => (h json hj).shallow
    rw [levels]
    omega

theorem bounded_object {fields : Fields Json} {n : Nat} (hn : n ≠ 0) (h : ∀ p ∈ fields, p.2.Bounded (n - 1)) :
    (Json.object fields).Bounded n := by
  refine ⟨fun m hm => ?_, ?_⟩
  · obtain ⟨p, hp, hm⟩ := mem_fieldNumbers_iff.1 hm
    exact (h p hp).stored m hm
  · have hlevels := fieldLevels_le_iff.2 fun p hp => (h p hp).shallow
    rw [levels]
    omega

mutual
/-- The value of a tree whose numbers are stored is bounded. -/
theorem bounded_of_toJson? : ∀ (tree : Tree) {n : Nat} {json : Json}, tree.Stored → tree.toJson? n = some json →
    json.Bounded n
  | .null, n, _, _, h => by
    obtain rfl := Option.some.inj h
    exact bounded_of_eq rfl rfl n
  | .bool _, n, _, _, h => by
    obtain rfl := Option.some.inj h
    exact bounded_of_eq rfl rfl n
  | .number _, n, _, ht, h => by
    obtain ⟨m, hm, rfl⟩ := Option.map_eq_some_iff.1 h
    exact ⟨List.forall_mem_singleton.2 (ht m hm), Nat.zero_le n⟩
  | .string _, n, _, _, h => by
    obtain ⟨_, _, rfl⟩ := Option.map_eq_some_iff.1 h
    exact bounded_of_eq rfl rfl n
  | .array items, n, _, ht, h => by
    rw [Tree.toJson?] at h
    split at h
    · cases h
    · rename_i hn
      obtain ⟨jsons, hjsons, rfl⟩ := Option.map_eq_some_iff.1 h
      exact bounded_array hn (bounded_of_itemsToJson? items ht hjsons)
  | .object fields, n, _, ht, h => by
    rw [Tree.toJson?] at h
    split at h
    · cases h
    · rename_i hn
      obtain ⟨pairs, hpairs, rfl⟩ := Option.map_eq_some_iff.1 h
      refine bounded_object hn fun p hp => ?_
      rcases Fields.mem_merge hp with hp | hp
      · cases hp
      · exact bounded_of_fieldsToJson? fields ht hpairs p hp

theorem bounded_of_itemsToJson? : ∀ (items : List Tree) {n : Nat} {jsons : List Json}, Tree.StoredItems items →
    Tree.itemsToJson? n items = some jsons → ∀ json ∈ jsons, json.Bounded n
  | [], _, _, _, h => by
    obtain rfl := Option.some.inj h
    exact fun _ hj => absurd hj List.not_mem_nil
  | item :: items, _, _, ht, h => by
    rw [Tree.itemsToJson?] at h
    obtain ⟨json, hjson, h⟩ := Option.bind_eq_some_iff.1 h
    obtain ⟨jsons, hjsons, h⟩ := Option.bind_eq_some_iff.1 h
    obtain rfl := Option.some.inj h
    exact List.forall_mem_cons.2 ⟨bounded_of_toJson? item ht.1 hjson, bounded_of_itemsToJson? items ht.2 hjsons⟩

theorem bounded_of_fieldsToJson? : ∀ (fields : List (Option String × Tree)) {n : Nat} {pairs : List (String × Json)},
    Tree.StoredFields fields → Tree.fieldsToJson? n fields = some pairs → ∀ p ∈ pairs, p.2.Bounded n
  | [], _, _, _, h => by
    obtain rfl := Option.some.inj h
    exact fun _ hp => absurd hp List.not_mem_nil
  | (_, value) :: fields, _, _, ht, h => by
    rw [Tree.fieldsToJson?] at h
    obtain ⟨_, _, h⟩ := Option.bind_eq_some_iff.1 h
    obtain ⟨json, hjson, h⟩ := Option.bind_eq_some_iff.1 h
    obtain ⟨pairs, hpairs, h⟩ := Option.bind_eq_some_iff.1 h
    obtain rfl := Option.some.inj h
    exact List.forall_mem_cons.2 ⟨bounded_of_toJson? value ht.1 hjson, bounded_of_fieldsToJson? fields ht.2 hpairs⟩
end

/-- **The value of a tree whose numbers are stored is valid.** -/
theorem valid_of_toJson? {tree : Tree} {n : Nat} {json : Json} (ht : tree.Stored) (h : tree.toJson? n = some json) :
    json.Valid n :=
  ⟨bounded_of_toJson? tree ht h, sorted_of_toJson? tree h⟩

/-- The numbers of a valid value are read back, if its doubles are. -/
theorem Valid.readsBack {n : Nat} {json : Json} (h : json.Valid n)
    (hd : ∀ d, .double d ∈ json.numbers → read? (Json.double d).text = some (.double d)) :
    ∀ m ∈ json.numbers, m.ReadsBack
  | .integer _, hm => Number.readsBack_integer (h.stored _ hm)
  | .double d, hm => Number.readsBack_of_read? (hd d hm)

/-- **A valid value is read back from its text**, if its doubles are. -/
theorem Valid.read?_text {json : Json} (h : json.Valid Tree.maxLevels)
    (hd : ∀ d, .double d ∈ json.numbers → read? (Json.double d).text = some (.double d)) :
    read? json.text = some json :=
  Json.read?_text h.sorted (h.readsBack hd) h.shallow

end Capability.Json
