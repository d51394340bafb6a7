import Capability.Proofs.Schema.Reading

/-!
# Conforming values

`Property.Conforms` says by rules which JSON values conform to a type, and as which values, without following the
conversion: numbers are compared by their exact value, lengths are counted in characters, and the members of an object
are told name by name (`ObjectType.Accounts`).

* `Bounds.violation?_eq_none_iff_within`: a value passes no limit exactly when it lies within the bounds.
* `Property.convert_ok_iff_conforms`: a type whose members are in order at every depth takes exactly the conforming
  values. The induction is on the type.
* `Property.Read.conforms_spec`: so does every type that is read over a chain of bases; an object has the names that
  are given or have a default, and no others.
-/

namespace Capability

open Conversion

/-! ## Limits -/

namespace Bounds

variable {α : Type}

/-- A number lies within the bounds, both limits included, where the limits stand for these numbers. -/
def Within (number : α → Int) (b : Bounds α) (n : Int) : Prop :=
  (∀ low, b.least? = some low → number low ≤ n) ∧ ∀ high, b.greatest? = some high → n ≤ number high

/-- What passes no limit lies within the bounds. -/
theorem violation?_eq_none_iff_within [LT α] [DecidableLT α] {number : α → Int}
    (hlt : ∀ a b : α, a < b ↔ number a < number b) {b : Bounds α} {x : α} :
    b.violation? x = none ↔ b.Within number (number x) := by
  rw [violation?_eq_none_iff, Within]
  refine and_congr ?_ ?_
  · exact forall_congr' fun low => imp_congr_right fun _ => by rw [hlt, Int.not_lt]
  · exact forall_congr' fun high => imp_congr_right fun _ => by rw [hlt, Int.not_lt]

theorem check_ok_iff [LT α] [DecidableLT α] [Numeral α] {number : α → Int}
    (hlt : ∀ a b : α, a < b ↔ number a < number b) {b : Bounds α} {x : α} :
    b.check x = .ok () ↔ b.Within number (number x) := by
  rw [← violation?_eq_none_iff_within hlt, check]
  cases b.violation? x with
  | none => exact ⟨fun _ => rfl, fun _ => rfl⟩
  | some v => cases v <;> exact ⟨fun h => (by cases h), fun h => (by cases h)⟩

end Bounds

theorem Length.check_ok_iff {b : Bounds Length} {s : String} :
    Length.check b s = .ok () ↔ b.Within (fun length => (length.val : Int)) s.length := by
  have hwithin : b.Within (fun length => (length.val : Int)) s.length ↔
      (b.map Fin.val).Within (fun length : Nat => (length : Int)) s.length := by
    obtain ⟨lower, upper⟩ := b
    cases lower <;> cases upper <;> simp [Bounds.Within, Bounds.map, Bounds.least?, Bounds.greatest?, Attribute.map]
  rw [hwithin, ← Bounds.violation?_eq_none_iff_within fun a b => Int.ofNat_lt.symm, check]
  cases (b.map Fin.val).violation? s.length with
  | none => exact ⟨fun _ => rfl, fun _ => rfl⟩
  | some v => cases v <;> exact ⟨fun h => (by cases h), fun h => (by cases h)⟩

/-! ## The rules -/

/-- The names that a value of an object type has, and what stands under those that are not given or not declared. A
declared name that is not given has its default, and if there is none it must not be required. Other names must be
accepted, and stand for themselves. -/
structure ObjectType.Accounts (o : ObjectType) (given : Fields Json) (values : Fields Value) : Prop where
  sorted : Fields.Sorted values
  declared : ∀ name p json, o.get? name = some p → given.get? name = some json → ∃ v, values.get? name = some v
  missing : ∀ name p, o.get? name = some p → given.get? name = none →
    values.get? name = p.default? ∧ (p.default? = none → p.required.value = false)
  other : ∀ name json, o.get? name = none → given.get? name = some json →
    o.isOpen = true ∧ json.NullFree ∧ values.get? name = Value.ofJson? json
  absent : ∀ name, o.get? name = none → given.get? name = none → values.get? name = none

namespace Property

/-- The value is among the allowed ones, if these are listed. -/
def Allows (p : Property) (v : Value) : Prop :=
  ∀ list, p.allowed? = some list → ∃ a ∈ list, (a == v) = true

/-- The JSON value conforms to the type, as this value. -/
inductive Conforms : Property → Json → Value → Prop
  /-- An integer is a number whose exact value is a 64-bit integer within the range. -/
  | integer {p : Property} {range : Bounds Int64} {number : Json.Number} {n : Int64}
      (shape : p.shape = .integer range) (value : number.units = n.toInt * Double.one)
      (within : range.Within Int64.toInt n.toInt) (allowed : p.Allows (.integer n)) :
      Conforms p (.number number) (.integer n)
  /-- A number is any number within the range. -/
  | number {p : Property} {range : Bounds Double} {number : Json.Number} (shape : p.shape = .number range)
      (within : range.Within Double.units number.toDouble.units) (allowed : p.Allows (.number number.toDouble)) :
      Conforms p (.number number) (.number number.toDouble)
  | boolean {p : Property} {b : Bool} (shape : p.shape = .boolean) (allowed : p.Allows (.boolean b)) :
      Conforms p (.bool b) (.boolean b)
  /-- A string has as many characters as the limits allow. -/
  | string {p : Property} {lengths : Bounds Length} {s : String} (shape : p.shape = .string lengths)
      (within : lengths.Within (fun length => (length.val : Int)) s.length) (allowed : p.Allows (.string s)) :
      Conforms p (.string s) (.string s)
  /-- Every item of an array conforms to the type of the items. Where this type is missing no array conforms. -/
  | array {p q : Property} {list : List Json} {values : List Value} (type : p.items? = some q)
      (length : list.length = values.length) (items : ∀ json v, (json, v) ∈ list.zip values → Conforms q json v)
      (allowed : p.Allows (.array values)) : Conforms p (.array list) (.array values)
  /-- Every declared member of an object that is given conforms to its type. -/
  | object {p : Property} {o : ObjectType} {given : Fields Json} {values : Fields Value} (type : p.object? = some o)
      (names : o.Accounts given values)
      (members : ∀ name q json v, o.get? name = some q → given.get? name = some json → values.get? name = some v →
        Conforms q json v)
      (allowed : p.Allows (.object values)) : Conforms p (.object given) (.object values)

/-! ## Parts of the conversion -/

theorem allows_iff {p : Property} {v : Value} :
    p.Allows v ↔ ∀ a, p.allowed = some a → a.value.any (· == v) = true := by
  rw [Allows, allowed?]
  cases p.allowed with
  | none => exact ⟨fun _ _ h => (by cases h), fun _ _ h => (by cases h)⟩
  | some a => simp [List.any_eq_true]

theorem fill_some_ok_iff {p : Property} {name : String} {json : Json} {v? : Option Value} :
    p.fill name (some json) = .ok v? ↔ ∃ v, v? = some v ∧ p.convert json = .ok v := by
  rw [fill, Fault.bind_ok_iff]
  constructor
  · rintro ⟨v, hv, h⟩
    exact ⟨v, (Except.ok.inj h).symm, Fault.mapError_ok_iff.1 hv⟩
  · rintro ⟨v, rfl, hv⟩
    exact ⟨v, Fault.mapError_ok_iff.2 hv, rfl⟩

theorem fill_none_ok_iff {p : Property} {name : String} {v? : Option Value} :
    p.fill name none = .ok v? ↔ v? = p.default? ∧ (p.default? = none → p.required.value = false) := by
  rw [fill]
  cases p.default? with
  | some v =>
    show Except.ok (some v) = .ok v? ↔ _
    rw [Except.ok.injEq, eq_comm]
    simp
  | none =>
    cases p.required.value with
    | true =>
      show Except.error (missing name) = .ok v? ↔ _
      simp
    | false =>
      show Except.ok none = .ok v? ↔ _
      rw [Except.ok.injEq, eq_comm]
      simp

end Property

/-- A value outside the type is given under a name exactly when it stands there. -/
theorem ObjectType.other_iff {given : Option Json} {v? : Option Value} {isOpen : Bool} :
    (isOpen = false → given = none) ∧ given.map Value.ofJson? = v?.map some ↔
      (∀ json, given = some json → isOpen = true ∧ json.NullFree ∧ v? = Value.ofJson? json) ∧
        (given = none → v? = none) := by
  cases given with
  | none => cases v? <;> simp
  | some json =>
    simp only [← Value.isSome_ofJson?_iff, Option.some.injEq, Option.map_some, forall_eq']
    cases Value.ofJson? json <;> cases v? <;> cases isOpen <;> simp [eq_comm]

/-- **What an object type answers, told name by name.** -/
theorem ObjectType.convert_ok_iff_accounts {o : ObjectType} (hs : Fields.Sorted o.properties) {given : Fields Json}
    (hg : Fields.Sorted given) {values : Fields Value} :
    o.convert (.object given) = .ok values ↔ o.Accounts given values ∧
      ∀ name q json v, o.get? name = some q → given.get? name = some json → values.get? name = some v →
        q.convert json = .ok v := by
  have hmem {name : String} {q : Property} (hq : o.get? name = some q) : (name, q) ∈ o.properties :=
    Fields.mem_of_get? hq
  rw [convert_object_iff hs hg]
  constructor
  · rintro ⟨hvalues, hfill, hother⟩
    have hdeclared : ∀ name q json, o.get? name = some q → given.get? name = some json →
        ∃ v, values.get? name = some v ∧ q.convert json = .ok v := fun name q json hq hjson => by
      have hq := hfill name q (hmem hq)
      rw [hjson] at hq
      exact Property.fill_some_ok_iff.1 hq
    refine ⟨⟨hvalues, fun name q json hq hjson => ?_, fun name q hq hnone => ?_, fun name json hn hjson => ?_,
      fun name hn hnone => ?_⟩, fun name q json v hq hjson hv => ?_⟩
    · obtain ⟨v, hv, _⟩ := hdeclared name q json hq hjson
      exact ⟨v, hv⟩
    · have hq := hfill name q (hmem hq)
      rw [hnone] at hq
      exact Property.fill_none_ok_iff.1 hq
    · exact (other_iff.1 (hother name hn)).1 json hjson
    · exact (other_iff.1 (hother name hn)).2 hnone
    · obtain ⟨w, hw, hconvert⟩ := hdeclared name q json hq hjson
      obtain rfl := Option.some.inj (hv.symm.trans hw)
      exact hconvert
  · rintro ⟨haccounts, hconvert⟩
    refine ⟨haccounts.sorted, fun name q hq => ?_, fun name hn => ?_⟩
    · have hq : o.get? name = some q := hs.get?_of_mem hq
      cases hjson : given.get? name with
      | none => exact Property.fill_none_ok_iff.2 (haccounts.missing name q hq hjson)
      | some json =>
        obtain ⟨v, hv⟩ := haccounts.declared name q json hq hjson
        exact Property.fill_some_ok_iff.2 ⟨v, hv, hconvert name q json v hq hjson hv⟩
    · exact other_iff.2 ⟨fun json => haccounts.other name json hn, haccounts.absent name hn⟩

/-- **The names of an answer**: those that are declared and given or have a default, and others that are given. -/
theorem ObjectType.Accounts.mem_names_iff {o : ObjectType} {given : Fields Json} {values : Fields Value}
    (h : o.Accounts given values) {name : String} :
    name ∈ values.names ↔ (∃ q, o.get? name = some q ∧ (given.has name = true ∨ q.default? ≠ none)) ∨
      o.get? name = none ∧ given.has name = true := by
  rw [Fields.mem_names_iff, Fields.has]
  cases hq : o.get? name with
  | some q =>
    cases hjson : given.get? name with
    | some json =>
      obtain ⟨v, hv⟩ := h.declared name q json hq hjson
      simp [hv]
    | none => simp [(h.missing name q hq hjson).1]
  | none =>
    cases hjson : given.get? name with
    | some json =>
      obtain ⟨_, hnull, hv⟩ := h.other name json hq hjson
      have hsome := (Value.isSome_ofJson?_iff json).2 hnull
      rw [hv]
      cases hv : Value.ofJson? json with
      | none =>
        rw [hv] at hsome
        cases hsome
      | some v => simp
    | none => simp [h.absent name hq hjson]

/-! ## Whole types -/

namespace Property

section Children

variable {p : Property} {json : Json} {v : Value}

/-- What a type takes conforms to it, if the same holds of the types inside it. -/
theorem conforms_of_convert (hsorted : p.MembersSorted)
    (hchild : ∀ q, Child q p → ∀ json v, json.Sorted → q.convert json = .ok v → q.Conforms json v) (hj : json.Sorted)
    (h : p.convert json = .ok v) : p.Conforms json v := by
  obtain ⟨hmakes, hallowed⟩ := convert_ok_iff.1 h
  replace hmakes := Shape.convert_ok_iff.1 hmakes
  replace hallowed : p.Allows v := allows_iff.2 hallowed
  generalize hshape : p.shape = s at hmakes
  cases hmakes with
  | integer hn hcheck =>
    obtain ⟨number, rfl, hvalue⟩ := Json.toInt64?_eq_some_iff.1 hn
    exact .integer hshape hvalue ((Bounds.check_ok_iff fun _ _ => Int64.lt_iff_toInt_lt).1 hcheck) hallowed
  | number hd hcheck =>
    obtain ⟨number, rfl, rfl⟩ := Json.toDouble?_eq_some_iff.1 hd
    exact .number hshape ((Bounds.check_ok_iff fun _ _ => Double.lt_iff).1 hcheck) hallowed
  | boolean hb =>
    obtain rfl := Json.toBool?_eq_some_iff.1 hb
    exact .boolean hshape hallowed
  | string hs hcheck =>
    obtain rfl := Json.toString?_eq_some_iff.1 hs
    exact .string hshape (Length.check_ok_iff.1 hcheck) hallowed
  | @object type _ values hvalues =>
    have ho : p.object? = some type.value := object?_eq_some_iff.2 ⟨type.inherited, hshape⟩
    obtain ⟨given, _, _, rfl, _⟩ := ObjectType.convert_ok_iff.1 hvalues
    obtain ⟨haccounts, hmembers⟩ := (ObjectType.convert_ok_iff_accounts (hsorted _ ho) hj.1).1 hvalues
    refine .object ho haccounts (fun name q json v hq hjson hv => ?_) hallowed
    exact hchild q (.member ho (Fields.mem_of_get? hq)) json v
      (Json.sortedFields_iff.1 hj.2 _ (Fields.mem_of_get? hjson)) (hmembers name q json v hq hjson hv)
  | @array items list values hvalues =>
    have hi : p.items? = some items.value := items?_eq_some_iff.2 ⟨items.inherited, hshape⟩
    obtain ⟨hlength, hitems⟩ := List.forall₂_iff_zip.1 (Fault.mapM_ok_iff.1 hvalues)
    refine .array hi hlength (fun json v hm => ?_) hallowed
    exact hchild _ (.items hi) json v (Json.sortedItems_iff.1 hj _ (List.of_mem_zip hm).1) (hitems hm)

/-- What conforms to a type is taken by it, if the same holds of the types inside it. -/
theorem Conforms.convert (hsorted : p.MembersSorted)
    (hchild : ∀ q, Child q p → ∀ json v, json.Sorted → q.Conforms json v → q.convert json = .ok v) (hj : json.Sorted)
    (h : p.Conforms json v) : p.convert json = .ok v := by
  -- every rule says what the shape makes and that the value is allowed
  have htakes {s : Shape Property} (hshape : p.shape = s) (hmakes : s.Makes json v) (hallowed : p.Allows v) :
      p.convert json = .ok v := by
    refine convert_ok_iff.2 ⟨?_, allows_iff.1 hallowed⟩
    rw [hshape]
    exact hmakes.convert
  cases h with
  | integer hshape hvalue hwithin hallowed =>
    exact htakes hshape (.integer (Json.toInt64?_eq_some_iff.2 ⟨_, rfl, hvalue⟩)
      ((Bounds.check_ok_iff fun _ _ => Int64.lt_iff_toInt_lt).2 hwithin)) hallowed
  | number hshape hwithin hallowed =>
    exact htakes hshape (.number rfl ((Bounds.check_ok_iff fun _ _ => Double.lt_iff).2 hwithin)) hallowed
  | boolean hshape hallowed => exact htakes hshape (.boolean rfl) hallowed
  | string hshape hwithin hallowed => exact htakes hshape (.string rfl (Length.check_ok_iff.2 hwithin)) hallowed
  | @array _ q list values hi hlength hitems hallowed =>
    obtain ⟨inherited, hshape⟩ := items?_eq_some_iff.1 hi
    refine htakes hshape (.array (Fault.mapM_ok_iff.2 (List.forall₂_iff_zip.2 ⟨hlength, fun {json v} hm => ?_⟩)))
      hallowed
    exact hchild q (.items hi) json v (Json.sortedItems_iff.1 hj _ (List.of_mem_zip hm).1) (hitems json v hm)
  | @object _ o given values ho haccounts hmembers hallowed =>
    obtain ⟨inherited, hshape⟩ := object?_eq_some_iff.1 ho
    refine htakes hshape (.object ((ObjectType.convert_ok_iff_accounts (hsorted _ ho) hj.1).2
      ⟨haccounts, fun name q json v hq hjson hv => ?_⟩)) hallowed
    exact hchild q (.member ho (Fields.mem_of_get? hq)) json v
      (Json.sortedFields_iff.1 hj.2 _ (Fields.mem_of_get? hjson)) (hmembers name q json v hq hjson hv)

end Children

/-- **A type takes exactly the conforming values**, if its members are in order at every depth. -/
theorem convert_ok_iff_conforms {p : Property} (hsorted : ∀ q, Part q p → q.MembersSorted) {json : Json}
    (hj : json.Sorted) {v : Value} : p.convert json = .ok v ↔ p.Conforms json v := by
  induction p using byChildren generalizing json v with
  | step p ih =>
    have hchild : ∀ q, Child q p → ∀ json v, json.Sorted → (q.convert json = .ok v ↔ q.Conforms json v) :=
      fun q hq _ _ hj => ih q hq (fun r hr => hsorted r (hr.trans hq.part)) hj
    constructor
    · exact conforms_of_convert (hsorted p (.refl p)) (fun q hq json v hj => (hchild q hq json v hj).1) hj
    · exact Conforms.convert (hsorted p (.refl p)) (fun q hq json v hj => (hchild q hq json v hj).2) hj

/-- **A type takes a JSON value exactly if it conforms, and answers the only value that it conforms as.** An object has
the declared names that are given or have a default, and the other names that are given. -/
theorem Read.conforms_spec {bases : List Property} {p : Property} (hp : Read bases p) {json : Json}
    (hj : json.Sorted) :
    ((p.convert json).isOk = true ↔ ∃ v, p.Conforms json v) ∧
    (∀ v, p.convert json = .ok v ↔ p.Conforms json v) ∧
    (∀ v w, p.Conforms json v → p.Conforms json w → v = w) ∧
    ∀ o given values, p.object? = some o → json = .object given → p.Conforms json (.object values) → ∀ name,
      name ∈ Fields.names values ↔
        (∃ q, o.get? name = some q ∧ (Fields.has given name = true ∨ q.default? ≠ none)) ∨
          o.get? name = none ∧ Fields.has given name = true := by
  obtain ⟨_, hw⟩ := hp.spec
  have hiff : ∀ v, p.convert json = .ok v ↔ p.Conforms json v := fun v =>
    convert_ok_iff_conforms (fun _ hq => hw.membersSorted hq) hj
  refine ⟨?_, hiff, fun v w hv hw => ?_, fun o given values ho he h name => ?_⟩
  · rw [Fault.isOk_iff]
    exact exists_congr hiff
  · exact Except.ok.inj (((hiff v).2 hv).symm.trans ((hiff w).2 hw))
  · subst he
    cases h with
    | object ho' haccounts =>
      obtain rfl := Option.some.inj (ho.symm.trans ho')
      exact haccounts.mem_names_iff

/-- Over a base with a default level and short tags, an object conforms with the default filled in and a member outside
the type kept. A longer tag conforms as nothing. -/
theorem conforms_spec_tags : ∃ b p,
    Property.ofJson none (.object [("additionalProperties", .bool true), ("properties", .object
      [("level", .object [("default", .integer 5)]),
        ("tags", .object [("items", .object [("maxLength", .integer 3)])])])]) = .ok b ∧
    Property.ofJson (some b) (.object [("properties", .object
      [("level", .object [("maximum", .integer 8)]), ("tags", .object [])])]) = .ok p ∧
    p.Conforms (.object [("tags", .array [.string "a", .string "bc"]), ("x", .bool true)])
      (.object [("level", .integer 5), ("tags", .array [.string "a", .string "bc"]), ("x", .boolean true)]) ∧
    ¬∃ v, p.Conforms (.object [("tags", .array [.string "long"])]) v := by
  let tag : Property := ⟨.string ⟨none, some (.own 3)⟩, none, none, ⟨false, true⟩, false⟩
  let b : Property := ⟨.object (.own ⟨[("level", ⟨.integer .unlimited, none, some (.own (.integer 5)), ⟨false, true⟩,
    false⟩), ("tags", ⟨.array (some (.own tag)), none, none, ⟨false, true⟩, false⟩)], true⟩), none, none,
    ⟨false, true⟩, false⟩
  let p : Property := ⟨.object (.own ⟨[("level", ⟨.integer ⟨none, some (.own 8)⟩, none, some ⟨.integer 5, true⟩,
    ⟨false, true⟩, true⟩), ("tags", ⟨.array (some ⟨tag, true⟩), none, none, ⟨false, true⟩, true⟩)], true⟩), none, none,
    ⟨false, true⟩, true⟩
  have hb : Property.ofJson none (.object [("additionalProperties", .bool true), ("properties", .object
      [("level", .object [("default", .integer 5)]),
        ("tags", .object [("items", .object [("maxLength", .integer 3)])])])]) = .ok b := rfl
  have hp : Property.ofJson (some b) (.object [("properties", .object
      [("level", .object [("maximum", .integer 8)]), ("tags", .object [])])]) = .ok p := rfl
  have hread : Read [b] p := by
    refine .derived ?_ (.plain ?_ hb) hp
    · exact ⟨List.pairwise_singleton _ _, ⟨List.pairwise_pair.2 (by decide), ⟨List.pairwise_singleton _ _, trivial,
        trivial⟩, ⟨List.Pairwise.nil, trivial⟩, trivial⟩, trivial⟩
    · exact ⟨List.pairwise_pair.2 (by decide), trivial, ⟨List.pairwise_pair.2 (by decide),
        ⟨List.pairwise_singleton _ _, trivial, trivial⟩, ⟨List.pairwise_singleton _ _,
          ⟨List.pairwise_singleton _ _, trivial, trivial⟩, trivial⟩, trivial⟩, trivial⟩
  have hgiven : (Json.object [("tags", .array [.string "a", .string "bc"]), ("x", .bool true)]).Sorted :=
    ⟨List.pairwise_pair.2 (by decide), ⟨trivial, trivial, trivial⟩, trivial, trivial⟩
  have hlong : (Json.object [("tags", .array [.string "long"])]).Sorted :=
    ⟨List.pairwise_singleton _ _, ⟨trivial, trivial⟩, trivial⟩
  refine ⟨b, p, hb, hp, ((hread.conforms_spec hgiven).2.1 _).1 rfl, fun h => ?_⟩
  exact Bool.false_ne_true ((hread.conforms_spec hlong).1.2 h)

end Property

end Capability
