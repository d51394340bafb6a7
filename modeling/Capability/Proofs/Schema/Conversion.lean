import Capability.Proofs.Fault
import Capability.Proofs.Schema.Parts
import Capability.Proofs.Schema.Values
import Capability.Schema.Conversion

/-!
# Converting a value twice

A converted value is *settled* when its type takes its JSON form for it again. A type settles all its values as soon
as the defaults that a conversion may fill in, those of the members inside of it, are settled by their own types
(`settles_of_inside`): integers and doubles are read back exactly, members outside the type are found again by
themselves, and the members that the type names come back one by one.

What a shape makes of a JSON value is told case by case (`Shape.convert_ok_iff`), and the members of an object by
look-up (`convertMembers_ok_iff`): under each name stands what the type of that member makes of the given value, of its
default, or of nothing.
-/

namespace Capability

open Conversion

/-! ## One type -/

/-- The value of a shape that a JSON value stands for, whatever values are allowed. -/
def Shape.convert : Shape Property → Json → Except Fault Value
  | .integer range, json =>
    match json.toInt64? with
    | some n => do range.check n; pure (.integer n)
    | none => .error (mismatch json (.plain .integer))
  | .number range, json =>
    match json.toDouble? with
    | some d => do range.check d; pure (.number d)
    | none => .error (mismatch json (.plain .number))
  | .boolean, json =>
    match json.toBool? with
    | some b => .ok (.boolean b)
    | none => .error (mismatch json (.plain .boolean))
  | .string lengths, json =>
    match json.toString? with
    | some s => do Length.check lengths s; pure (.string s)
    | none => .error (mismatch json (.plain .string))
  | .object type, json => do return .object (← ObjectType.convert type.value json)
  | .array none, .array _ => .error noItemType
  | .array none, json => .error (mismatch json (.plain .array))
  | .array (some items), .array list => do return .array (← list.mapM items.value.convert)
  | .array (some items), json => .error (mismatch json (.arrayOf items.value.typeName))

theorem Property.convert_eq (p : Property) (json : Json) :
    p.convert json = p.shape.convert json >>= checkAllowed p.allowed json := by
  obtain ⟨shape, allowed, default, required, derived⟩ := p
  cases shape with
  | boolean => cases json <;> rfl
  | integer range =>
    simp only [Property.convert, Shape.convert]
    cases json.toInt64? with
    | none => rfl
    | some n => exact (bind_assoc ..).symm
  | number range =>
    simp only [Property.convert, Shape.convert]
    cases json.toDouble? with
    | none => rfl
    | some d => exact (bind_assoc ..).symm
  | string lengths =>
    simp only [Property.convert, Shape.convert]
    cases json.toString? with
    | none => rfl
    | some s => exact (bind_assoc ..).symm
  | object type =>
    exact (bind_assoc ..).symm
  | array items =>
    cases items with
    | none => cases json <;> rfl
    | some items =>
      cases json with
      | array list =>
        exact (bind_assoc ..).symm
      | _ => rfl

theorem checkAllowed_ok_iff {allowed : Option (Attribute (List Value))} {json : Json} {v w : Value} :
    checkAllowed allowed json v = .ok w ↔ v = w ∧ ∀ a, allowed = some a → a.value.any (· == v) = true := by
  cases allowed with
  | none => simp [checkAllowed]
  | some a =>
    obtain ⟨list, inherited⟩ := a
    simp only [checkAllowed]
    split
    · rename_i h
      simpa using fun _ => h
    · rename_i h
      simpa using fun _ => h

/-- A value of a type is a value of its shape, one of the allowed ones if there is a list of them. -/
theorem Property.convert_ok_iff {p : Property} {json : Json} {v : Value} :
    p.convert json = .ok v ↔ p.shape.convert json = .ok v ∧ ∀ a, p.allowed = some a → a.value.any (· == v) = true := by
  rw [convert_eq, Fault.bind_ok_iff]
  constructor
  · rintro ⟨w, hw, h⟩
    obtain ⟨rfl, hallowed⟩ := checkAllowed_ok_iff.1 h
    exact ⟨hw, hallowed⟩
  · rintro ⟨hw, hallowed⟩
    exact ⟨v, hw, checkAllowed_ok_iff.2 ⟨rfl, hallowed⟩⟩

/-! ## Members that the type names -/

/-- The value of a member: what is given, or else the default; none if neither is there. -/
def Property.fill (p : Property) (name : String) : Option Json → Except Fault (Option Value)
  | some json => do return some (← (p.convert json).mapError (invalidMember name))
  | none =>
    match p.default? with
    | some value => .ok (some value)
    | none => if p.required.value then .error (missing name) else .ok none

theorem convertMembers_cons (given : Fields Json) (name : String) (p : Property) (rest : Fields Property) :
    convertMembers given ((name, p) :: rest) = do
      let value ← p.fill name (given.get? name)
      let values ← convertMembers given rest
      return (value.map fun v => (name, v)).toList ++ values := by
  obtain ⟨shape, allowed, default, required, derived⟩ := p
  simp only [convertMembers, Property.fill, Property.default?]
  cases Fields.get? given name with
  | some json =>
    simp only [bind_assoc, pure_bind, Option.map_some, Option.toList_some, List.cons_append, List.nil_append]
  | none =>
    cases default with
    | some value => rfl
    | none =>
      cases required.value with
      | true => rfl
      | false => cases convertMembers given rest <;> rfl

theorem exists_convertMembers {given : Fields Json} {properties : Fields Property}
    (h : ∀ name p, (name, p) ∈ properties → ∃ v, p.fill name (given.get? name) = .ok v) :
    ∃ values, convertMembers given properties = .ok values := by
  induction properties with
  | nil => exact ⟨[], rfl⟩
  | cons m rest ih =>
    obtain ⟨name, p⟩ := m
    obtain ⟨v, hv⟩ := h name p List.mem_cons_self
    obtain ⟨vs, hvs⟩ := ih fun k q hq => h k q (List.mem_cons_of_mem _ hq)
    exact ⟨_, by rw [convertMembers_cons, hv, hvs]; rfl⟩

theorem convertMembers_spec {given : Fields Json} {properties : Fields Property} {values : Fields Value}
    (hs : Fields.Sorted properties) (h : convertMembers given properties = .ok values) :
    Fields.Sorted values ∧ (∀ name p, (name, p) ∈ properties → p.fill name (given.get? name) = .ok (values.get? name)) ∧
      ∀ name, properties.get? name = none → values.get? name = none := by
  induction properties generalizing values with
  | nil =>
    obtain rfl := Except.ok.inj h
    exact ⟨Fields.sorted_nil, fun _ _ hm => absurd hm List.not_mem_nil, fun _ _ => rfl⟩
  | cons m rest ih =>
    obtain ⟨n, p⟩ := m
    rw [convertMembers_cons] at h
    obtain ⟨v, hv, h⟩ := Fault.bind_ok_iff.1 h
    obtain ⟨vs, hvs, h⟩ := Fault.bind_ok_iff.1 h
    obtain rfl := Except.ok.inj h
    obtain ⟨hsorted, hfill, hnone⟩ := ih hs.tail hvs
    -- the names of the values behind the first come from the members behind the first
    have hlt : ∀ q ∈ vs, n < q.1 := fun q hq => by
      cases hr : Fields.get? rest q.1 with
      | none =>
        have : Fields.get? vs q.1 = some q.2 := hsorted.get?_of_mem hq
        rw [hnone _ hr] at this
        cases this
      | some r => exact hs.lt_of_mem (Fields.mem_of_get? hr)
    have hget : ∀ k, Fields.get? ((v.map fun v => (n, v)).toList ++ vs) k = if k = n then v else Fields.get? vs k :=
      Fields.get?_toList_append v (hnone n hs.get?_tail)
    refine ⟨?_, fun k q hq => ?_, fun k hk => ?_⟩
    · cases v with
      | none => exact hsorted
      | some v => exact List.pairwise_cons.2 ⟨hlt, hsorted⟩
    · rw [hget]
      rcases List.mem_cons.1 hq with he | hq
      · obtain ⟨rfl, rfl⟩ := Prod.mk.inj he
        rw [if_pos rfl, hv]
      · have hne : k ≠ n := fun he => String.lt_irrefl n (by simpa [he] using hs.lt_of_mem hq)
        rw [if_neg hne, hfill k q hq]
    · rw [Fields.get?_cons] at hk
      rw [hget]
      split at hk
      · cases hk
      · rename_i hne
        rw [if_neg hne, hnone k hk]

/-- **The members that a type names, by look-up.** -/
theorem convertMembers_ok_iff {given : Fields Json} {properties : Fields Property} {values : Fields Value}
    (hs : Fields.Sorted properties) :
    convertMembers given properties = .ok values ↔
      Fields.Sorted values ∧
        (∀ name p, (name, p) ∈ properties → p.fill name (given.get? name) = .ok (values.get? name)) ∧
        ∀ name, properties.get? name = none → values.get? name = none := by
  refine ⟨convertMembers_spec hs, fun ⟨hsorted, hfill, hnone⟩ => ?_⟩
  obtain ⟨found, hfound⟩ := exists_convertMembers fun name p hm => ⟨_, hfill name p hm⟩
  obtain ⟨hsorted', hfill', hnone'⟩ := convertMembers_spec hs hfound
  rw [hfound, hsorted'.ext hsorted fun name => ?_]
  cases hp : properties.get? name with
  | none => rw [hnone name hp, hnone' name hp]
  | some p =>
    have hm := Fields.mem_of_get? hp
    exact Except.ok.inj ((hfill' name p hm).symm.trans (hfill name p hm))

/-! ## Members outside the type -/

theorem names_of_membersOfJson? {fields : Fields Json} {values : Fields Value}
    (h : Value.membersOfJson? fields = some values) : values.names = fields.names := by
  induction fields generalizing values with
  | nil =>
    obtain rfl := Option.some.inj h
    rfl
  | cons p rest ih =>
    obtain ⟨name, json⟩ := p
    obtain ⟨v, _, h⟩ := Option.bind_eq_some_iff.1 h
    obtain ⟨vs, hvs, h⟩ := Option.bind_eq_some_iff.1 h
    obtain rfl := Option.some.inj h
    show name :: Fields.names vs = name :: Fields.names rest
    rw [ih hvs]

/-- The members outside a type are those that stand by themselves. A closed type has none. -/
theorem otherMembers_ok_iff {known : Fields Property} {isOpen : Bool} {fields : Fields Json} {values : Fields Value} :
    otherMembers known isOpen fields = .ok values ↔
      (isOpen = false → ∀ p ∈ fields, Fields.has known p.1 = true) ∧
        Value.membersOfJson? (fields.filter fun p => !Fields.has known p.1) = some values := by
  induction fields generalizing values with
  | nil => exact ⟨fun h => ⟨fun _ _ hm => absurd hm List.not_mem_nil, by rw [← Except.ok.inj h]; rfl⟩,
      fun ⟨_, h⟩ => by rw [← Option.some.inj h]; rfl⟩
  | cons p rest ih =>
    obtain ⟨name, json⟩ := p
    rw [otherMembers]
    by_cases hk : Fields.has known name = true
    · rw [if_pos hk, List.filter_cons_of_neg (by simp [hk]), ih, List.forall_mem_cons]
      simp [hk]
    · rw [if_neg hk, List.filter_cons_of_pos (by simp [hk]), List.forall_mem_cons]
      cases isOpen with
      | false => simp [hk]
      | true =>
        show (match Value.ofJson? json with
          | some v => otherMembers known true rest >>= fun vs => Except.ok ((name, v) :: vs)
          | none => Except.error (unsupported name json)) = .ok values ↔
          _ ∧ (Value.ofJson? json).bind (fun v => (Value.membersOfJson? _).bind fun vs => some ((name, v) :: vs)) = _
        cases Value.ofJson? json with
        | none => simp
        | some v =>
          show (otherMembers known true rest >>= fun vs => Except.ok ((name, v) :: vs)) = .ok values ↔ _
          rw [Fault.bind_ok_iff, Option.bind_some, Option.bind_eq_some_iff]
          simp [ih]

/-- The members of an object: those that the type names, and those outside it. -/
theorem ObjectType.convert_ok_iff {o : ObjectType} {json : Json} {values : Fields Value} :
    o.convert json = .ok values ↔ ∃ fields declared others, json = .object fields ∧
      convertMembers fields o.properties = .ok declared ∧ otherMembers o.properties o.isOpen fields = .ok others ∧
        values = Fields.merge declared others := by
  obtain ⟨properties, isOpen⟩ := o
  cases json with
  | object fields =>
    show (convertMembers fields properties >>= fun declared =>
      otherMembers properties isOpen fields >>= fun others => .ok (Fields.merge declared others)) = .ok values ↔ _
    simp only [Fault.bind_ok_iff]
    constructor
    · rintro ⟨declared, hd, others, ho, h⟩
      exact ⟨fields, declared, others, rfl, hd, ho, (Except.ok.inj h).symm⟩
    · rintro ⟨_, declared, others, he, hd, ho, rfl⟩
      obtain rfl := Json.object.inj he
      exact ⟨declared, hd, others, ho, rfl⟩
  | _ =>
    refine ⟨fun h => ?_, fun ⟨_, _, _, he, _⟩ => ?_⟩
    · cases h
    · cases he

/-- What an object type answers, by look-up: the members that it names, and no others if it is closed. -/
theorem ObjectType.convert_spec {o : ObjectType} (hs : Fields.Sorted o.properties) {fields : Fields Json}
    {values : Fields Value} (h : o.convert (.object fields) = .ok values) :
    Fields.Sorted values ∧
      (∀ name p, (name, p) ∈ o.properties → p.fill name (fields.get? name) = .ok (values.get? name)) ∧
        (o.isOpen = false → ∀ q ∈ values, Fields.has o.properties q.1 = true) := by
  obtain ⟨_, declared, others, he, hdeclared, hothers, rfl⟩ := convert_ok_iff.1 h
  obtain rfl := Json.object.inj he
  obtain ⟨hsorted, hfill, hnone⟩ := convertMembers_spec hs hdeclared
  obtain ⟨hclosed, hmem⟩ := otherMembers_ok_iff.1 hothers
  refine ⟨hsorted.merge others, fun name p hp => ?_, fun hc q hq => ?_⟩
  · -- no member outside the type has a name of the type
    have hk : Fields.has o.properties name = true := Fields.has_iff.2 ⟨p, hs.get?_of_mem hp⟩
    have hother : Fields.get? others.reverse name = none := by
      refine Fields.get?_eq_none_iff.2 fun q hq he => ?_
      have hn : q.1 ∈ Fields.names others := List.mem_map_of_mem (List.mem_reverse.1 hq)
      rw [names_of_membersOfJson? hmem] at hn
      obtain ⟨r, hr, hrq⟩ := List.mem_map.1 hn
      have := (List.mem_filter.1 hr).2
      rw [hrq, he, hk] at this
      cases this
    rw [Fields.get?_merge, hother, Option.none_or]
    exact hfill name p hp
  · have hnil : fields.filter (fun p => !Fields.has o.properties p.1) = [] :=
      List.filter_eq_nil_iff.2 fun p hp => by simp [hclosed hc p hp]
    rw [hnil] at hmem
    obtain rfl := Option.some.inj hmem
    have hget : Fields.get? declared q.1 = some q.2 := hsorted.get?_of_mem hq
    cases hp : Fields.get? o.properties q.1 with
    | none =>
      rw [hnone q.1 hp] at hget
      cases hget
    | some p => exact Fields.has_iff.2 ⟨p, hp⟩

/-- **An object of sorted fields, by look-up**: under the names of the type stands what their types make of the fields,
and under other names, which only an open type accepts, the values that stand by themselves. -/
theorem ObjectType.convert_object_iff {o : ObjectType} (hs : Fields.Sorted o.properties) {fields : Fields Json}
    (hf : Fields.Sorted fields) {values : Fields Value} :
    o.convert (.object fields) = .ok values ↔
      Fields.Sorted values ∧
      (∀ name p, (name, p) ∈ o.properties → p.fill name (fields.get? name) = .ok (values.get? name)) ∧
      ∀ name, o.get? name = none → (o.isOpen = false → fields.get? name = none) ∧
        (fields.get? name).map Value.ofJson? = (values.get? name).map some := by
  have hknown (values : Fields Value) (name : String) :
      Fields.get? (values.filter fun q => Fields.has o.properties q.1) name =
        if Fields.has o.properties name then values.get? name else none := Fields.get?_filter _ values name
  have hunknown {α : Type} (fields : Fields α) (name : String) :
      Fields.get? (fields.filter fun q => !Fields.has o.properties q.1) name =
        if !Fields.has o.properties name then fields.get? name else none :=
    Fields.get?_filter (fun name => !Fields.has o.properties name) fields name
  constructor
  · intro h
    obtain ⟨hvalues, hfill, _⟩ := convert_spec hs h
    refine ⟨hvalues, hfill, fun name hn => ?_⟩
    obtain ⟨_, declared, others, he, hdeclared, hothers, rfl⟩ := convert_ok_iff.1 h
    obtain rfl := Json.object.inj he
    obtain ⟨hclosed, hmem⟩ := otherMembers_ok_iff.1 hothers
    have hhas : Fields.has o.properties name = false := Fields.has_eq_false_iff.2 hn
    refine ⟨fun hc => Fields.get?_eq_none_iff.2 fun p hp he => ?_, ?_⟩
    · have hp := hclosed hc p hp
      rw [he, hhas] at hp
      cases hp
    · obtain ⟨_, _, hnone⟩ := convertMembers_spec hs hdeclared
      have hsorted : Fields.Sorted others := (hf.filter _).of_names (names_of_membersOfJson? hmem)
      have hget := congrArg (Fields.get? · name) (Value.membersOfJson?_eq_some_iff.1 hmem)
      simp only [Fields.get?_mapValues, hunknown, hhas, Bool.not_false, if_true] at hget
      rw [hget, hsorted.get?_merge, hnone name hn, Option.or_none]
  · rintro ⟨hvalues, hfill, hother⟩
    refine convert_ok_iff.2 ⟨fields, values.filter fun q => Fields.has o.properties q.1,
      values.filter fun q => !Fields.has o.properties q.1, rfl, ?_, otherMembers_ok_iff.2 ⟨fun hc p hp => ?_, ?_⟩, ?_⟩
    · refine (convertMembers_ok_iff hs).2 ⟨hvalues.filter _, fun name p hp => ?_, fun name hn => ?_⟩
      · rw [hknown, if_pos (Fields.has_iff.2 ⟨p, hs.get?_of_mem hp⟩)]
        exact hfill name p hp
      · rw [hknown, Fields.has_eq_false_iff.2 hn]
        rfl
    · refine Decidable.byContradiction fun hhas => ?_
      have hnone := (hother p.1 (Fields.has_eq_false_iff.1 (Bool.eq_false_iff.2 hhas))).1 hc
      rw [hf.get?_of_mem hp] at hnone
      cases hnone
    · refine Value.membersOfJson?_eq_some_iff.2 (((hf.filter _).mapValues _).ext ((hvalues.filter _).mapValues _)
        fun name => ?_)
      rw [Fields.get?_mapValues, Fields.get?_mapValues, hunknown, hunknown]
      cases hhas : Fields.has o.properties name with
      | true => rfl
      | false => exact (hother name (Fields.has_eq_false_iff.1 hhas)).2
    · refine hvalues.ext ((hvalues.filter _).merge _) fun name => ?_
      rw [(hvalues.filter _).get?_merge, hknown, hunknown]
      cases Fields.has o.properties name with
      | true => rfl
      | false => exact (Option.or_none ..).symm

/-- Values in order are taken for themselves, if each type makes of its own value that value. -/
theorem ObjectType.convert_toJson {o : ObjectType} (hs : Fields.Sorted o.properties) {values : Fields Value}
    (hsorted : Fields.Sorted values)
    (hfill : ∀ name p, (name, p) ∈ o.properties →
      p.fill name ((values.get? name).map Value.toJson) = .ok (values.get? name))
    (hclosed : o.isOpen = false → ∀ q ∈ values, Fields.has o.properties q.1 = true) :
    o.convert (.object (Value.membersToJson values)) = .ok values := by
  rw [Value.membersToJson_eq_map]
  refine (convert_object_iff hs (hsorted.mapValues _)).2
    ⟨hsorted, fun name p hp => ?_, fun name hn => ⟨fun hc => ?_, ?_⟩⟩
  · rw [Fields.get?_mapValues]
    exact hfill name p hp
  · refine Fields.get?_eq_none_iff.2 fun p hp he => ?_
    obtain ⟨q, hq, rfl⟩ := List.mem_map.1 hp
    obtain ⟨r, hr⟩ := Fields.has_iff.1 (hclosed hc q hq)
    rw [he] at hr
    cases hn.symm.trans hr
  · rw [Fields.get?_mapValues, Option.map_map]
    exact congrArg (Option.map · _) (funext Value.ofJson?_toJson)

/-! ## Refused objects -/

/-- The codes that refused objects report first: no object, or a member that is refused, missing or unknown. -/
def ObjectType.refusals : List Fault.Code :=
  [.typeMismatch, .invalidValue, .propertyMissing, .unknownProperty]

/-- What is wrong with an object: the value of a member, or the object at the top. -/
inductive ObjectType.Refuses (o : ObjectType) : Fault → Prop
  | member {name : String} {p : Property} {json : Json} {cause : Fault} (hp : (name, p) ∈ o.properties)
      (h : p.convert json = .error cause) : Refuses o (invalidMember name cause)
  | here {code : Fault.Code} {message : String} (h : code ∈ refusals) : Refuses o (.ofCommands code message)

namespace ObjectType

variable {o : ObjectType} {e : Fault}

theorem refuses_of_fill {name : String} {p : Property} {given : Option Json} (hp : (name, p) ∈ o.properties)
    (h : p.fill name given = .error e) : o.Refuses e := by
  cases given with
  | some json =>
    rcases Fault.bind_error_iff.1 h with h | ⟨_, _, h⟩
    · obtain ⟨cause, hcause, rfl⟩ := Fault.mapError_error_iff.1 h
      exact .member hp hcause
    · cases h
  | none =>
    rw [Property.fill] at h
    split at h
    · cases h
    · split at h
      · obtain rfl := Except.error.inj h
        exact .here (by decide)
      · cases h

theorem refuses_of_convertMembers {given : Fields Json} {properties : Fields Property}
    (hp : ∀ m ∈ properties, m ∈ o.properties) (h : convertMembers given properties = .error e) : o.Refuses e := by
  induction properties with
  | nil => cases h
  | cons m rest ih =>
    obtain ⟨name, p⟩ := m
    rw [convertMembers_cons] at h
    rcases Fault.bind_error_iff.1 h with h | ⟨_, _, h⟩
    · exact refuses_of_fill (hp _ List.mem_cons_self) h
    · rcases Fault.bind_error_iff.1 h with h | ⟨_, _, h⟩
      · exact ih (fun m hm => hp m (List.mem_cons_of_mem _ hm)) h
      · cases h

theorem refuses_of_otherMembers {known : Fields Property} {isOpen : Bool} {fields : Fields Json}
    (h : otherMembers known isOpen fields = .error e) : o.Refuses e := by
  induction fields with
  | nil => cases h
  | cons p rest ih =>
    obtain ⟨name, json⟩ := p
    rw [otherMembers] at h
    split at h
    · exact ih h
    · split at h
      · obtain rfl := Except.error.inj h
        exact .here (by decide)
      · split at h
        · rcases Fault.bind_error_iff.1 h with h | ⟨_, _, h⟩
          · exact ih h
          · cases h
        · obtain rfl := Except.error.inj h
          exact .here (by decide)

/-- **An object is refused for the value of a member, or for what is wrong with it at the top.** -/
theorem refuses_of_convert {json : Json} (h : o.convert json = .error e) : o.Refuses e := by
  obtain ⟨properties, isOpen⟩ := o
  cases json with
  | object fields =>
    rcases Fault.bind_error_iff.1 h with h | ⟨_, _, h⟩
    · exact refuses_of_convertMembers (fun _ hm => hm) h
    · rcases Fault.bind_error_iff.1 h with h | ⟨_, _, h⟩
      · exact refuses_of_otherMembers h
      · cases h
  | _ =>
    obtain rfl := Except.error.inj h
    exact .here (by decide)

/-- The report of a refused object says no more than what is wrong with it at the top. -/
theorem code_of_convert {json : Json} (h : o.convert json = .error e) : e.report.code ∈ refusals := by
  cases refuses_of_convert h with
  | member _ _ =>
    show Fault.Code.invalidValue ∈ refusals
    decide
  | here hcode => exact hcode

end ObjectType

/-! ## Values of a shape -/

/-- The values that a shape makes of JSON values: a number or text within its limits, or parts made by the types
inside. -/
inductive Shape.Makes : Shape Property → Json → Value → Prop where
  | integer {range : Bounds Int64} {json : Json} {n : Int64} :
      json.toInt64? = some n → range.check n = .ok () → Makes (.integer range) json (.integer n)
  | number {range : Bounds Double} {json : Json} {d : Double} :
      json.toDouble? = some d → range.check d = .ok () → Makes (.number range) json (.number d)
  | boolean {json : Json} {b : Bool} : json.toBool? = some b → Makes .boolean json (.boolean b)
  | string {lengths : Bounds Length} {json : Json} {s : String} :
      json.toString? = some s → Length.check lengths s = .ok () → Makes (.string lengths) json (.string s)
  | object {type : Attribute ObjectType} {json : Json} {values : Fields Value} :
      type.value.convert json = .ok values → Makes (.object type) json (.object values)
  | array {items : Attribute Property} {list : List Json} {values : List Value} :
      list.mapM items.value.convert = .ok values → Makes (.array (some items)) (.array list) (.array values)

theorem Shape.makes_of_convert {s : Shape Property} {json : Json} {v : Value} (h : s.convert json = .ok v) :
    s.Makes json v := by
  cases s with
  | integer range =>
    rw [convert] at h
    split at h
    · rename_i n hn
      obtain ⟨_, hcheck, h⟩ := Fault.bind_ok_iff.1 h
      obtain rfl := Except.ok.inj h
      exact .integer hn hcheck
    · cases h
  | number range =>
    rw [convert] at h
    split at h
    · rename_i d hd
      obtain ⟨_, hcheck, h⟩ := Fault.bind_ok_iff.1 h
      obtain rfl := Except.ok.inj h
      exact .number hd hcheck
    · cases h
  | boolean =>
    rw [convert] at h
    split at h
    · rename_i b hb
      obtain rfl := Except.ok.inj h
      exact .boolean hb
    · cases h
  | string lengths =>
    rw [convert] at h
    split at h
    · rename_i t ht
      obtain ⟨_, hcheck, h⟩ := Fault.bind_ok_iff.1 h
      obtain rfl := Except.ok.inj h
      exact .string ht hcheck
    · cases h
  | object type =>
    obtain ⟨values, hvalues, h⟩ := Fault.bind_ok_iff.1 h
    obtain rfl := Except.ok.inj h
    exact .object hvalues
  | array items =>
    cases items with
    | none => cases json <;> cases h
    | some items =>
      cases json with
      | array list =>
        obtain ⟨values, hvalues, h⟩ := Fault.bind_ok_iff.1 h
        obtain rfl := Except.ok.inj h
        exact .array hvalues
      | _ => cases h

theorem Shape.Makes.convert {s : Shape Property} {json : Json} {v : Value} (h : s.Makes json v) :
    s.convert json = .ok v := by
  cases h with
  | integer hn hcheck =>
    rw [Shape.convert, hn]
    exact Fault.bind_ok_iff.2 ⟨(), hcheck, rfl⟩
  | number hd hcheck =>
    rw [Shape.convert, hd]
    exact Fault.bind_ok_iff.2 ⟨(), hcheck, rfl⟩
  | boolean hb => rw [Shape.convert, hb]
  | string hs hcheck =>
    rw [Shape.convert, hs]
    exact Fault.bind_ok_iff.2 ⟨(), hcheck, rfl⟩
  | object hvalues => exact Fault.bind_ok_iff.2 ⟨_, hvalues, rfl⟩
  | array hvalues => exact Fault.bind_ok_iff.2 ⟨_, hvalues, rfl⟩

/-- **What a shape makes of a JSON value, case by case.** -/
theorem Shape.convert_ok_iff {s : Shape Property} {json : Json} {v : Value} :
    s.convert json = .ok v ↔ s.Makes json v :=
  ⟨makes_of_convert, Makes.convert⟩

/-- A shape makes values of its kind. -/
theorem Shape.kind_of_convert {s : Shape Property} {json : Json} {v : Value} (h : s.convert json = .ok v) :
    v.kind = s.kind := by
  cases convert_ok_iff.1 h <;> rfl

/-- Where the type of the items is missing nothing is made. -/
theorem Shape.ne_array_none_of_convert {s : Shape Property} {json : Json} {v : Value} (h : s.convert json = .ok v) :
    s ≠ .array none := by
  rintro rfl
  cases convert_ok_iff.1 h

theorem Property.kind_of_convert {p : Property} {json : Json} {v : Value} (h : p.convert json = .ok v) :
    v.kind = p.kind :=
  Shape.kind_of_convert (convert_ok_iff.1 h).1

/-- The items of an array value are values of the type of the items. -/
theorem Property.convert_item {p q : Property} (hq : p.items? = some q) {json : Json} {list : List Value}
    (h : p.convert json = .ok (.array list)) {v : Value} (hv : v ∈ list) : ∃ json, q.convert json = .ok v := by
  obtain ⟨inherited, hs⟩ := items?_eq_some_iff.1 hq
  have hm := Shape.convert_ok_iff.1 (convert_ok_iff.1 h).1
  rw [hs] at hm
  cases hm with
  | array hvalues =>
    obtain ⟨json, _, hjson⟩ := Fault.exists_of_mem_mapM hvalues hv
    exact ⟨json, hjson⟩

/-! ## Settled values -/

namespace Property

/-- The members of an object are in order. -/
def MembersSorted (p : Property) : Prop :=
  ∀ o, p.object? = some o → Fields.Sorted o.properties

/-- The type takes the JSON form of a value for that value. -/
def Accepts (p : Property) (v : Value) : Prop :=
  p.convert v.toJson = .ok v

/-- The type accepts all values that it makes of JSON values. -/
def Settles (p : Property) : Prop :=
  ∀ json v, p.convert json = .ok v → p.Accepts v

/-- The type accepts its own default. -/
def AcceptsDefault (p : Property) : Prop :=
  ∀ v, p.default? = some v → p.Accepts v

theorem Accepts.shape {p : Property} {v : Value} (h : p.Accepts v) : p.shape.convert v.toJson = .ok v :=
  (convert_ok_iff.1 h).1

theorem accepts_of_mem {p : Property} {list : List Value} (hl : p.allowed? = some list) {v : Value} (hv : v ∈ list)
    (h : p.shape.convert v.toJson = .ok v) : p.Accepts v := by
  obtain ⟨a, ha, rfl⟩ := Option.map_eq_some_iff.1 hl
  refine convert_ok_iff.2 ⟨h, fun a' he => ?_⟩
  obtain rfl := Option.some.inj (ha.symm.trans he)
  exact List.any_eq_true.2 ⟨v, hv, BEq.rfl⟩

theorem fill_settled {p : Property} (hs : p.Settles) (hd : p.AcceptsDefault) {name : String} {given : Option Json}
    {v : Option Value} (h : p.fill name given = .ok v) : p.fill name (v.map Value.toJson) = .ok v := by
  have hfill : ∀ w, p.Accepts w → p.fill name (some w.toJson) = .ok (some w) := fun w hw => by
    rw [fill, hw]
    rfl
  cases given with
  | some json =>
    obtain ⟨w, hw, h⟩ := Fault.bind_ok_iff.1 h
    obtain rfl := Except.ok.inj h
    exact hfill w (hs json w (Fault.mapError_ok_iff.1 hw))
  | none =>
    have h' := h
    rw [fill] at h'
    split at h'
    · rename_i w hw
      obtain rfl := Except.ok.inj h'
      exact hfill w (hd w hw)
    · split at h'
      · cases h'
      · obtain rfl := Except.ok.inj h'
        exact h

end Property

/-- What an object type answered is taken for the same members again, if the types of its members settle. -/
theorem ObjectType.convert_settled {o : ObjectType} (hsorted : Fields.Sorted o.properties)
    (hs : ∀ name p, (name, p) ∈ o.properties → p.Settles)
    (hd : ∀ name p, (name, p) ∈ o.properties → p.AcceptsDefault) {json : Json} {values : Fields Value}
    (h : o.convert json = .ok values) : o.convert (.object (Value.membersToJson values)) = .ok values := by
  obtain ⟨fields, _, _, rfl, _⟩ := convert_ok_iff.1 h
  obtain ⟨hvalues, hfill, hclosed⟩ := convert_spec hsorted h
  exact convert_toJson hsorted hvalues
    (fun name p hp => Property.fill_settled (hs name p hp) (hd name p hp) (hfill name p hp)) hclosed

/-- What a shape made of a JSON value it makes of the JSON form of the result, if the types inside it settle. -/
theorem Shape.convert_settled {p : Property} (hsorted : p.MembersSorted) (hs : ∀ q, Property.Child q p → q.Settles)
    (hd : ∀ q, Property.Child q p → q.AcceptsDefault) {json : Json} {v : Value} (h : p.shape.convert json = .ok v) :
    p.shape.convert v.toJson = .ok v := by
  have hm := convert_ok_iff.1 h
  generalize hshape : p.shape = s at hm
  cases hm with
  | integer _ hcheck => exact convert_ok_iff.2 (.integer (Json.toInt64?_integer _) hcheck)
  | number _ hcheck => exact convert_ok_iff.2 (.number rfl hcheck)
  | boolean _ => exact convert_ok_iff.2 (.boolean rfl)
  | string _ hcheck => exact convert_ok_iff.2 (.string rfl hcheck)
  | @object type _ values hvalues =>
    have ho : p.object? = some type.value := Property.object?_eq_some_iff.2 ⟨type.inherited, hshape⟩
    exact convert_ok_iff.2 (.object (ObjectType.convert_settled (hsorted _ ho) (fun _ q hq => hs q (.member ho hq))
      (fun _ q hq => hd q (.member ho hq)) hvalues))
  | @array items list values hvalues =>
    have hi : p.items? = some items.value := Property.items?_eq_some_iff.2 ⟨items.inherited, hshape⟩
    rw [Value.toJson, Value.itemsToJson_eq_map]
    refine convert_ok_iff.2 (.array (Fault.mapM_map_ok_iff.2 fun v hv => ?_))
    obtain ⟨json, _, hjson⟩ := Fault.exists_of_mem_mapM hvalues hv
    exact hs _ (.items hi) json v hjson

/-- **A type settles if the defaults inside it are accepted.** -/
theorem Property.settles_of_inside (p : Property) (hsorted : ∀ q, Part q p → q.MembersSorted)
    (hd : ∀ r q, Part r p → Child q r → q.AcceptsDefault) : p.Settles := by
  induction p using byChildren with
  | step p ih =>
    have hs : ∀ q, Child q p → q.Settles := fun q hq =>
      ih q hq (fun r hr => hsorted r (hr.trans hq.part)) fun r s hr => hd r s (hr.trans hq.part)
    intro json v h
    obtain ⟨hw, hallowed⟩ := convert_ok_iff.1 h
    refine convert_ok_iff.2 ⟨?_, hallowed⟩
    exact Shape.convert_settled (hsorted p (.refl p)) hs (fun q hq => hd p q (.refl p) hq) hw

end Capability
