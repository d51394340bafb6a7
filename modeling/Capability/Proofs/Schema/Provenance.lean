import Capability.Proofs.Schema.Conversion

/-!
# Where attributes come from

`Property.bare` forgets, at every depth, which attributes the definition gave itself. What is left decides which values
the type takes and which fault it answers (`convert_bare`), its name (`typeName_bare`) and what it is the same as
(`same_of_bare_eq`), for sameness looks at the parts of a type only (`Property.same_iff`).
-/

namespace Capability

open Conversion

/-! ## Attributes and limits -/

theorem Attribute.same?_of_inherit_eq {α : Type} {eq : α → α → Bool} (heq : ∀ v, eq v v = true)
    {a? b? : Option (Attribute α)} (h : a?.map inherit = b?.map inherit) : same? eq a? b? = true := by
  cases a? with
  | none =>
    cases b? with
    | none => rfl
    | some b => cases h
  | some a =>
    cases b? with
    | none => cases h
    | some b =>
      have hi : a.inherit = b.inherit := Option.some.inj h
      have hv : a.value = b.value := congrArg (fun c => c.value) hi
      show eq a.value b.value = true
      rw [hv]
      exact heq b.value

namespace Bounds

variable {α : Type}

@[simp] theorem least?_inherit (b : Bounds α) : b.inherit.least? = b.least? := by
  cases b with
  | mk lower upper => cases lower <;> rfl

@[simp] theorem greatest?_inherit (b : Bounds α) : b.inherit.greatest? = b.greatest? := by
  cases b with
  | mk lower upper => cases upper <;> rfl

theorem same_of_inherit_eq [BEq α] (heq : ∀ v : α, (v == v) = true) {a b : Bounds α} (h : a.inherit = b.inherit) :
    a.same b = true := by
  obtain ⟨hl, hu⟩ := Bounds.mk.inj h
  rw [same, Attribute.same?_of_inherit_eq heq hl, Attribute.same?_of_inherit_eq heq hu]
  rfl

variable [LT α] [DecidableLT α]

@[simp] theorem violation?_inherit (b : Bounds α) (x : α) : b.inherit.violation? x = b.violation? x := by
  rw [violation?, violation?, least?_inherit, greatest?_inherit]

@[simp] theorem check_inherit [Numeral α] (b : Bounds α) (x : α) : b.inherit.check x = b.check x := by
  rw [check, check, violation?_inherit]

@[simp] theorem checkLimits_inherit [Numeral α] (b : Bounds α) : b.inherit.checkLimits = b.checkLimits := by
  rw [checkLimits, checkLimits, crossed?, crossed?, least?_inherit, greatest?_inherit]

end Bounds

@[simp] theorem Length.check_inherit (b : Bounds Length) (s : String) :
    Length.check b.inherit s = Length.check b s := by
  have hm : b.inherit.map Fin.val = (b.map Fin.val).inherit := by
    obtain ⟨lower, upper⟩ := b
    cases lower <;> cases upper <;> rfl
  rw [Length.check, Length.check, hm, Bounds.violation?_inherit]

@[simp] theorem Length.checkLimits_inherit (b : Bounds Length) :
    Length.checkLimits b.inherit = Length.checkLimits b := by
  rw [Length.checkLimits, Length.checkLimits, Bounds.crossed?, Bounds.crossed?, Bounds.least?_inherit,
    Bounds.greatest?_inherit]

/-! ## Types -/

namespace Property

mutual
/-- The type with every attribute as if it were taken over, at every depth. -/
def bare : Property → Property
  | ⟨shape, allowed, default, required, _⟩ =>
    let shape : Shape Property :=
      match shape with
      | .integer range => .integer range.inherit
      | .number range => .number range.inherit
      | .boolean => .boolean
      | .string lengths => .string lengths.inherit
      | .object ⟨⟨properties, isOpen⟩, _⟩ => .object ⟨⟨bareMembers properties, isOpen⟩, true⟩
      | .array none => .array none
      | .array (some ⟨items, _⟩) => .array (some ⟨items.bare, true⟩)
    ⟨shape, allowed.map .inherit, default.map .inherit, required.inherit, true⟩
termination_by structural p => p

/-- The types of all members, with every attribute as if it were taken over. -/
def bareMembers : List (String × Property) → List (String × Property)
  | [] => []
  | (name, p) :: rest => (name, p.bare) :: bareMembers rest
termination_by structural properties => properties
end

theorem bareMembers_eq_mapValues (properties : Fields Property) :
    bareMembers properties = Fields.mapValues bare properties := by
  induction properties with
  | nil => rfl
  | cons m rest ih =>
    rw [bareMembers, ih]
    rfl

theorem bare_eq (p : Property) : p.bare =
    ⟨(p.shape.map bare).inherit, p.allowed.map .inherit, p.default.map .inherit, p.required.inherit, true⟩ := by
  obtain ⟨shape, allowed, default, required, derived⟩ := p
  cases shape with
  | object type =>
    obtain ⟨⟨properties, isOpen⟩, inherited⟩ := type
    rw [bare, bareMembers_eq_mapValues]
    rfl
  | array items => cases items <;> rfl
  | _ => rfl

@[simp] theorem typeName_bare (p : Property) : p.bare.typeName = p.typeName := by
  induction p using byChildren with
  | step p ih =>
    obtain ⟨shape, allowed, default, required, derived⟩ := p
    cases shape with
    | array items =>
      cases items with
      | none => rfl
      | some items =>
        show TypeName.arrayOf items.value.bare.typeName = TypeName.arrayOf items.value.typeName
        rw [ih items.value (.items rfl)]
    | object type => rfl
    | _ => rfl

theorem default?_bare (p : Property) : p.bare.default? = p.default? := by
  rw [bare_eq]
  cases hd : p.default <;> simp [default?, hd]

theorem fill_bare {p : Property} (h : p.bare.convert = p.convert) (name : String) (given : Option Json) :
    p.bare.fill name given = p.fill name given := by
  cases given with
  | some json => rw [fill, fill, h]
  | none =>
    have hr : p.bare.required.value = p.required.value := by
      rw [bare_eq]
      rfl
    rw [fill, fill, default?_bare, hr]

end Property

open Property

theorem otherMembers_congr {known known' : Fields Property} (h : ∀ name, known.has name = known'.has name)
    (isOpen : Bool) (fields : Fields Json) : otherMembers known isOpen fields = otherMembers known' isOpen fields := by
  induction fields with
  | nil => rfl
  | cons m rest ih =>
    obtain ⟨name, json⟩ := m
    rw [otherMembers, otherMembers, ih, h]

theorem ObjectType.convert_bare {o : ObjectType} (h : ∀ name p, (name, p) ∈ o.properties → p.bare.convert = p.convert) :
    ObjectType.convert (o.map bare) = o.convert := by
  obtain ⟨properties, isOpen⟩ := o
  funext json
  cases json with
  | object fields =>
    have hmembers : convertMembers fields (Fields.mapValues bare properties) = convertMembers fields properties := by
      induction properties with
      | nil => rfl
      | cons m rest ih =>
        obtain ⟨name, p⟩ := m
        show convertMembers fields ((name, p.bare) :: Fields.mapValues bare rest) = _
        rw [convertMembers_cons, convertMembers_cons, ih fun n q hq => h n q (List.mem_cons_of_mem _ hq),
          fill_bare (h name p List.mem_cons_self)]
    have hothers : otherMembers (Fields.mapValues bare properties) isOpen fields =
        otherMembers properties isOpen fields :=
      otherMembers_congr (fun name => by rw [Fields.has, Fields.has, Fields.get?_mapValues, Option.isSome_map]) _ _
    show (convertMembers fields (Fields.mapValues bare properties) >>= fun declared =>
      otherMembers (Fields.mapValues bare properties) isOpen fields >>= fun others => _) = _
    rw [hmembers, hothers]
    rfl
  | _ => rfl

@[simp] theorem checkAllowed_inherit (allowed : Option (Attribute (List Value))) :
    checkAllowed (allowed.map .inherit) = checkAllowed allowed := by
  cases allowed <;> rfl

@[simp] theorem Shape.convert_inherit (s : Shape Property) : s.inherit.convert = s.convert := by
  funext json
  cases s with
  | integer range => simp only [inherit, Shape.convert, Bounds.check_inherit]
  | number range => simp only [inherit, Shape.convert, Bounds.check_inherit]
  | string lengths => simp only [inherit, Shape.convert, Length.check_inherit]
  | array items => cases items <;> cases json <;> rfl
  | _ => rfl

theorem Shape.convert_map_bare {p : Property} (h : ∀ q, Child q p → q.bare.convert = q.convert) :
    (p.shape.map bare).convert = p.shape.convert := by
  funext json
  cases hs : p.shape with
  | object type =>
    have ho : p.object? = some type.value := object?_eq_some_iff.2 ⟨type.inherited, hs⟩
    show (do return Value.object (← ObjectType.convert (ObjectOf.map bare type.value) json)) = _
    rw [ObjectType.convert_bare fun name q hq => h q (.member ho hq)]
    rfl
  | array items =>
    cases items with
    | none => cases json <;> rfl
    | some items =>
      have hq := h items.value (.items (items?_eq_some_iff.2 ⟨items.inherited, hs⟩))
      cases json with
      | array list =>
        show (do return Value.array (← list.mapM items.value.bare.convert)) = _
        rw [hq]
        rfl
      | _ =>
        show Except.error (mismatch _ (.arrayOf items.value.bare.typeName)) = _
        rw [typeName_bare]
        rfl
  | _ => rfl

/-- **The values of a type do not depend on where its attributes came from.** -/
theorem Property.convert_bare (p : Property) : p.bare.convert = p.convert := by
  induction p using byChildren with
  | step p ih =>
    funext json
    rw [convert_eq, convert_eq, bare_eq, Shape.convert_inherit, Shape.convert_map_bare ih, checkAllowed_inherit]

/-! ## Sameness -/

/-- Shapes with the same limits, or with the same types inside. -/
inductive Shape.Same : Shape Property → Shape Property → Prop where
  | integer {a b : Bounds Int64} : a.same b = true → Same (.integer a) (.integer b)
  | number {a b : Bounds Double} : a.same b = true → Same (.number a) (.number b)
  | boolean : Same .boolean .boolean
  | string {a b : Bounds Length} : a.same b = true → Same (.string a) (.string b)
  | object {a b : Attribute ObjectType} : sameMembers a.value.properties b.value.properties = true →
      a.value.isOpen = b.value.isOpen → Same (.object a) (.object b)
  | untyped : Same (.array none) (.array none)
  | array {a b : Attribute Property} : a.value.same b.value = true → Same (.array (some a)) (.array (some b))

/-- Types are the same if all that they consist of is, wherever it came from. -/
theorem Property.same_iff {p q : Property} : p.same q = true ↔
    p.shape.Same q.shape ∧ Attribute.same? (· == ·) p.allowed q.allowed = true ∧
      Attribute.same? (· == ·) p.default q.default = true ∧ p.required.value = q.required.value := by
  obtain ⟨shape, allowed, default, required, derived⟩ := p
  rw [same.eq_def]
  simp only [Bool.and_eq_true, and_assoc]
  refine and_congr ?_ (and_congr Iff.rfl (and_congr Iff.rfl beq_iff_eq))
  generalize q.shape = shape'
  constructor
  · intro h
    split at h
    · exact .integer h
    · exact .number h
    · exact .boolean
    · exact .string h
    · rename_i o _ _ _
      obtain ⟨properties, isOpen⟩ := o
      rw [sameObject, Bool.and_eq_true] at h
      exact .object h.1 (beq_iff_eq.1 h.2)
    · exact .untyped
    · exact .array h
    · cases h
  · intro h
    cases h with
    | integer h => exact h
    | number h => exact h
    | boolean => rfl
    | string h => exact h
    | @object a b h ho =>
      obtain ⟨⟨properties, isOpen⟩, _⟩ := a
      exact Bool.and_eq_true_iff.2 ⟨h, beq_iff_eq.2 ho⟩
    | untyped => rfl
    | array h => exact h

theorem Property.sameMembers_of_bare_eq {ps qs : Fields Property}
    (h : ∀ name p, (name, p) ∈ ps → ∀ {q : Property}, p.bare = q.bare → p.same q = true)
    (he : Fields.mapValues bare ps = Fields.mapValues bare qs) : sameMembers ps qs = true := by
  induction ps generalizing qs with
  | nil =>
    cases qs with
    | nil => rfl
    | cons _ _ => cases he
  | cons m ps ih =>
    cases qs with
    | nil => cases he
    | cons m' qs =>
      obtain ⟨hm, hrest⟩ := List.cons.inj he
      obtain ⟨hname, hbare⟩ := Prod.mk.inj hm
      rw [sameMembers, h m.1 m.2 List.mem_cons_self hbare, hname, BEq.rfl,
        ih (fun name p hp => h name p (List.mem_cons_of_mem _ hp)) hrest]
      rfl

theorem Shape.same_of_bare_eq {p : Property} {s : Shape Property}
    (ih : ∀ q, Child q p → ∀ {r : Property}, q.bare = r.bare → q.same r = true)
    (h : (p.shape.map bare).inherit = (s.map bare).inherit) : p.shape.Same s := by
  cases hp : p.shape with
  | integer range =>
    rw [hp] at h
    cases s with
    | integer range' => exact .integer (Bounds.same_of_inherit_eq (fun _ => BEq.rfl) (Shape.integer.inj h))
    | _ => cases h
  | number range =>
    rw [hp] at h
    cases s with
    | number range' => exact .number (Bounds.same_of_inherit_eq (fun _ => Double.beq_iff.2 rfl) (Shape.number.inj h))
    | _ => cases h
  | boolean =>
    rw [hp] at h
    cases s with
    | boolean => exact .boolean
    | _ => cases h
  | string lengths =>
    rw [hp] at h
    cases s with
    | string lengths' => exact .string (Bounds.same_of_inherit_eq (fun _ => BEq.rfl) (Shape.string.inj h))
    | _ => cases h
  | object type =>
    have ho : p.object? = some type.value := object?_eq_some_iff.2 ⟨type.inherited, hp⟩
    rw [hp] at h
    cases s with
    | object type' =>
      have hmap : ObjectOf.map bare type.value = ObjectOf.map bare type'.value :=
        congrArg (fun a => a.value) (Shape.object.inj h)
      obtain ⟨hmembers, hopen⟩ := ObjectOf.mk.inj hmap
      exact .object (sameMembers_of_bare_eq (fun name q hq => ih q (.member ho hq)) hmembers) hopen
    | _ => cases h
  | array items =>
    rw [hp] at h
    cases s with
    | array items' =>
      cases items with
      | none =>
        cases items' with
        | none => exact .untyped
        | some _ => cases h
      | some items =>
        cases items' with
        | none => cases h
        | some items' =>
          have hi : items.value.bare = items'.value.bare :=
            congrArg Attribute.value (Option.some.inj (Shape.array.inj h))
          exact .array (ih items.value (.items (items?_eq_some_iff.2 ⟨items.inherited, hp⟩)) hi)
    | _ => cases h

/-- **Types that differ in where their attributes came from only are the same.** -/
theorem Property.same_of_bare_eq {p q : Property} (h : p.bare = q.bare) : p.same q = true := by
  induction p using byChildren generalizing q with
  | step p ih =>
    rw [bare_eq, bare_eq] at h
    obtain ⟨hshape, hallowed, hdefault, hrequired, _⟩ := Property.mk.inj h
    refine same_iff.2 ⟨Shape.same_of_bare_eq ih hshape, ?_, ?_, congrArg (fun a => a.value) hrequired⟩
    · exact Attribute.same?_of_inherit_eq (fun _ => BEq.rfl) hallowed
    · exact Attribute.same?_of_inherit_eq (fun _ => BEq.rfl) hdefault

end Capability
