import Capability.Proofs.Schema.FullForm

/-!
# Values in the shape of their type

A value has the shape of a type (`Property.Shaped`) when the kinds agree at every depth: the items of an array have the
shape of the type of the items, the declared members of an object that of their own types, and an object has other
members only if its type is open. Limits, allowed values and missing members do not matter.

* `Property.shaped_of_convert`: what a type makes of JSON values has its shape, where defaults are accepted.
* `Property.shaped_initial`: so does the value that a property starts with.
* `Property.RestsOn.value_of_none`: for types without a base, both without further assumptions.
-/

namespace Capability

open Conversion

namespace Property

/-- The value has the kinds that the type gives at every depth. -/
inductive Shaped : Property → Value → Prop
  | scalar {p : Property} {v : Value} (hkind : v.kind = p.kind) (hobject : v.kind ≠ .object)
      (harray : v.kind ≠ .array) :
      Shaped p v
  | object {p : Property} {o : ObjectType} {members : List (String × Value)} (htype : p.object? = some o)
      (hdeclared : ∀ m ∈ members, ∀ q, o.get? m.1 = some q → Shaped q m.2)
      (hclosed : o.isOpen = false → ∀ m ∈ members, (o.get? m.1).isSome = true) : Shaped p (.object members)
  | empty {p : Property} (hkind : p.kind = .array) : Shaped p (.array [])
  | array {p q : Property} {items : List Value} (htype : p.items? = some q) (hitems : ∀ v ∈ items, Shaped q v) :
      Shaped p (.array items)

/-! ## Converted values -/

/-- The value of a member is one that its type makes of a JSON value, if the type accepts its default. -/
theorem exists_convert_of_fill {p : Property} (hd : p.AcceptsDefault) {name : String} {given : Option Json} {v : Value}
    (h : p.fill name given = .ok (some v)) : ∃ json, p.convert json = .ok v := by
  cases given with
  | some json =>
    obtain ⟨w, hw, h⟩ := Fault.bind_ok_iff.1 h
    obtain rfl := Option.some.inj (Except.ok.inj h)
    exact ⟨json, Fault.mapError_ok_iff.1 hw⟩
  | none =>
    rw [fill] at h
    split at h
    · rename_i w hw
      obtain rfl := Option.some.inj (Except.ok.inj h)
      exact ⟨w.toJson, hd w hw⟩
    · split at h <;> cases h

/-- **What a type makes of a JSON value has the shape of the type**, if the defaults inside it are accepted. -/
theorem shaped_of_convert {p : Property} (hsorted : ∀ q, Part q p → q.MembersSorted)
    (hd : ∀ q r, Child q p → Part r q → r.AcceptsDefault) {json : Json} {v : Value} (h : p.convert json = .ok v) :
    p.Shaped v := by
  induction p using byChildren generalizing json v with
  | step p ih =>
    have hchild : ∀ q, Child q p → ∀ {json v}, q.convert json = .ok v → q.Shaped v := fun q hq _ _ =>
      ih q hq (fun r hr => hsorted r (hr.trans hq.part)) fun r s hr hs => hd q s hq (hs.trans hr.part)
    have hm := Shape.convert_ok_iff.1 (convert_ok_iff.1 h).1
    have hkind : v.kind = p.kind := kind_of_convert h
    generalize hshape : p.shape = s at hm
    cases hm with
    | integer => exact .scalar hkind nofun nofun
    | number => exact .scalar hkind nofun nofun
    | boolean => exact .scalar hkind nofun nofun
    | string => exact .scalar hkind nofun nofun
    | @object type json members hmembers =>
      have ho : p.object? = some type.value := object?_eq_some_iff.2 ⟨type.inherited, hshape⟩
      obtain ⟨fields, _, _, rfl, _⟩ := ObjectType.convert_ok_iff.1 hmembers
      obtain ⟨hvalues, hfill, hclosed⟩ := ObjectType.convert_spec (hsorted p (.refl p) _ ho) hmembers
      refine .object ho (fun m hm q hq => ?_) hclosed
      have hq : (m.1, q) ∈ type.value.properties := Fields.mem_of_get? hq
      have hfilled := hfill m.1 q hq
      rw [hvalues.get?_of_mem hm] at hfilled
      obtain ⟨json, hjson⟩ := exists_convert_of_fill (hd q q (.member ho hq) (.refl q)) hfilled
      exact hchild q (.member ho hq) hjson
    | @array items list values hvalues =>
      have hi : p.items? = some items.value := items?_eq_some_iff.2 ⟨items.inherited, hshape⟩
      refine .array hi fun v hv => ?_
      obtain ⟨json, _, hjson⟩ := Fault.exists_of_mem_mapM hvalues hv
      exact hchild _ (.items hi) hjson

/-! ## Initial values -/

/-- **The initial value of a type has its shape**, if the defaults in the type are accepted. -/
theorem shaped_initial {p : Property} (hsorted : ∀ q, Part q p → q.MembersSorted)
    (hd : ∀ q, Part q p → q.AcceptsDefault) : p.Shaped p.initial := by
  induction p using byChildren with
  | step p ih =>
    obtain ⟨shape, allowed, default, required, derived⟩ := p
    cases default with
    | some a =>
      obtain ⟨v, inherited⟩ := a
      exact shaped_of_convert hsorted (fun q r hq hr => hd r (hr.trans hq.part)) (hd _ (.refl _) v rfl)
    | none =>
      cases shape with
      | object type =>
        obtain ⟨⟨properties, isOpen⟩, inherited⟩ := type
        have hproperties : Fields.Sorted properties := hsorted _ (.refl _) _ rfl
        show Shaped _ (.object (initialMembers properties))
        rw [initialMembers_eq_mapValues]
        refine .object rfl (fun m hm q hq => ?_) fun _ m hm => ?_
        · obtain ⟨⟨name, r⟩, hr, rfl⟩ := List.mem_map.1 hm
          obtain rfl : r = q := Option.some.inj ((hproperties.get?_of_mem hr).symm.trans hq)
          have hchild : Child r ⟨.object ⟨⟨properties, isOpen⟩, inherited⟩, allowed, none, required, derived⟩ :=
            .member rfl hr
          exact ih r hchild (fun s hs => hsorted s (hs.trans hchild.part)) fun s hs => hd s (hs.trans hchild.part)
        · obtain ⟨⟨name, r⟩, hr, rfl⟩ := List.mem_map.1 hm
          exact Option.isSome_iff_exists.2 ⟨r, hproperties.get?_of_mem hr⟩
      | array items => exact .empty rfl
      | _ => exact .scalar rfl nofun nofun

/-! ## Types without a base -/

/-- **The values of a type without a base**: the one that it makes of a JSON value has the shape of the type, and so has
the one that a property starts with; the type takes the first for itself again. -/
theorem RestsOn.value_of_none {p : Property} (h : RestsOn none p) (hw : p.WellFormed) :
    p.Shaped p.initial ∧ ∀ json v, p.convert json = .ok v → p.Shaped v ∧ p.Accepts v := by
  have hfits : ∀ r, Part r p → r.Fits := fun r hr => h.fits_of_none hw hr
  have hsorted : ∀ q, Part q p → q.MembersSorted := fun q hq => hw.membersSorted hq
  have hsettles : p.Settles := hw.settles fun q r hq hr => hfits r (hr.trans hq.part)
  refine ⟨shaped_initial hsorted fun q hq => (hfits q hq).default, fun json v hv => ⟨?_, hsettles json v hv⟩⟩
  exact shaped_of_convert hsorted (fun q r hq hr => (hfits r (hr.trans hq.part)).default) hv

end Property

end Capability
