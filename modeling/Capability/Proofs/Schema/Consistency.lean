import Capability.Proofs.Schema.Provenance
import Capability.Proofs.Schema.Reading

/-!
# Defaults and allowed values that fit their type

A definition's own default and its own allowed values are read as values of its type. What it takes over from its base
is not looked at again. So a type fits (`Property.Fits`: it accepts its default and its allowed values) unless its
definition narrows it under a value that is taken over (`Property.Narrows`).

* `Property.Read.fits_iff`: along a chain of definitions, everything fits as soon as the types that narrow do, and then
  what a conversion makes of an object, filled in with defaults, is accepted again.
* `taken_default_refused`: a definition may narrow a range under a default that it takes over.
-/

namespace Capability

open Property

/-! ## Taking over without changes -/

theorem Shape.From.convert_eq {s t : Shape Property} (h : s.From t) (ho : s.hasOwn = false) :
    s.convert = t.convert := by
  rw [← convert_inherit, h.inherit_eq ho, convert_inherit]

/-- An attribute that is taken over is there in the base. -/
theorem Attribute.From.of_taken {α : Type} {v : α} {base? : Option (Attribute α)}
    (h : From (some ⟨v, true⟩) base?) : base?.map (·.value) = some v := by
  rcases h with h | h
  · cases h
  · exact h.symm

namespace Property

section Taken

variable {base : Option Property} {p : Property}

theorem RestsOn.taken_allowed (h : RestsOn base p) {list : List Value} (ha : p.allowed = some ⟨list, true⟩) :
    ∃ c, base = some c ∧ c.allowed? = some list := by
  cases h with
  | intro _ allowed =>
    have hbase : (ground base p.kind).allowed? = some list := Attribute.From.of_taken (ha ▸ allowed)
    cases base with
    | none => cases hbase
    | some c => exact ⟨c, rfl, hbase⟩

theorem RestsOn.taken_default (h : RestsOn base p) {v : Value} (hd : p.default = some ⟨v, true⟩) :
    ∃ c, base = some c ∧ c.default? = some v := by
  cases h with
  | intro _ _ default =>
    have hbase : (ground base p.kind).default? = some v := Attribute.From.of_taken (hd ▸ default)
    cases base with
    | none => cases hbase
    | some c => exact ⟨c, rfl, hbase⟩

end Taken

/-! ## Fitting values -/

/-- The type accepts its default and all of its allowed values. -/
structure Fits (p : Property) : Prop where
  default : p.AcceptsDefault
  allowed : ∀ list, p.allowed? = some list → ∀ v ∈ list, p.Accepts v

/-- The definition gives the type a limit, or types inside it, under allowed values or a default that it takes over, or
gives it allowed values under a default that it takes over. -/
def Narrows (p : Property) : Prop :=
  (∃ list, p.allowed = some ⟨list, true⟩) ∧ p.shape.hasOwn = true ∨
    (∃ v, p.default = some ⟨v, true⟩) ∧ (p.shape.hasOwn = true ∨ Attribute.isOwn p.allowed = true)

section OneType

variable {base : Option Property} {p : Property}

/-- What a definition without limits and allowed values of its own takes over is accepted as it is by the base. -/
theorem RestsOn.accepts_iff {c : Property} (h : RestsOn (some c) p) (hs : p.shape.hasOwn = false)
    (ha : Attribute.isOwn p.allowed = false) (v : Value) : p.Accepts v ↔ c.Accepts v := by
  cases h with
  | intro shape allowed _ _ _ _ _ _ _ _ _ =>
    have hc : p.shape.convert = c.shape.convert := shape.convert_eq hs
    have hm : p.allowed.map Attribute.inherit = c.allowed.map Attribute.inherit := Attribute.From.inherit_eq allowed ha
    have hcheck : Conversion.checkAllowed p.allowed = Conversion.checkAllowed c.allowed := by
      rw [← checkAllowed_inherit, hm, checkAllowed_inherit]
    rw [Accepts, Accepts, convert_eq, convert_eq, hc, hcheck]

/-- A type accepts its allowed values, its own ones and those that it takes over without a change. -/
theorem RestsOn.accepts_allowed (h : RestsOn base p) (hs : ∀ q, Child q p → q.Settles)
    (hd : ∀ q, Child q p → q.AcceptsDefault) (hb : ∀ c, base = some c → c.Fits) (hn : p.Narrows → p.Fits)
    {list : List Value} (hl : p.allowed? = some list) {v : Value} (hv : v ∈ list) : p.Accepts v := by
  obtain ⟨⟨_, inherited⟩, ha, rfl⟩ := Option.map_eq_some_iff.1 hl
  cases inherited with
  | false =>
    obtain ⟨json, hjson⟩ := (h.allowed_own ha).2 v hv
    exact accepts_of_mem hl hv (Shape.convert_settled h.membersSorted hs hd hjson)
  | true =>
    by_cases hown : p.shape.hasOwn = true
    · exact (hn (.inl ⟨⟨_, ha⟩, hown⟩)).allowed _ hl v hv
    · obtain ⟨c, rfl, hc⟩ := h.taken_allowed ha
      have hinherited : Attribute.isOwn p.allowed = false := by rw [ha]; rfl
      exact (h.accepts_iff (Bool.eq_false_iff.2 hown) hinherited v).2 ((hb c rfl).allowed _ hc v hv)

/-- A type accepts its default, its own one and one that it takes over without a change. -/
theorem RestsOn.accepts_default (h : RestsOn base p) (hs : p.Settles) (hb : ∀ c, base = some c → c.Fits)
    (hn : p.Narrows → p.Fits) : p.AcceptsDefault := by
  intro v hv
  obtain ⟨⟨_, inherited⟩, hd, rfl⟩ := Option.map_eq_some_iff.1 hv
  cases inherited with
  | false =>
    obtain ⟨json, hjson⟩ := h.default_own hd
    exact hs json _ hjson
  | true =>
    by_cases hown : p.shape.hasOwn = true ∨ Attribute.isOwn p.allowed = true
    · exact (hn (.inr ⟨⟨_, hd⟩, hown⟩)).default _ hv
    · obtain ⟨hshape, hallowed⟩ := not_or.1 hown
      obtain ⟨c, rfl, hc⟩ := h.taken_default hd
      refine (h.accepts_iff (Bool.eq_false_iff.2 hshape) (Bool.eq_false_iff.2 hallowed) _).2 ?_
      exact (hb c rfl).default _ hc

end OneType

/-! ## Whole types -/

theorem WellFormed.settles {p : Property} (h : p.WellFormed) (hf : ∀ q r, Child q p → Part r q → r.Fits) :
    p.Settles := by
  refine settles_of_inside p (fun r hr => h.membersSorted hr) fun r q hr hq => ?_
  rcases hr.cases with rfl | ⟨q', hq', hr⟩
  · exact (hf q q hq (.refl q)).default
  · exact (hf q' q hq' (hq.part.trans hr)).default

/-- **Every part of a type fits, if all parts of the base do and so do the parts that narrow.** -/
theorem RestsOn.fits {base : Option Property} {p : Property} (h : RestsOn base p) (hw : p.WellFormed)
    (hb : ∀ c, base = some c → c.WellFormed ∧ ∀ r, Part r c → r.Fits) (hn : ∀ r, Part r p → r.Narrows → r.Fits) :
    ∀ r, Part r p → r.Fits := by
  refine h.forall_part hw hb fun base r hr hrests hbase hinside => ?_
  have hs : r.Settles := (hw.part hr).settles hinside
  refine ⟨hrests.accepts_default hs hbase (hn r hr), fun list hl v hv => ?_⟩
  refine hrests.accepts_allowed (fun q hq => ((hw.part hr).child hq).settles fun s t hs ht => ?_) (fun q hq => ?_)
    hbase (hn r hr) hl hv
  · exact hinside q t hq (ht.trans hs.part)
  · exact (hinside q q hq (.refl q)).default

/-! ## Chains of definitions -/

/-- **Along a chain of definitions all values fit, exactly if they fit the types that narrow. Then what an object type
makes of a value, defaults filled in, it takes for the same members again.** -/
theorem Read.fits_iff {bases : List Property} {p : Property} (h : Read bases p) :
    ((∀ q ∈ p :: bases, ∀ r, Part r q → r.Fits) ↔ ∀ q ∈ p :: bases, ∀ r, Part r q → r.Narrows → r.Fits) ∧
      ((∀ r, Part r p → r.Fits) → ∀ r o, Part r p → r.object? = some o → ∀ json values,
        o.convert json = .ok values → o.convert (.object (Value.membersToJson values)) = .ok values) := by
  refine ⟨⟨fun hf q hq r hr _ => hf q hq r hr, fun hn => ?_⟩, fun hf r o hr ho json values hv => ?_⟩
  · induction h with
    | @plain json p sorted h =>
      obtain ⟨hrests, hw⟩ := restsOn_ofJson json sorted (fun _ he => by cases he) h
      intro q hq
      obtain rfl := List.mem_singleton.1 hq
      exact hrests.fits hw (fun _ he => by cases he) (hn q hq)
    | @derived json base p bases sorted hb h ih =>
      obtain ⟨_, hbw⟩ := hb.spec
      obtain ⟨hrests, hw⟩ := restsOn_ofJson json sorted (fun _ he => Option.some.inj he ▸ hbw) h
      have hbases := ih fun q hq => hn q (List.mem_cons_of_mem _ hq)
      intro q hq
      rcases List.mem_cons.1 hq with rfl | hq
      · refine hrests.fits hw (fun c hc => ?_) (hn q List.mem_cons_self)
        obtain rfl := Option.some.inj hc
        exact ⟨hbw, hbases base List.mem_cons_self⟩
      · exact hbases q hq
  · obtain ⟨_, hw⟩ := h.spec
    have hsettles : ∀ q, Part q p → q.Settles := fun q hq =>
      (hw.part hq).settles fun s t hs ht => hf t (ht.trans (hs.part.trans hq))
    refine ObjectType.convert_settled (hw.membersSorted hr o ho) (fun name q hq => ?_) (fun name q hq => ?_) hv
    · exact hsettles q ((Child.member ho hq).part.trans hr)
    · exact (hf q ((Child.member ho hq).part.trans hr)).default

/-- A maximum under a default that is taken over narrows the type, and here the default still fits. -/
theorem default_fits_maximum : ∃ b p,
    Property.ofJson none (.object [("default", .integer 5), ("minimum", .integer 0)]) = .ok b ∧
      Property.ofJson (some b) (.object [("maximum", .integer 9)]) = .ok p ∧ p.Narrows ∧
        ∀ q ∈ [p, b], ∀ r, Part r q → r.Fits := by
  let b : Property := ⟨.integer ⟨some (.own 0), none⟩, none, some (.own (.integer 5)), ⟨false, true⟩, false⟩
  let p : Property := ⟨.integer ⟨some ⟨0, true⟩, some (.own 9)⟩, none, some ⟨.integer 5, true⟩, ⟨false, true⟩, true⟩
  have hb : Property.ofJson none (.object [("default", .integer 5), ("minimum", .integer 0)]) = .ok b := rfl
  have hp : Property.ofJson (some b) (.object [("maximum", .integer 9)]) = .ok p := rfl
  have hbs : Json.Sorted (.object [("default", .integer 5), ("minimum", .integer 0)]) :=
    ⟨List.pairwise_pair.2 (by decide), trivial, trivial, trivial⟩
  have hps : Json.Sorted (.object [("maximum", .integer 9)]) := ⟨List.pairwise_singleton _ _, trivial, trivial⟩
  have hread : Read [b] p := .derived hps (.plain hbs hb) hp
  refine ⟨b, p, hb, hp, .inr ⟨⟨_, rfl⟩, .inl rfl⟩, (Read.fits_iff hread).1.2 fun q hq r hr _ => ?_⟩
  have hq : q.items? = none ∧ q.object? = none ∧ q.default? = some (.integer 5) ∧ q.allowed? = none ∧
      q.Accepts (.integer 5) := by
    rcases List.mem_cons.1 hq with rfl | hq
    · exact ⟨rfl, rfl, rfl, rfl, rfl⟩
    · obtain rfl := List.mem_singleton.1 hq
      exact ⟨rfl, rfl, rfl, rfl, rfl⟩
  obtain ⟨hi, ho, hd, ha, haccepts⟩ := hq
  obtain rfl := hr.eq_of_leaf hi ho
  refine ⟨fun v hv => ?_, fun list hl => ?_⟩
  · obtain rfl := Option.some.inj (hd.symm.trans hv)
    exact haccepts
  · rw [ha] at hl
    cases hl

/-- **A range may be narrowed under a default that is taken over, and then refuses it.** -/
theorem taken_default_refused : ∃ b p,
    Property.ofJson none (.object [("default", .integer 5), ("minimum", .integer 0)]) = .ok b ∧
      Property.ofJson (some b) (.object [("minimum", .integer 10)]) = .ok p ∧ ¬p.AcceptsDefault := by
  refine ⟨_, _, rfl, rfl, fun h => ?_⟩
  cases h (.integer 5) rfl

end Property

end Capability
