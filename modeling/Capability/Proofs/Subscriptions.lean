import Capability.Subscriptions
import Mathlib.Data.List.Basic
import Mathlib.Data.List.Induction

/-!
# The history of subscriptions

What callbacks do to the subscriptions while a dispatch runs is part of one history, in which dispatches may lie inside
each other (`Subscriptions.Acts`). The subscriptions are at all times the registrations that nothing has ended since
(`Subscriptions.standing`).

* `Subscriptions.Acts.snapshot_spec`: every dispatch invokes the callbacks that stood when it began, once each and in
  order; identifiers ascend; and a removal is answered by whether its identifier stands, once for each registration.
-/

namespace Capability.Subscriptions

variable {κ ω : Type}

/-! ## Histories -/

/-- What happens to subscriptions. -/
inductive Event (κ : Type) where
  /-- A callback is registered, under the identifier that is answered. -/
  | registered (id : Id) (callback : κ)
  /-- An identifier is removed. The answer is whether it was registered. -/
  | removed (id : Id) (answer : Bool)
  | cleared
  /-- A dispatch begins. It goes by the number of events before it. -/
  | began
  | invoked (dispatch : Nat) (callback : κ)

namespace Event

/-- What is registered. -/
def registration? : Event κ → Option (Id × κ)
  | .registered id callback => some (id, callback)
  | _ => none

/-- Whether a registration under the identifier ends here. -/
def ends (id : Id) : Event κ → Bool
  | .removed other _ => other == id
  | .cleared => true
  | _ => false

/-- Whether the identifier is removed here. -/
def removes (id : Id) : Event κ → Bool
  | .removed other _ => other == id
  | _ => false

/-- Whether the identifier is removed here, and was registered. -/
def succeeds (id : Id) : Event κ → Bool
  | .removed other answer => other == id && answer
  | _ => false

/-- The callback that a dispatch invokes here. -/
def invokedBy? (dispatch : Nat) : Event κ → Option κ
  | .invoked other callback => if other = dispatch then some callback else none
  | _ => none

end Event

/-- What has happened, the oldest event first. -/
abbrev History (κ : Type) := List (Event κ)

/-- The registrations that nothing ends later on, the oldest first. -/
def standing : History κ → List (Id × κ)
  | [] => []
  | .registered id callback :: later =>
    if later.any (·.ends id) then standing later else (id, callback) :: standing later
  | _ :: later => standing later

/-- An identifier is registered after what has happened. -/
def Stands (h : History κ) (id : Id) : Prop :=
  id ∈ (standing h).map (·.1)

/-- The identifiers that were given out. -/
def issued (h : History κ) : List Id :=
  h.filterMap fun e => e.registration?.map (·.1)

/-- The callbacks that a dispatch invokes. -/
def invoked (dispatch : Nat) (h : History κ) : List κ :=
  h.filterMap (·.invokedBy? dispatch)

/-- One more event ends registrations, or adds one. -/
theorem standing_concat (h : History κ) (e : Event κ) :
    standing (h ++ [e]) = (standing h).filter (fun p => !e.ends p.1) ++ e.registration?.toList := by
  induction h with
  | nil => cases e <;> rfl
  | cons first later ih =>
    cases first with
    | registered id callback =>
      rw [List.cons_append, standing, standing, List.any_append, ih]
      cases hlater : later.any (·.ends id) with
      | true => rfl
      | false =>
        cases he : e.ends id with
        | true => simp [he]
        | false => simp [he]
    | _ => exact ih

theorem stands_concat_iff {h : History κ} {e : Event κ} {id : Id} :
    Stands (h ++ [e]) id ↔ Stands h id ∧ e.ends id = false ∨ ∃ callback, e = .registered id callback := by
  unfold Stands
  rw [standing_concat, List.map_append, List.mem_append]
  refine or_congr ⟨fun hm => ?_, fun ⟨hm, he⟩ => ?_⟩ ⟨fun hm => ?_, fun ⟨callback, he⟩ => ?_⟩
  · obtain ⟨p, hp, rfl⟩ := List.mem_map.1 hm
    obtain ⟨hp, he⟩ := List.mem_filter.1 hp
    exact ⟨List.mem_map_of_mem hp, by simpa using he⟩
  · obtain ⟨p, hp, rfl⟩ := List.mem_map.1 hm
    exact List.mem_map_of_mem (List.mem_filter.2 ⟨hp, by simpa using he⟩)
  · cases e with
    | registered other callback => exact ⟨callback, by rw [List.mem_singleton.1 hm]⟩
    | _ => cases hm
  · rw [he]
    exact List.mem_singleton_self id

theorem issued_concat (h : History κ) (e : Event κ) :
    issued (h ++ [e]) = issued h ++ (e.registration?.map (·.1)).toList := by
  unfold issued
  rw [List.filterMap_append]
  cases e <;> rfl

theorem mem_issued_append {a : History κ} {id : Id} (hid : id ∈ issued a) (b : History κ) : id ∈ issued (a ++ b) := by
  unfold issued
  rw [List.filterMap_append]
  exact List.mem_append_left _ hid

theorem not_stands_of_ends {h : History κ} {e : Event κ} {id : Id} (hends : e.ends id = true) :
    ¬Stands (h ++ [e]) id := by
  intro hstands
  rcases stands_concat_iff.1 hstands with ⟨_, hfalse⟩ | ⟨callback, rfl⟩
  · rw [hends] at hfalse
    cases hfalse
  · cases hends

/-- What stands was given out. -/
theorem Stands.issued {h : History κ} {id : Id} (hs : Stands h id) : id ∈ issued h := by
  induction h using List.reverseRecOn with
  | nil => cases hs
  | append_singleton h e ih =>
    rcases stands_concat_iff.1 hs with ⟨hs, _⟩ | ⟨callback, rfl⟩
    · exact mem_issued_append (ih hs) [e]
    · rw [issued_concat]
      exact List.mem_append_right _ (List.mem_singleton_self id)

/-! ## Faithful histories -/

/-- The event agrees with what has happened before: identifiers are new, removals are answered by what stands, and
invocations belong to a dispatch that has begun. -/
def Event.Fits (h : History κ) : Event κ → Prop
  | .registered id _ => ∀ other ∈ issued h, other.val < id.val
  | .removed id answer => answer = true ↔ Stands h id
  | .invoked dispatch _ => ∃ before after, h = before ++ .began :: after ∧ before.length = dispatch
  | _ => True

/-- Each event agrees with what has happened before. -/
def Faithful (h : History κ) : Prop :=
  ∀ a e b, h = a ++ e :: b → e.Fits a

theorem Faithful.append_left {a b : History κ} (h : Faithful (a ++ b)) : Faithful a := by
  intro c e d hsplit
  exact h c e (d ++ b) (by rw [hsplit, List.append_assoc, List.cons_append])

/-- Identifiers ascend. -/
theorem Faithful.issued_ascend {h : History κ} (hf : Faithful h) : (issued h).Pairwise fun a b => a.val < b.val := by
  induction h using List.reverseRecOn with
  | nil => exact .nil
  | append_singleton h e ih =>
    rw [issued_concat]
    refine List.pairwise_append.2 ⟨ih hf.append_left, ?_, fun id hid other hother => ?_⟩
    · cases e <;> simp [Event.registration?]
    · cases e with
      | registered new callback =>
        obtain rfl := List.mem_singleton.1 hother
        exact hf h _ [] rfl id hid
      | _ => cases hother

theorem Faithful.not_issued {a b : History κ} {id : Id} {callback : κ}
    (hf : Faithful (a ++ .registered id callback :: b)) : id ∉ issued a := fun hid =>
  Nat.lt_irrefl id.val (hf a _ b rfl id hid)

/-- **An identifier that was given out and does not stand never stands again.** -/
theorem Faithful.not_stands {a b : History κ} (hf : Faithful (a ++ b)) {id : Id} (hid : id ∈ issued a)
    (hs : ¬Stands a id) : ¬Stands (a ++ b) id := by
  induction b using List.reverseRecOn with
  | nil =>
    rw [List.append_nil]
    exact hs
  | append_singleton b e ih =>
    rw [← List.append_assoc] at hf ⊢
    intro hstands
    rcases stands_concat_iff.1 hstands with ⟨hstands, _⟩ | ⟨callback, rfl⟩
    · exact ih hf.append_left hstands
    · exact hf.not_issued (mem_issued_append hid b)

/-- What stands goes by ascending identifiers. -/
theorem standing_sublist (h : History κ) : ((standing h).map (·.1)).Sublist (issued h) := by
  induction h with
  | nil => exact .slnil
  | cons e later ih =>
    cases e with
    | registered id callback =>
      rw [standing]
      split
      · exact ih.cons id
      · exact ih.cons_cons id
    | _ => exact ih

/-! ## Answers -/

theorem Event.Fits.succeeds {h : History κ} {e : Event κ} {id : Id} (hfits : e.Fits h) (hs : e.succeeds id = true) :
    Stands h id := by
  cases e with
  | removed other answer =>
    obtain ⟨hother, hanswer⟩ := Bool.and_eq_true_iff.1 hs
    obtain rfl := eq_of_beq hother
    exact hfits.1 hanswer
  | _ => cases hs

/-- No removal of an identifier succeeds before it is given out. -/
theorem Faithful.count_of_not_issued {h : History κ} (hf : Faithful h) {id : Id} (hid : id ∉ issued h) :
    h.countP (·.succeeds id) = 0 := by
  refine List.countP_eq_zero.2 fun e he hs => ?_
  obtain ⟨a, b, rfl⟩ := List.append_of_mem he
  exact hid (mem_issued_append ((hf a e b rfl).succeeds hs).issued (e :: b))

/-- No removal of an identifier succeeds when it has ended. -/
theorem Faithful.count_of_not_stands {a b : History κ} (hf : Faithful (a ++ b)) {id : Id} (hid : id ∈ issued a)
    (hs : ¬Stands a id) : b.countP (·.succeeds id) = 0 := by
  refine List.countP_eq_zero.2 fun e he hsucceeds => ?_
  obtain ⟨c, d, rfl⟩ := List.append_of_mem he
  rw [← List.append_assoc] at hf
  exact hf.append_left.not_stands hid hs ((hf _ e d rfl).succeeds hsucceeds)

/-- **While an identifier stands, a removal of it is going to succeed once if it comes before the next clearing**, and
none else. -/
theorem Faithful.count_of_stands {a b : History κ} (hf : Faithful (a ++ b)) {id : Id} (hs : Stands a id) :
    b.countP (·.succeeds id) = if (b.find? (·.ends id)).any (·.removes id) then 1 else 0 := by
  induction b generalizing a with
  | nil => rfl
  | cons e later ih =>
    have hrest : Faithful (a ++ [e] ++ later) := by rwa [List.append_assoc]
    rw [List.countP_cons, List.find?_cons]
    cases he : e.ends id with
    | false =>
      have hnot : e.succeeds id = false := by
        cases e with
        | removed other answer =>
          show (other == id && answer) = false
          rw [show (other == id) = false from he]
          rfl
        | _ => rfl
      rw [hnot, ih hrest (stands_concat_iff.2 (.inl ⟨hs, he⟩))]
      rfl
    | true =>
      rw [hrest.count_of_not_stands (mem_issued_append hs.issued [e]) (not_stands_of_ends he), Nat.zero_add]
      cases e with
      | removed other answer =>
        obtain rfl := eq_of_beq he
        have hanswer : answer = true := (hf a _ later rfl).2 hs
        rw [hanswer]
        simp [Event.succeeds, Event.removes]
      | cleared => rfl
      | _ => cases he

/-! ## Runs -/

/-- What a callback does, with a note that a dispatch has invoked it. -/
def noted (dispatch : Nat) (call : κ → Subscriptions κ → History κ × ω → Subscriptions κ × History κ × ω) :
    κ → Subscriptions κ → History κ × ω → Subscriptions κ × History κ × ω :=
  fun callback s run => call callback s (run.1 ++ [.invoked dispatch callback], run.2)

/-- What comes of subscriptions with their history and of a world by any sequence of operations. In a dispatch each
callback that is invoked goes on with operations of its own, which may be dispatches again. -/
inductive Acts : Subscriptions κ × History κ × ω → Subscriptions κ × History κ × ω → Prop
  | refl (run : Subscriptions κ × History κ × ω) : Acts run run
  | work {run : Subscriptions κ × History κ × ω} {s : Subscriptions κ} {h : History κ} {w : ω}
      (hrun : Acts run (s, h, w)) (w' : ω) : Acts run (s, h, w')
  | register {run : Subscriptions κ × History κ × ω} {s : Subscriptions κ} {h : History κ} {w : ω}
      (hrun : Acts run (s, h, w)) (callback : κ) :
      Acts run (s.register callback, h ++ [.registered s.nextId callback], w)
  | remove {run : Subscriptions κ × History κ × ω} {s : Subscriptions κ} {h : History κ} {w : ω}
      (hrun : Acts run (s, h, w)) (id : Id) : Acts run (s.remove id, h ++ [.removed id (s.has id)], w)
  | clear {run : Subscriptions κ × History κ × ω} {s : Subscriptions κ} {h : History κ} {w : ω}
      (hrun : Acts run (s, h, w)) : Acts run (s.clear, h ++ [.cleared], w)
  | dispatch {run : Subscriptions κ × History κ × ω} {s : Subscriptions κ} {h : History κ} {w : ω}
      (hrun : Acts run (s, h, w))
      {call : κ → Subscriptions κ → History κ × ω → Subscriptions κ × History κ × ω}
      (hcall : ∀ callback s h w, Acts (s, h, w) (call callback s (h, w))) :
      Acts run (s.dispatch (noted h.length call) (h ++ [.began], w))

/-- The subscriptions are what stands, and their next identifier is new. -/
structure Agrees (s : Subscriptions κ) (h : History κ) : Prop where
  callbacks : s.callbacks = standing h
  issued : ∀ id ∈ issued h, id.val < s.next

/-- Events that go on from a history. Apart from dispatches that run already, each dispatch among them invokes what
stood when it began. -/
structure Continues (running : Nat → Prop) (h later : History κ) : Prop where
  fits : ∀ a e b, later = a ++ e :: b → e.Fits (h ++ a)
  began : ∀ a b, later = a ++ .began :: b → invoked (h.length + a.length) b = (standing (h ++ a)).map (·.2)
  invoked : ∀ dispatch callback, .invoked dispatch callback ∈ later → running dispatch ∨ h.length ≤ dispatch

section Runs

variable {s : Subscriptions κ} {h a b later : History κ} {e : Event κ} {running : Nat → Prop}

/-! ### Agreement -/

theorem agrees_empty : (empty : Subscriptions κ).Agrees [] :=
  ⟨rfl, fun _ hid => by cases hid⟩

theorem Agrees.has_iff (hs : s.Agrees h) {id : Id} : s.has id = true ↔ Stands h id := by
  unfold has Stands
  rw [hs.callbacks, List.any_eq_true, List.mem_map]
  refine exists_congr fun p => and_congr_right fun _ => ?_
  exact beq_iff_eq

theorem Agrees.register (hs : s.Agrees h) (callback : κ) :
    (s.register callback).Agrees (h ++ [.registered s.nextId callback]) := by
  constructor
  · rw [standing_concat, ← hs.callbacks]
    simp [Subscriptions.register, Event.ends, Event.registration?]
  · intro id hid
    rw [issued_concat, List.mem_append] at hid
    rcases hid with hid | hid
    · exact Nat.lt_succ_of_lt (hs.issued id hid)
    · rw [List.mem_singleton.1 hid]
      exact Nat.lt_succ_self s.next

/-- Events that register nothing give out no identifier. -/
theorem Agrees.concat {s' : Subscriptions κ} (hs : s.Agrees h) (he : e.registration? = none) (hnext : s'.next = s.next)
    (hcallbacks : s'.callbacks = s.callbacks.filter fun p => !e.ends p.1) : s'.Agrees (h ++ [e]) := by
  constructor
  · rw [standing_concat, he, ← hs.callbacks, hcallbacks]
    exact (List.append_nil _).symm
  · rw [issued_concat, he, hnext]
    intro id hid
    exact hs.issued id (by simpa using hid)

theorem Agrees.remove (hs : s.Agrees h) (id : Id) : (s.remove id).Agrees (h ++ [.removed id (s.has id)]) := by
  refine hs.concat rfl rfl (List.filter_congr fun p _ => ?_)
  show (p.1 != id) = !(id == p.1)
  rw [bne, BEq.comm]

theorem Agrees.clear (hs : s.Agrees h) : s.clear.Agrees (h ++ [.cleared]) :=
  hs.concat rfl rfl (List.filter_eq_nil_iff.2 fun _ _ => Bool.false_ne_true).symm

/-- Invocations and the beginning of a dispatch change nothing. -/
theorem Agrees.concat_self (hs : s.Agrees h) (he : e.registration? = none) (hends : ∀ id, e.ends id = false) :
    s.Agrees (h ++ [e]) := by
  refine hs.concat he rfl (List.filter_eq_self.2 fun p _ => ?_).symm
  rw [hends]
  rfl

/-! ### Continuation -/

theorem invoked_append (dispatch : Nat) (a b : History κ) :
    Subscriptions.invoked dispatch (a ++ b) = Subscriptions.invoked dispatch a ++ Subscriptions.invoked dispatch b :=
  List.filterMap_append

/-- An event of two histories in a row lies in the first or in the second one. -/
theorem split_append {c d : History κ} (hsplit : a ++ b = c ++ e :: d) :
    (∃ d', a = c ++ e :: d' ∧ d = d' ++ b) ∨ ∃ c', c = a ++ c' ∧ b = c' ++ e :: d := by
  rcases List.append_eq_append_iff.1 hsplit with hright | ⟨c', rfl, hleft⟩
  · exact .inr hright
  · cases c' with
    | nil => exact .inr ⟨[], by rw [List.append_nil, List.append_nil], hleft.symm⟩
    | cons first d' =>
      obtain ⟨rfl, rfl⟩ := List.cons_eq_cons.1 hleft
      exact .inl ⟨d', rfl, rfl⟩

theorem continues_nil : Continues running h [] :=
  ⟨fun a e b hsplit => by simp at hsplit, fun a b hsplit => by simp at hsplit, fun _ _ hm => by cases hm⟩

/-- One event that begins no dispatch. -/
theorem continues_singleton (hfits : e.Fits h) (hbegan : e ≠ .began)
    (hinvoked : ∀ dispatch callback, e = .invoked dispatch callback → running dispatch) : Continues running h [e] := by
  constructor
  · intro a e' b hsplit
    obtain ⟨rfl, rfl, rfl⟩ : a = [] ∧ e' = e ∧ b = [] := by
      cases a with
      | nil => simpa [eq_comm] using hsplit
      | cons _ _ => simp at hsplit
    rw [List.append_nil]
    exact hfits
  · intro a b hsplit
    have hm : .began ∈ [e] := hsplit ▸ List.mem_append_right a List.mem_cons_self
    exact absurd (List.mem_singleton.1 hm).symm hbegan
  · intro dispatch callback hm
    exact .inl (hinvoked dispatch callback (List.mem_singleton.1 hm).symm)

/-- A dispatch that is over by now invokes nothing more. -/
theorem Continues.invoked_eq_nil (hc : Continues running h later) {dispatch : Nat} (hover : dispatch < h.length)
    (hrunning : ¬running dispatch) : Subscriptions.invoked dispatch later = [] := by
  refine List.filterMap_eq_nil_iff.2 fun e he => ?_
  cases e with
  | invoked other callback =>
    refine if_neg fun heq => ?_
    rcases hc.invoked other callback he with hother | hother
    · exact hrunning (heq ▸ hother)
    · omega
  | _ => rfl

theorem Continues.append (hrunning : ∀ dispatch, running dispatch → dispatch < h.length) (ha : Continues running h a)
    (hb : Continues running (h ++ a) b) : Continues running h (a ++ b) := by
  constructor
  · intro c e d hsplit
    rcases split_append hsplit with ⟨d', rfl, rfl⟩ | ⟨c', rfl, rfl⟩
    · exact ha.fits c e d' rfl
    · rw [← List.append_assoc]
      exact hb.fits c' e d rfl
  · intro c d hsplit
    rcases split_append hsplit with ⟨d', rfl, rfl⟩ | ⟨c', rfl, rfl⟩
    · have hnone : Subscriptions.invoked (h.length + c.length) b = [] := by
        refine hb.invoked_eq_nil ?_ fun hr => ?_
        · simp
        · have := hrunning _ hr
          omega
      rw [invoked_append, hnone, List.append_nil]
      exact ha.began c d' rfl
    · rw [← List.append_assoc, List.length_append, ← Nat.add_assoc, ← List.length_append]
      exact hb.began c' d rfl
  · intro dispatch callback hm
    rcases List.mem_append.1 hm with hm | hm
    · exact ha.invoked dispatch callback hm
    · refine (hb.invoked dispatch callback hm).imp_right fun hle => ?_
      rw [List.length_append] at hle
      omega

theorem Continues.mono {running' : Nat → Prop} (hc : Continues running h later)
    (himp : ∀ dispatch, running dispatch → running' dispatch) : Continues running' h later :=
  ⟨hc.fits, hc.began, fun dispatch callback hm => (hc.invoked dispatch callback hm).imp_left (himp dispatch)⟩

/-- A dispatch with all that comes of it goes on from what was before. -/
theorem Continues.dispatch (hc : Continues (· = h.length) (h ++ [.began]) later)
    (hinvoked : Subscriptions.invoked h.length later = (standing h).map (·.2)) :
    Continues running h (.began :: later) := by
  constructor
  · intro a e b hsplit
    cases a with
    | nil =>
      obtain ⟨rfl, _⟩ := List.cons_eq_cons.1 hsplit
      trivial
    | cons first a =>
      obtain ⟨rfl, rfl⟩ := List.cons_eq_cons.1 hsplit
      rw [List.append_cons]
      exact hc.fits a e b rfl
  · intro a b hsplit
    cases a with
    | nil =>
      obtain ⟨_, rfl⟩ := List.cons_eq_cons.1 hsplit
      rw [List.append_nil]
      exact hinvoked
    | cons first a =>
      obtain ⟨rfl, rfl⟩ := List.cons_eq_cons.1 hsplit
      rw [List.append_cons, List.length_cons, Nat.add_comm a.length, ← Nat.add_assoc]
      have hbegan := hc.began a b rfl
      rwa [List.length_append] at hbegan
  · intro dispatch callback hm
    rcases List.mem_cons.1 hm with hm | hm
    · cases hm
    · refine .inr ?_
      rcases hc.invoked dispatch callback hm with rfl | hle
      · exact Nat.le_refl _
      · rw [List.length_append] at hle
        omega

/-! ### Whole runs -/

/-- The second run goes on from the first one. -/
def Proceeds (run run' : Subscriptions κ × History κ × ω) : Prop :=
  run.1.Agrees run.2.1 → ∃ later, run'.2.1 = run.2.1 ++ later ∧ run'.1.Agrees run'.2.1 ∧
    Continues (fun _ => False) run.2.1 later

theorem Proceeds.trans {run middle run' : Subscriptions κ × History κ × ω} (hp : Proceeds run middle)
    (hq : Proceeds middle run') : Proceeds run run' := by
  intro hrun
  obtain ⟨a, ha, hmiddle, hca⟩ := hp hrun
  obtain ⟨b, hb, hrun', hcb⟩ := hq hmiddle
  rw [ha] at hb hcb
  exact ⟨a ++ b, by rw [hb, List.append_assoc], hrun', hca.append (fun _ hr => hr.elim) hcb⟩

/-- One operation that is no dispatch. -/
theorem proceeds_concat {s' : Subscriptions κ} {w : ω} (hagrees : s.Agrees h → s'.Agrees (h ++ [e]) ∧ e.Fits h)
    (hbegan : e ≠ .began) (hinvoked : ∀ dispatch callback, e ≠ .invoked dispatch callback) :
    Proceeds (s, h, w) (s', h ++ [e], w) := by
  intro hs
  obtain ⟨hs', hfits⟩ := hagrees hs
  exact ⟨[e], rfl, hs', continues_singleton hfits hbegan fun dispatch callback he => hinvoked dispatch callback he⟩

/-- **A dispatch invokes the callbacks of its snapshot one after the other**, whatever they do. -/
theorem continues_foldl {call : κ → Subscriptions κ → History κ × ω → Subscriptions κ × History κ × ω}
    (hcall : ∀ callback s h w, Proceeds (s, h, w) (call callback s (h, w))) {dispatch : Nat} (callbacks : List κ)
    (run : Subscriptions κ × History κ × ω) (hrun : run.1.Agrees run.2.1)
    (hbegan : ∃ before after, run.2.1 = before ++ .began :: after ∧ before.length = dispatch) :
    let run' := callbacks.foldl (fun run callback => noted dispatch call callback run.1 run.2) run
    ∃ later, run'.2.1 = run.2.1 ++ later ∧ run'.1.Agrees run'.2.1 ∧ Continues (· = dispatch) run.2.1 later ∧
      Subscriptions.invoked dispatch later = callbacks := by
  induction callbacks generalizing run with
  | nil => exact ⟨[], (List.append_nil _).symm, hrun, continues_nil, rfl⟩
  | cons callback rest ih =>
    obtain ⟨s, h, w⟩ := run
    obtain ⟨before, after, rfl, rfl⟩ := hbegan
    let note : Event κ := .invoked before.length callback
    have hnoted : Continues (· = before.length) (before ++ .began :: after) [note] :=
      continues_singleton ⟨before, after, rfl, rfl⟩ (by simp [note]) fun _ _ he => (Event.invoked.inj he).1.symm
    have hbefore : before.length < (before ++ .began :: after).length := by simp
    have hover : before.length < (before ++ .began :: after ++ [note]).length := by simp
    -- what the callback does comes after the note, and what the others do after that
    obtain ⟨own, hown, hagrees, hcontinues⟩ :=
      hcall callback s (before ++ .began :: after ++ [note]) w (hrun.concat_self rfl fun _ => rfl)
    obtain ⟨others, hothers, hagrees', hcontinues', hinvoked⟩ :=
      ih _ hagrees ⟨before, after ++ note :: own, by rw [hown]; simp, rfl⟩
    rw [hown] at hcontinues' hothers
    have hcalled : Continues (· = before.length) (before ++ .began :: after ++ [note]) (own ++ others) :=
      (hcontinues.mono fun _ hr => hr.elim).append (fun _ hr => hr ▸ hover) hcontinues'
    have hnone : Subscriptions.invoked before.length own = [] := hcontinues.invoked_eq_nil hover id
    refine ⟨[note] ++ (own ++ others), ?_, hagrees', hnoted.append (fun _ hr => hr ▸ hbefore) hcalled, ?_⟩
    · refine hothers.trans ?_
      rw [List.append_assoc, List.append_assoc, List.append_assoc]
    · rw [invoked_append, invoked_append, hnone, hinvoked]
      simp [note, Subscriptions.invoked, Event.invokedBy?]

/-- **Whatever is done to subscriptions goes on from what was before.** -/
theorem Acts.proceeds {run run' : Subscriptions κ × History κ × ω} (hacts : Acts run run') : Proceeds run run' := by
  induction hacts with
  | refl run => exact fun hrun => ⟨[], (List.append_nil _).symm, hrun, continues_nil⟩
  | work _ w' ih => exact ih
  | @register run s h w _ callback ih =>
    exact ih.trans (proceeds_concat (fun hs => ⟨hs.register callback, hs.issued⟩) nofun nofun)
  | remove _ id ih =>
    exact ih.trans (proceeds_concat (fun hs => ⟨hs.remove id, hs.has_iff⟩) nofun nofun)
  | clear _ ih =>
    exact ih.trans (proceeds_concat (fun hs => ⟨hs.clear, trivial⟩) nofun nofun)
  | @dispatch run s h w hrun call hcall ih ihcall =>
    refine ih.trans fun hs => ?_
    obtain ⟨later, hlater, hagrees, hcontinues, hinvoked⟩ := continues_foldl ihcall s.snapshot (s, h ++ [.began], w)
      (hs.concat_self rfl fun _ => rfl) ⟨h, [], rfl, rfl⟩
    rw [snapshot, hs.callbacks] at hinvoked
    exact ⟨.began :: later, hlater.trans (List.append_cons h .began later).symm, hagrees, hcontinues.dispatch hinvoked⟩

end Runs

/-- **Every dispatch invokes the callbacks that are registered when it begins**, each once and in the order of their
registration, whatever they do meanwhile. Identifiers ascend over the whole history, and what is registered stands in
their order. A removal is answered by whether its identifier is registered, which an identifier that has ended never is
again. So of all removals of an identifier that was given out one succeeds if it was removed before it was cleared, and
none otherwise. -/
theorem Acts.snapshot_spec {s : Subscriptions κ} {h : History κ} {w w' : ω} (hacts : Acts (empty, [], w) (s, h, w')) :
    s.callbacks = standing h ∧ (s.callbacks.map (·.1)).Pairwise (fun a b => a.val < b.val) ∧
    (issued h).Pairwise (fun a b => a.val < b.val) ∧
    (∀ a b, h = a ++ .began :: b → invoked a.length b = (standing a).map (·.2)) ∧
    (∀ a dispatch callback b, h = a ++ .invoked dispatch callback :: b →
      ∃ before after, a = before ++ .began :: after ∧ before.length = dispatch) ∧
    (∀ a id answer b, h = a ++ .removed id answer :: b → (answer = true ↔ Stands a id)) ∧
    (∀ a e b c id, h = a ++ e :: (b ++ c) → e.ends id = true → id ∈ issued a → ¬Stands (a ++ e :: b) id) ∧
    ∀ a id callback b, h = a ++ .registered id callback :: b →
      h.countP (·.succeeds id) = if (b.find? (·.ends id)).any (·.removes id) then 1 else 0 := by
  obtain ⟨later, hlater, hagrees, hcontinues⟩ := hacts.proceeds agrees_empty
  obtain rfl : h = later := hlater
  have hf : Faithful h := hcontinues.fits
  refine ⟨hagrees.callbacks, ?_, hf.issued_ascend, fun a b hsplit => ?_, fun a dispatch callback b hsplit => ?_,
    fun a id answer b hsplit => ?_, fun a e b c id hsplit hends hid => ?_, fun a id callback b hsplit => ?_⟩
  · rw [hagrees.callbacks]
    exact hf.issued_ascend.sublist (standing_sublist h)
  · have hbegan := hcontinues.began a b hsplit
    rwa [List.length_nil, Nat.zero_add] at hbegan
  · exact hf a _ b hsplit
  · exact hf a _ b hsplit
  · subst hsplit
    rw [List.append_cons] at hf ⊢
    rw [← List.append_assoc] at hf
    exact hf.append_left.not_stands (mem_issued_append hid [e]) (not_stands_of_ends hends)
  · subst hsplit
    have hstands : Stands (a ++ [.registered id callback]) id := stands_concat_iff.2 (.inr ⟨callback, rfl⟩)
    rw [List.countP_append, hf.append_left.count_of_not_issued hf.not_issued, Nat.zero_add]
    rw [List.append_cons] at hf
    exact hf.count_of_stands hstands

/-- The first of two callbacks removes both and registers another one; the second one runs all the same, and dispatches
again. -/
theorem Acts.snapshot_spec_nested : ∃ (s : Subscriptions Nat) (h : History Nat), Acts (empty, [], ()) (s, h, ()) ∧
    h = [.registered ⟨1⟩ 0, .registered ⟨2⟩ 1, .began, .invoked 2 0, .removed ⟨1⟩ true, .removed ⟨2⟩ true,
      .registered ⟨3⟩ 7, .invoked 2 1, .began, .invoked 8 7, .removed ⟨2⟩ false, .began, .invoked 11 7] ∧
    invoked 2 (h.drop 3) = [0, 1] ∧ invoked 8 (h.drop 9) = [7] ∧ invoked 11 (h.drop 12) = [7] ∧
    h.countP (·.succeeds ⟨2⟩) = 1 ∧ s.callbacks = [(⟨3⟩, 7)] := by
  let idle : Nat → Subscriptions Nat → History Nat × Unit → Subscriptions Nat × History Nat × Unit :=
    fun _ s run => (s, run)
  let call : Nat → Subscriptions Nat → History Nat × Unit → Subscriptions Nat × History Nat × Unit :=
    fun callback s run =>
      match callback with
      | 0 =>
        let s₁ := s.remove ⟨1⟩
        let s₂ := s₁.remove ⟨2⟩
        (s₂.register 7,
          run.1 ++ [.removed ⟨1⟩ (s.has ⟨1⟩)] ++ [.removed ⟨2⟩ (s₁.has ⟨2⟩)] ++ [.registered s₂.nextId 7], run.2)
      | 1 => s.dispatch (noted run.1.length idle) (run.1 ++ [.began], run.2)
      | _ => (s, run)
  have hidle : ∀ callback s h w, Acts (s, h, w) (idle callback s (h, w)) := fun _ s h w => .refl (s, h, w)
  have hcall : ∀ callback s h w, Acts (s, h, w) (call callback s (h, w)) := by
    intro callback s h w
    match callback with
    | 0 => exact (((Acts.refl (s, h, w)).remove ⟨1⟩).remove ⟨2⟩).register 7
    | 1 => exact (Acts.refl (s, h, w)).dispatch hidle
    | _ + 2 => exact .refl (s, h, w)
  have hacts := ((((((Acts.refl (empty, [], ())).register 0).register 1).dispatch hcall).remove ⟨2⟩).dispatch hcall)
  obtain ⟨hstanding, _, _, hinvoked, _, _, _, hcount⟩ := hacts.snapshot_spec
  refine ⟨_, _, hacts, rfl, hinvoked [_, _] _ rfl, ?_, ?_, hcount [_] _ _ _ rfl, hstanding⟩
  · exact hinvoked [_, _, _, _, _, _, _, _] _ rfl
  · exact hinvoked [_, _, _, _, _, _, _, _, _, _, _] _ rfl

end Capability.Subscriptions
