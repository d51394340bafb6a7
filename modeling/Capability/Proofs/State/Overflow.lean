import Capability.Proofs.State.Replay

/-!
# A log without room

When a record comes in and there is no room for it, the two oldest records are merged, and so on until there is room
(`ChangeLog.MakesRoom`). This ends with `ChangeLog.fit` as soon as there is room for one record (`makesRoom_iff`), and
never without it (`not_makesRoom_zero`).

* `ChangeLog.fit_append`: it makes no difference whether records are merged one by one or all in the end.
* `ChangeLog.condensed_fit`: the first record stands for the oldest ones, with the newest value of each name.
* `ChangeLog.overflow_spec`: what a log holds and answers, after any calls, in terms of the calls since the last fetch.
-/

namespace Capability.ChangeLog

open Change

/-! ## Making room step by step -/

/-- Takes the oldest record out and merges it into the next one. Where there is no next one it is put back. -/
def mergeOldest : List Change → List Change
  | [] => []
  | [only] => [only]
  | older :: newer :: rest => newer.absorb older :: rest

/-- Merging the oldest records while there are too many comes to an end with these records. -/
inductive MakesRoom (capacity : Nat) : List Change → List Change → Prop
  | done {records : List Change} (h : records.length ≤ capacity) : MakesRoom capacity records records
  | merge {records result : List Change} (h : capacity < records.length)
      (next : MakesRoom capacity (mergeOldest records) result) : MakesRoom capacity records result

section Room

variable {capacity : Nat} {records result : List Change}

/-- Where there is room for a record, too many records are at least two. -/
theorem exists_oldest (hroom : 0 < capacity) (h : capacity < records.length) :
    ∃ older newer rest, records = older :: newer :: rest := by
  match records, h with
  | older :: newer :: rest, _ => exact ⟨older, newer, rest, rfl⟩
  | [_], h => exact absurd h (Nat.not_lt.2 hroom)

/-- The first step changes nothing about the outcome. -/
theorem fit_mergeOldest (hroom : 0 < capacity) (h : capacity < records.length) :
    fit capacity (mergeOldest records) = fit capacity records := by
  obtain ⟨older, newer, rest, rfl⟩ := exists_oldest hroom h
  have hexcess : (newer :: rest).length + 1 - capacity = (rest.length + 1 - capacity) + 1 := by
    simp only [List.length_cons] at h ⊢
    omega
  rw [mergeOldest, fit, fit, hexcess, List.take_succ_cons, List.drop_succ_cons, List.foldl_cons]

theorem MakesRoom.eq_fit (hroom : 0 < capacity) (h : MakesRoom capacity records result) :
    result = fit capacity records := by
  induction h with
  | done h => exact (fit_eq_self h).symm
  | merge h _ ih => rw [ih, fit_mergeOldest hroom h]

theorem makesRoom_fit (hroom : 0 < capacity) (records : List Change) :
    MakesRoom capacity records (fit capacity records) := by
  induction hn : records.length generalizing records with
  | zero =>
    obtain rfl := List.length_eq_zero_iff.1 hn
    exact .done (Nat.zero_le _)
  | succ n ih =>
    by_cases h : records.length ≤ capacity
    · rw [fit_eq_self h]
      exact .done h
    · have h := Nat.lt_of_not_le h
      rw [← fit_mergeOldest hroom h]
      -- each step makes one record of two
      refine .merge h (ih _ ?_)
      obtain ⟨older, newer, rest, rfl⟩ := exists_oldest hroom h
      exact Nat.succ.inj hn

/-- **With room for one record, merging the oldest ones always ends, with the records that fit.** -/
theorem makesRoom_iff (hroom : 0 < capacity) : MakesRoom capacity records result ↔ result = fit capacity records := by
  refine ⟨MakesRoom.eq_fit hroom, ?_⟩
  rintro rfl
  exact makesRoom_fit hroom records

/-- Without room for a record the last one is put back for ever. -/
theorem not_makesRoom_zero (hne : records ≠ []) : ¬MakesRoom 0 records result := by
  intro h
  induction h with
  | done h => exact hne (List.length_eq_zero_iff.1 (Nat.le_zero.1 h))
  | @merge records _ _ _ ih =>
    refine ih ?_
    match records, hne with
    | [only], _ => exact List.cons_ne_nil _ _
    | older :: newer :: rest, _ => exact List.cons_ne_nil _ _

/-- **Records may be merged before others come in.** -/
theorem fit_append (hroom : 0 < capacity) (records others : List Change) :
    fit capacity (fit capacity records ++ others) = fit capacity (records ++ others) := by
  have h := makesRoom_fit hroom records
  generalize fit capacity records = result at h
  induction h with
  | done => rfl
  | @merge records _ h _ ih =>
    have hlength : capacity < (records ++ others).length := by
      rw [List.length_append]
      omega
    rw [ih, ← fit_mergeOldest hroom hlength]
    obtain ⟨older, newer, rest, rfl⟩ := exists_oldest hroom h
    rfl

end Room

/-! ## The first record -/

/-- These records are left of all of them: they are all there, or else the first one stands for those that there was no
room for. It has the number and the time of the newest one of these, and the newest value that they give each name. -/
structure Condensed (capacity : Nat) (all records : List Change) : Prop where
  of_le : all.length ≤ capacity → records = all
  of_lt : capacity < all.length → ∃ merged newest,
    records = merged :: all.drop (all.length - capacity + 1) ∧
      (all.take (all.length - capacity + 1)).getLast? = some newest ∧ merged.id = newest.id ∧
        merged.time = newest.time ∧ Fields.Sorted merged.properties ∧
          ∀ name, merged.properties.get? name = latest? (all.take (all.length - capacity + 1)) name

/-- Merged changes have the number and the time of the last one. -/
theorem foldl_absorb_last (changes : List Change) (first : Change) :
    ∃ newest, (first :: changes).getLast? = some newest ∧
      (changes.foldl (fun older newer => newer.absorb older) first).id = newest.id ∧
        (changes.foldl (fun older newer => newer.absorb older) first).time = newest.time := by
  induction changes generalizing first with
  | nil => exact ⟨first, rfl, rfl, rfl⟩
  | cons c rest ih =>
    obtain ⟨newest, hlast, hid, htime⟩ := ih (c.absorb first)
    cases rest with
    | nil => exact ⟨c, rfl, rfl, rfl⟩
    | cons d rest => exact ⟨newest, hlast, hid, htime⟩

theorem condensed_fit {capacity : Nat} {records : List Change} (h : Sorted records) :
    Condensed capacity records (fit capacity records) := by
  refine ⟨fit_eq_self, fun hlt => ?_⟩
  cases records with
  | nil => exact absurd hlt (Nat.not_lt_zero _)
  | cons first rest =>
    have htake : ∀ c ∈ rest.take (rest.length + 1 - capacity), Fields.Sorted c.properties := fun c hc =>
      h c (List.mem_cons_of_mem _ (List.mem_of_mem_take hc))
    obtain ⟨newest, hlast, hid, htime⟩ := foldl_absorb_last (rest.take (rest.length + 1 - capacity)) first
    exact ⟨_, newest, rfl, hlast, hid, htime, sorted_foldl_absorb (h first List.mem_cons_self),
      get?_foldl_absorb htake first⟩

/-! ## Calls -/

/-- A call of a log. -/
inductive Call where
  | record (time : Instant) (properties : Fields Json)
  | drain

/-- What a call answers: the number of the record, or the last number with the records that were fetched. -/
inductive Answer where
  | recorded (number : Nat)
  | fetched (lastId : Nat) (records : List Change)

/-- The number that is given out. -/
def Answer.number? : Answer → Option Nat
  | .recorded number => some number
  | .fetched _ _ => none

/-- The properties are in order, where the call gives any. -/
def Call.Sorted : Call → Prop
  | .record _ properties => Fields.Sorted properties
  | .drain => True

/-- Makes a call. -/
def perform (log : ChangeLog) : Call → ChangeLog
  | .record time properties => log.record time properties
  | .drain => log.drained

/-- The answer to a call. -/
def answer (log : ChangeLog) : Call → Answer
  | .record time properties => .recorded (log.record time properties).lastId
  | .drain => .fetched log.lastId log.pending

/-- Makes calls one after the other. -/
def run (log : ChangeLog) (calls : List Call) : ChangeLog :=
  calls.foldl perform log

/-- The answers to calls that are made one after the other. -/
def answers (log : ChangeLog) : List Call → List Answer
  | [] => []
  | c :: rest => log.answer c :: (log.perform c).answers rest

/-! ## A journal of the calls -/

/-- What calls have recorded: how much in all, and every record since the last fetch as it was made. -/
structure Journal where
  count : Nat
  waiting : List Change

/-- Notes a call. Records are numbered from one on, whether any were fetched or not. -/
def Journal.note (journal : Journal) : Call → Journal
  | .record time properties =>
    ⟨journal.count + 1, journal.waiting ++ [⟨journal.count + 1, time, properties⟩]⟩
  | .drain => ⟨journal.count, []⟩

/-- The journal of calls from the start. -/
def Journal.of (calls : List Call) : Journal :=
  calls.foldl note ⟨0, []⟩

/-- The log has what there was room for of the journal. -/
structure Keeps (log : ChangeLog) (journal : Journal) : Prop where
  lastId : log.lastId = journal.count
  pending : log.pending = fit log.capacity journal.waiting
  sorted : Sorted journal.waiting

section Run

variable {log : ChangeLog} {journal : Journal}

@[simp] theorem capacity_perform (log : ChangeLog) (c : Call) : (log.perform c).capacity = log.capacity := by
  cases c <;> rfl

/-- **A call keeps that the log has what there was room for.** -/
theorem Keeps.step (h : log.Keeps journal) {c : Call} (hc : c.Sorted) : (log.perform c).Keeps (journal.note c) := by
  cases c with
  | record time properties =>
    refine ⟨congrArg (· + 1) h.lastId, ?_, fun c hc' => ?_⟩
    · show fit log.capacity (log.pending ++ [⟨log.lastId + 1, time, properties⟩]) =
        fit log.capacity (journal.waiting ++ [⟨journal.count + 1, time, properties⟩])
      rw [h.pending, h.lastId, fit_append log.capacity_pos]
    · rcases List.mem_append.1 hc' with hc' | hc'
      · exact h.sorted c hc'
      · obtain rfl := List.mem_singleton.1 hc'
        exact hc
  | drain => exact ⟨h.lastId, rfl, fun _ hc' => absurd hc' List.not_mem_nil⟩

/-- **After any calls the log has what there was room for.** -/
theorem Keeps.run (h : log.Keeps journal) {calls : List Call} (hcalls : ∀ c ∈ calls, c.Sorted) :
    (log.run calls).Keeps (calls.foldl Journal.note journal) ∧ (log.run calls).capacity = log.capacity := by
  induction calls generalizing log journal with
  | nil => exact ⟨h, rfl⟩
  | cons c rest ih =>
    obtain ⟨hkeeps, hcapacity⟩ :=
      ih (h.step (hcalls c List.mem_cons_self)) fun d hd => hcalls d (List.mem_cons_of_mem _ hd)
    exact ⟨hkeeps, hcapacity.trans (capacity_perform log c)⟩

/-- **The numbers that are given out follow each other**, up to the number of all records. -/
theorem numbers_answers (log : ChangeLog) (calls : List Call) :
    (log.answers calls).filterMap Answer.number? = List.range' (log.lastId + 1) ((log.run calls).lastId - log.lastId) ∧
      log.lastId ≤ (log.run calls).lastId := by
  induction calls generalizing log with
  | nil =>
    refine ⟨?_, Nat.le_refl _⟩
    show [] = List.range' _ (log.lastId - log.lastId)
    rw [Nat.sub_self]
    rfl
  | cons c rest ih =>
    obtain ⟨hids, hle⟩ := ih (log.perform c)
    cases c with
    | record time properties =>
      have hnext : (log.perform (.record time properties)).lastId = log.lastId + 1 := rfl
      have hlast : log.run (.record time properties :: rest) = (log.perform (.record time properties)).run rest := rfl
      rw [hnext] at hids hle
      rw [hlast]
      refine ⟨?_, Nat.le_of_succ_le hle⟩
      show (log.lastId + 1) :: ((log.perform (.record time properties)).answers rest).filterMap Answer.number? = _
      have hcount : ((log.perform (.record time properties)).run rest).lastId - log.lastId =
          ((log.perform (.record time properties)).run rest).lastId - (log.lastId + 1) + 1 := by omega
      rw [hids, hcount, List.range'_succ]
    | drain => exact ⟨hids, hle⟩

end Run

/-! ## Logs from the start -/

/-- **A log in terms of the calls.** Records are numbered one, two and so on, across all fetches. Of those that were
made since the last fetch the log holds all that there is room for, the oldest ones merged into one. A fetch answers
these with the last number and leaves none. When a record comes in, merging the oldest ones until there is room ends,
with what the log then holds. -/
theorem overflow_spec (requested : Nat) {calls : List Call} (hcalls : ∀ c ∈ calls, c.Sorted) {log : ChangeLog}
    (hlog : log = (ofCapacity requested).run calls) :
    log.capacity = max requested 1 ∧
    ((ofCapacity requested).answers calls).filterMap Answer.number? = List.range' 1 (Journal.of calls).count ∧
    log.lastId = (Journal.of calls).count ∧
    Condensed (max requested 1) (Journal.of calls).waiting log.pending ∧
    (log.answer .drain = .fetched (Journal.of calls).count log.pending ∧ (log.perform .drain).pending = [] ∧
      (log.perform .drain).lastId = log.lastId) ∧
    ∀ time properties result,
      MakesRoom (max requested 1) (log.pending ++ [⟨log.lastId + 1, time, properties⟩]) result ↔
        result = (log.perform (.record time properties)).pending := by
  subst hlog
  have hstart : (ofCapacity requested).Keeps ⟨0, []⟩ := ⟨rfl, rfl, fun _ hc => absurd hc List.not_mem_nil⟩
  obtain ⟨hkeeps, hcapacity⟩ := hstart.run hcalls
  have hcapacity : ((ofCapacity requested).run calls).capacity = max requested 1 := hcapacity
  have hlast : ((ofCapacity requested).run calls).lastId = (Journal.of calls).count := hkeeps.lastId
  refine ⟨hcapacity, ?_, hlast, ?_, ⟨?_, rfl, rfl⟩, fun time properties result => ?_⟩
  · rw [(numbers_answers _ calls).1, hlast]
    rfl
  · rw [hkeeps.pending, hcapacity]
    exact condensed_fit hkeeps.sorted
  · rw [answer, hlast]
  · rw [makesRoom_iff (Nat.le_max_right requested 1), ← hcapacity]
    rfl

/-- Of three records since a fetch the two oldest ones are merged where there is room for two. -/
theorem overflow_spec_merged : ∃ calls : List Call, (∀ c ∈ calls, c.Sorted) ∧
    ((ofCapacity 2).answers calls).filterMap Answer.number? = [1, 2, 3, 4] ∧
    (Journal.of calls).waiting.map Change.id = [2, 3, 4] ∧
    Condensed 2 (Journal.of calls).waiting ((ofCapacity 2).run calls).pending ∧
    ((ofCapacity 2).run calls).pending =
      [⟨3, ⟨30, 0⟩, [("a.x", .bool true), ("a.y", .bool false)]⟩, ⟨4, ⟨40, 0⟩, [("a.x", .bool false)]⟩] := by
  let calls : List Call := [.record ⟨10, 0⟩ [("a.x", .bool false)], .drain,
    .record ⟨20, 0⟩ [("a.x", .bool true), ("a.y", .bool true)], .record ⟨30, 0⟩ [("a.y", .bool false)],
    .record ⟨40, 0⟩ [("a.x", .bool false)]]
  have hcalls : ∀ c ∈ calls, c.Sorted := by
    simp only [calls, List.forall_mem_cons]
    exact ⟨List.pairwise_singleton _ _, trivial, List.pairwise_pair.2 (by decide), List.pairwise_singleton _ _,
      List.pairwise_singleton _ _, fun _ h => absurd h List.not_mem_nil⟩
  obtain ⟨_, hnumbers, _, hpending, _⟩ := overflow_spec 2 hcalls rfl
  exact ⟨calls, hcalls, hnumbers, rfl, hpending, rfl⟩

end Capability.ChangeLog
