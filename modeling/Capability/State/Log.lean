import Capability.State.Change

/-!
# The log of changes

The log keeps the changes that were not fetched yet, the oldest first, and numbers them from one. It holds a limited
number of records: where one too many comes in, the oldest records are merged into one, so that the latest value of
each property is kept.

* `length_fit_le`: there are never more records than the log has room for.
* `fit_eq_self`: while there is room, records stay as they are.
-/

namespace Capability

/-! ## Making room -/

namespace ChangeLog

/-- The records with the oldest merged into one, so that there are at most `capacity`. -/
def fit (capacity : Nat) : List Change → List Change
  | [] => []
  | first :: rest =>
    let excess := rest.length + 1 - capacity
    (rest.take excess).foldl (fun older newer => newer.absorb older) first :: rest.drop excess

theorem length_fit_le {capacity : Nat} (h : 0 < capacity) (records : List Change) :
    (fit capacity records).length ≤ capacity := by
  cases records with
  | nil => exact Nat.zero_le _
  | cons first rest =>
    simp only [fit, List.length_cons, List.length_drop]
    omega

theorem fit_eq_self {capacity : Nat} {records : List Change} (h : records.length ≤ capacity) :
    fit capacity records = records := by
  cases records with
  | nil => rfl
  | cons first rest =>
    have : rest.length + 1 - capacity = 0 := Nat.sub_eq_zero_of_le h
    simp [fit, this]

end ChangeLog

/-! ## The log -/

/-- The changes that wait to be fetched. -/
structure ChangeLog where
  /-- The greatest number of records. -/
  capacity : Nat
  /-- The records, the oldest first. -/
  pending : List Change
  /-- The number of the last change ever recorded, or zero. Numbers have no upper bound here: that a counter of 64 bits
  wraps around after `2 ^ 64` records is left out. -/
  lastId : Nat
  capacity_pos : 0 < capacity
  length_pending_le : pending.length ≤ capacity

namespace ChangeLog

/-- The log without records, with room for at least one. -/
def ofCapacity (capacity : Nat) : ChangeLog where
  capacity := max capacity 1
  pending := []
  lastId := 0
  capacity_pos := by omega
  length_pending_le := Nat.zero_le _

/-- Records new values of properties under the next number. -/
def record (log : ChangeLog) (time : Instant) (properties : Fields Json) : ChangeLog :=
  { log with
    pending := fit log.capacity (log.pending ++ [⟨log.lastId + 1, time, properties⟩])
    lastId := log.lastId + 1
    length_pending_le := length_fit_le log.capacity_pos _ }

/-- The log after its records were fetched. -/
def drained (log : ChangeLog) : ChangeLog :=
  { log with pending := [], length_pending_le := Nat.zero_le _ }

@[simp] theorem lastId_record (log : ChangeLog) (time : Instant) (properties : Fields Json) :
    (log.record time properties).lastId = log.lastId + 1 := rfl

@[simp] theorem lastId_drained (log : ChangeLog) : log.drained.lastId = log.lastId := rfl

end ChangeLog

end Capability
