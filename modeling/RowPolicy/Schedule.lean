import RowPolicy.Duration

/-!
When tasks finish that run side by side. Tasks start in the order of the list, and each takes the
slot that is free first; a slot is free again at the instant its task finishes. Slots are kept as
the sorted list of the times from which they are free.
-/
namespace RowPolicy.Schedule

def insertTime (t : Milliseconds) : List Milliseconds → List Milliseconds
  | [] => [t]
  | s :: times => if t ≤ s then t :: s :: times else s :: insertTime t times

/-- The finishing time of each task; without a slot the first task opens one. -/
def finishTimes (slots : List Milliseconds) : List Milliseconds → List Milliseconds
  | [] => []
  | duration :: rest =>
    let finish := slots.headD 0 + duration
    finish :: finishTimes (insertTime finish slots.tail) rest

/-- The finishing times of tasks of which at most `width` run at once, and one at least. -/
def finishAll (width : Nat) (durations : List Milliseconds) : List Milliseconds :=
  finishTimes (List.replicate (min width durations.length) 0) durations

@[simp] theorem length_finishTimes (slots durations : List Milliseconds) :
    (finishTimes slots durations).length = durations.length := by
  induction durations generalizing slots with
  | nil => rfl
  | cons d ds ih => simp [finishTimes, ih]

@[simp] theorem length_finishAll (width : Nat) (durations : List Milliseconds) :
    (finishAll width durations).length = durations.length := by
  simp [finishAll]

def insertByKey {α : Type} (key : Nat) (a : α) : List (Nat × α) → List (Nat × α)
  | [] => [(key, a)]
  | (k, b) :: rest =>
    if key < k then (key, a) :: (k, b) :: rest else (k, b) :: insertByKey key a rest

/-- Entries in the order of their keys, those of one key as they are listed. -/
def sortByKey {α : Type} (entries : List (Nat × α)) : List (Nat × α) :=
  entries.foldl (fun sorted e => insertByKey e.1 e.2 sorted) []

end RowPolicy.Schedule
