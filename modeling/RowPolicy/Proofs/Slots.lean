import Mathlib.Data.List.Sort
import Mathlib.Order.Bounds.Basic
import RowPolicy.Schedule

/-!
When tasks finish of which only so many run at once. Each task starts in its turn, at the earliest
time at which one more may run. Main statement: the finishing times that are kept by slots are those
of tasks that start in this way, and there are no others.
-/
namespace RowPolicy.Schedule

/-- When a task starts behind tasks that finish at the times `before`: as soon as fewer than `width`
of them are unfinished. -/
def StartsAt (width : Nat) (before : List Milliseconds) (start : Milliseconds) : Prop :=
  IsLeast {t | before.countP (t < ·) < width} start

/-- The finishing times of tasks that start one after the other, behind those that finish at the
times `before`. -/
inductive Runs (width : Nat) : List Milliseconds → List Milliseconds → List Milliseconds → Prop
  | nil {before} : Runs width before [] []
  | cons {before start duration durations finish} (hstart : StartsAt width before start)
      (hrest : Runs width ((start + duration) :: before) durations finish) :
      Runs width before (duration :: durations) ((start + duration) :: finish)

variable {width : Nat} {before durations finish slots : List Milliseconds}

namespace Runs

theorem length_eq (h : Runs width before durations finish) : finish.length = durations.length := by
  induction h with
  | nil => rfl
  | cons _ _ ih => simp [ih]

theorem unique {others : List Milliseconds} (h : Runs width before durations finish)
    (hothers : Runs width before durations others) : finish = others := by
  induction h generalizing others with
  | nil =>
    cases hothers
    rfl
  | cons hstart _ ih =>
    cases hothers with
    | cons hstart' hrest' =>
      obtain rfl := hstart.unique hstart'
      rw [ih hrest']

theorem of_length_le {wide : Nat} (h : Runs width before durations finish)
    (hwidth : before.length + durations.length ≤ width)
    (hwide : before.length + durations.length ≤ wide) : Runs wide before durations finish := by
  induction h with
  | nil => exact .nil
  | @cons before start duration durations finish hstart _ ih =>
    rw [List.length_cons] at hwidth hwide
    have hfree (t : Milliseconds) :
        before.countP (t < ·) < width ∧ before.countP (t < ·) < wide := by
      have hcount : before.countP (t < ·) ≤ before.length := List.countP_le_length
      omega
    have hstart' : StartsAt wide before start :=
      ⟨(hfree start).2, fun t _ => hstart.2 (hfree t).1⟩
    refine .cons hstart' (ih ?_ ?_)
    · rw [List.length_cons]
      omega
    · rw [List.length_cons]
      omega

end Runs

theorem insertTime_eq_orderedInsert (t : Milliseconds) (slots : List Milliseconds) :
    insertTime t slots = slots.orderedInsert (· ≤ ·) t := by
  induction slots with
  | nil => rfl
  | cons s slots ih => simp [insertTime, ih]

theorem insertTime_perm (t : Milliseconds) (slots : List Milliseconds) :
    (insertTime t slots).Perm (t :: slots) := by
  rw [insertTime_eq_orderedInsert]
  exact List.perm_orderedInsert (· ≤ ·) t slots

theorem insertTime_sorted {t : Milliseconds} (h : slots.Pairwise (· ≤ ·)) :
    (insertTime t slots).Pairwise (· ≤ ·) := by
  rw [insertTime_eq_orderedInsert]
  exact h.orderedInsert t slots

/-- Slots that stand for tasks which finish at the times `before`: at every time as many slots are
taken as tasks are unfinished, or all if there are more such tasks. -/
structure Keeps (slots before : List Milliseconds) : Prop where
  sorted : slots.Pairwise (· ≤ ·)
  taken : ∀ t, slots.countP (t < ·) = min slots.length (before.countP (t < ·))

namespace Keeps

variable {slot t : Milliseconds}

theorem replicate (width : Nat) : Keeps (List.replicate width 0) [] where
  sorted := List.pairwise_replicate.mpr (.inr (Nat.le_refl 0))
  taken t := by simp [List.countP_replicate]

/-- All slots are taken before the first is free. -/
theorem countP_of_lt (h : Keeps (slot :: slots) before) (ht : t < slot) :
    slots.countP (t < ·) = slots.length ∧ slots.length < before.countP (t < ·) := by
  have hslots : slots.countP (t < ·) = slots.length := by
    apply List.countP_eq_length.mpr
    intro s hs
    have hslot : slot ≤ s := (List.pairwise_cons.mp h.sorted).1 s hs
    simpa using Nat.lt_of_lt_of_le ht hslot
  have hall : (slot :: slots).countP (t < ·) = slots.length + 1 := by simp [ht, hslots]
  have htaken := h.taken t
  rw [hall, List.length_cons] at htaken
  exact ⟨hslots, by omega⟩

/-- From then on the other slots tell how many tasks are unfinished. -/
theorem countP_of_le (h : Keeps (slot :: slots) before) (ht : slot ≤ t) :
    before.countP (t < ·) = slots.countP (t < ·) := by
  have hfirst : (slot :: slots).countP (t < ·) = slots.countP (t < ·) := by
    simp [Nat.not_lt_of_le ht]
  have hcount : slots.countP (t < ·) ≤ slots.length := List.countP_le_length
  have htaken := h.taken t
  rw [hfirst, List.length_cons] at htaken
  omega

theorem startsAt (h : Keeps (slot :: slots) before) :
    StartsAt (slot :: slots).length before slot := by
  refine ⟨?_, ?_⟩
  · show before.countP (slot < ·) < slots.length + 1
    rw [h.countP_of_le (Nat.le_refl slot)]
    exact Nat.lt_succ_of_le List.countP_le_length
  · intro t ht
    have hfree : before.countP (t < ·) < slots.length + 1 := ht
    by_contra hlt
    have hbusy := (h.countP_of_lt (Nat.lt_of_not_le hlt)).2
    omega

theorem next {finish : Milliseconds} (h : Keeps (slot :: slots) before)
    (hfinish : slot ≤ finish) : Keeps (insertTime finish slots) (finish :: before) := by
  have hperm := insertTime_perm finish slots
  refine ⟨insertTime_sorted (List.pairwise_cons.mp h.sorted).2, fun t => ?_⟩
  rw [hperm.countP_eq, hperm.length_eq, List.countP_cons, List.countP_cons, List.length_cons]
  by_cases ht : t < slot
  · obtain ⟨hslots, hbusy⟩ := h.countP_of_lt ht
    have hlater : t < finish := Nat.lt_of_lt_of_le ht hfinish
    simp only [hlater, decide_true, if_true]
    omega
  · have hcount : slots.countP (t < ·) ≤ slots.length := List.countP_le_length
    rw [h.countP_of_le (Nat.le_of_not_lt ht)]
    split <;> omega

end Keeps

/-- With slots that stand for the tasks before, the next tasks finish as they do with so many places
as there are slots. -/
theorem runs_finishTimes (h : Keeps slots before) (hslots : slots ≠ [])
    (durations : List Milliseconds) :
    Runs slots.length before durations (finishTimes slots durations) := by
  induction durations generalizing slots before with
  | nil => exact .nil
  | cons duration durations ih =>
    obtain ⟨slot, slots, rfl⟩ := List.exists_cons_of_ne_nil hslots
    have hnext := h.next (Nat.le_add_right slot duration)
    have hlength := (insertTime_perm (slot + duration) slots).length_eq
    have hslots' : insertTime (slot + duration) slots ≠ [] := by
      rw [← List.length_pos_iff, hlength]
      exact Nat.succ_pos _
    have hrest := ih hnext hslots'
    rw [hlength] at hrest
    exact .cons h.startsAt hrest

theorem runs_replicate (hwidth : 0 < width) (durations : List Milliseconds) :
    Runs width [] durations (finishTimes (List.replicate width 0) durations) := by
  have hslots : List.replicate width (0 : Milliseconds) ≠ [] := by
    rwa [← List.length_pos_iff, List.length_replicate]
  have hruns := runs_finishTimes (Keeps.replicate width) hslots durations
  rwa [List.length_replicate] at hruns

theorem finishTimes_nil (durations : List Milliseconds) :
    finishTimes [] durations = finishTimes [0] durations := by
  cases durations <;> rfl

theorem runs_finishAll (width : Nat) (durations : List Milliseconds) :
    Runs (max 1 width) [] durations (finishAll width durations) := by
  unfold finishAll
  by_cases hwidth : width = 0
  · rw [hwidth, Nat.zero_min, List.replicate_zero, finishTimes_nil]
    exact runs_replicate Nat.one_pos durations
  · have hpos : 0 < width := Nat.pos_of_ne_zero hwidth
    rw [Nat.max_eq_right hpos]
    by_cases hle : width ≤ durations.length
    · rw [Nat.min_eq_left hle]
      exact runs_replicate hpos durations
    · -- More slots than tasks are of no use, and so there are none.
      rw [Nat.min_eq_right (Nat.le_of_not_le hle)]
      cases durations with
      | nil => exact .nil
      | cons duration durations =>
        have hruns := runs_replicate (Nat.succ_pos durations.length) (duration :: durations)
        apply hruns.of_length_le
        · simp
        · simpa using Nat.le_of_not_le hle

theorem runs_iff_eq_finishAll : Runs (max 1 width) [] durations finish ↔
    finish = finishAll width durations := by
  constructor
  · intro h
    exact h.unique (runs_finishAll width durations)
  · rintro rfl
    exact runs_finishAll width durations

end RowPolicy.Schedule
