import Mathlib.Data.List.Nodup
import RowPolicy.Decision

/-!
In which order replies arrive. Sorting by a key loses no entry and repeats none, so whatever the
times, the replies of all rules arrive, each once; and entries that are sorted by their places are
back in the order of the rules.
-/
namespace RowPolicy

namespace Schedule

variable {α : Type}

theorem insertByKey_perm (key : Nat) (a : α) (entries : List (Nat × α)) :
    (insertByKey key a entries).Perm ((key, a) :: entries) := by
  induction entries with
  | nil => exact .refl _
  | cons e entries ih =>
    simp only [insertByKey]
    split
    · exact .refl _
    · exact (ih.cons e).trans (.swap (key, a) e entries)

theorem insertByKey_pairwise {key : Nat} {a : α} {entries : List (Nat × α)}
    (h : entries.Pairwise (·.1 ≤ ·.1)) : (insertByKey key a entries).Pairwise (·.1 ≤ ·.1) := by
  induction entries with
  | nil => simp [insertByKey]
  | cons e entries ih =>
    obtain ⟨hhead, htail⟩ := List.pairwise_cons.mp h
    simp only [insertByKey]
    split
    · rename_i hlt
      refine List.pairwise_cons.mpr ⟨fun b hb => ?_, h⟩
      rcases List.mem_cons.mp hb with rfl | hb
      · exact Nat.le_of_lt hlt
      · exact Nat.le_trans (Nat.le_of_lt hlt) (hhead b hb)
    · rename_i hge
      refine List.pairwise_cons.mpr ⟨fun b hb => ?_, ih htail⟩
      rcases List.mem_cons.mp ((insertByKey_perm key a entries).mem_iff.mp hb) with rfl | hb
      · exact Nat.le_of_not_lt hge
      · exact hhead b hb

theorem sortByKey_perm (entries : List (Nat × α)) : (sortByKey entries).Perm entries := by
  have fold (sorted : List (Nat × α)) :
      (entries.foldl (fun sorted e => insertByKey e.1 e.2 sorted) sorted).Perm
        (sorted ++ entries) := by
    induction entries generalizing sorted with
    | nil => simp
    | cons e entries ih =>
      have hstep := (insertByKey_perm e.1 e.2 sorted).append_right entries
      exact (ih _).trans (hstep.trans List.perm_middle.symm)
  exact fold []

theorem sortByKey_pairwise (entries : List (Nat × α)) :
    (sortByKey entries).Pairwise (·.1 ≤ ·.1) := by
  have fold (sorted : List (Nat × α)) (h : sorted.Pairwise (·.1 ≤ ·.1)) :
      (entries.foldl (fun sorted e => insertByKey e.1 e.2 sorted) sorted).Pairwise (·.1 ≤ ·.1) := by
    induction entries generalizing sorted with
    | nil => exact h
    | cons e entries ih => exact ih _ (insertByKey_pairwise h)
  exact fold [] .nil

theorem sortByKey_eq_of_perm {entries sorted : List (Nat × α)} (h : entries.Perm sorted)
    (hsorted : sorted.Pairwise (·.1 < ·.1)) : sortByKey entries = sorted := by
  have hperm : (sortByKey entries).Perm sorted := (sortByKey_perm entries).trans h
  have hkeys : (sorted.map Prod.fst).Nodup :=
    (List.pairwise_map.mpr hsorted).imp fun hlt => Nat.ne_of_lt hlt
  refine List.Perm.eq_of_pairwise ?_ (sortByKey_pairwise entries)
    (hsorted.imp fun hlt => Nat.le_of_lt hlt) hperm
  intro a b ha hb hab hba
  exact List.inj_on_of_nodup_map hkeys (hperm.mem_iff.mp ha) hb (Nat.le_antisymm hab hba)

end Schedule

/-- The replies arrive in some order, each once and with the place of its rule. -/
def Arrives (replies : List Reply) (arrived : List Arrival) : Prop :=
  (arrived.map (·.2)).Perm replies.zipIdx

/-- However many rules may run at once, all of them reply. -/
theorem arrivalOrder_arrives (width : Nat) (timed : List (Milliseconds × Reply)) :
    Arrives (timed.map (·.2)) (arrivalOrder width timed) := by
  have hlength : (Schedule.finishAll width (timed.map (·.1))).length =
      (timed.map (·.2)).zipIdx.length := by simp
  have hperm := (Schedule.sortByKey_perm
    ((Schedule.finishAll width (timed.map (·.1))).zip (timed.map (·.2)).zipIdx)).map (·.2)
  rwa [List.map_snd_zip (Nat.le_of_eq hlength.symm)] at hperm

namespace Arrives

variable {replies : List Reply} {arrived : List Arrival}

theorem exists_iff (h : Arrives replies arrived) {p : Reply → Prop} :
    (∃ r ∈ replies, p r) ↔ ∃ a ∈ arrived, p a.2.1 := by
  have hmem (r : Reply) : r ∈ replies ↔ ∃ a ∈ arrived, a.2.1 = r := by
    calc r ∈ replies
      _ ↔ r ∈ replies.zipIdx.map (·.1) := by rw [List.zipIdx_map_fst]
      _ ↔ r ∈ (arrived.map (·.2)).map (·.1) := ((h.map (·.1)).mem_iff).symm
      _ ↔ ∃ a ∈ arrived, a.2.1 = r := by simp
  constructor
  · rintro ⟨r, hr, hp⟩
    obtain ⟨a, ha, rfl⟩ := (hmem r).mp hr
    exact ⟨a, ha, hp⟩
  · rintro ⟨a, ha, hp⟩
    exact ⟨a.2.1, (hmem _).mpr ⟨a, ha, rfl⟩, hp⟩

theorem getElem?_eq (h : Arrives replies arrived) {a : Arrival} (ha : a ∈ arrived) :
    replies[a.2.2]? = some a.2.1 := by
  have hmem : a.2 ∈ replies.zipIdx := h.mem_iff.mp (List.mem_map_of_mem ha)
  simpa using List.mem_zipIdx_iff_getElem?.mp hmem

end Arrives
end RowPolicy
