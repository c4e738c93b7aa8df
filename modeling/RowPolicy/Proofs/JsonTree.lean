import RowPolicy.Json

/-!
JSON values as trees. A proof about all values goes by induction, with a hypothesis for each item of
a list and for each member of an object; what is found under a key is one of the members.
-/
namespace RowPolicy

namespace Json

/-- Induction over values, with a hypothesis for each part of a list or an object. -/
@[elab_as_elim, induction_eliminator]
theorem induction {motive : Json → Prop} (null : motive null) (bool : ∀ b, motive (bool b))
    (num : ∀ n, motive (num n)) (str : ∀ s, motive (str s))
    (arr : ∀ items, (∀ item ∈ items, motive item) → motive (arr items))
    (obj : ∀ members : List (String × Json), (∀ p ∈ members, motive p.2) → motive (obj members))
    (j : Json) : motive j :=
  @Json.rec motive (fun items => ∀ item ∈ items, motive item)
    (fun members => ∀ p ∈ members, motive p.2) (fun p => motive p.2) null bool num str arr obj
    nofun (fun _ _ hitem hitems => List.forall_mem_cons.mpr ⟨hitem, hitems⟩)
    nofun (fun _ _ hmember hmembers => List.forall_mem_cons.mpr ⟨hmember, hmembers⟩)
    (fun _ _ hvalue => hvalue) j

end Json

namespace Table

variable {α β : Type} {t : Table α} {k : String}

theorem get?_eq_none_iff : get? t k = none ↔ k ∉ keys t := by
  induction t with
  | nil => simp [keys]
  | cons p t ih =>
    obtain ⟨key, value⟩ := p
    by_cases h : key = k
    · simp [keys, h]
    · simp [keys, h, Ne.symm h] at ih ⊢
      exact ih

theorem mem_of_get?_eq_some {v : α} (h : get? t k = some v) : (k, v) ∈ t := by
  induction t with
  | nil => simp at h
  | cons p t ih =>
    obtain ⟨key, value⟩ := p
    rw [get?_cons] at h
    split at h
    · simp_all
    · exact List.mem_cons_of_mem _ (ih h)

theorem eq_singleton_of_get? {v : α} (h : get? t k = some v) (hlength : t.length = 1) :
    t = [(k, v)] := by
  obtain ⟨p, rfl⟩ := List.length_eq_one_iff.mp hlength
  rw [List.mem_singleton.mp (mem_of_get?_eq_some h)]

theorem get?_map (f : String → α → β) (t : Table α) (k : String) :
    get? (t.map fun p => (p.1, f p.1 p.2)) k = (get? t k).map (f k) := by
  induction t with
  | nil => rfl
  | cons p t ih =>
    obtain ⟨key, value⟩ := p
    by_cases h : key = k
    · subst h
      simp
    · simp [h, ih]

end Table
end RowPolicy
