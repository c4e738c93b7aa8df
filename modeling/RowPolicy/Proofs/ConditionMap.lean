import Mathlib.Data.List.Basic
import RowPolicy.Proofs.CanonicalForm

/-!
Changing the conditions of a filter one by one. The tree around the conditions stays as it is, so
it makes no difference whether a filter is made canonical before its conditions change or after.
-/
namespace RowPolicy.Filter

mutual
def map (g : Condition → Condition) : Filter → Filter
  | all parts => all (mapParts g parts)
  | any parts => any (mapParts g parts)
  | not part => not (part.map g)
  | leaf c => leaf (g c)

def mapParts (g : Condition → Condition) : List Filter → List Filter
  | [] => []
  | part :: parts => part.map g :: mapParts g parts
end

theorem mapParts_eq_map (g : Condition → Condition) (parts : List Filter) :
    mapParts g parts = parts.map (map g) := by
  induction parts with
  | nil => rfl
  | cons part parts ih => rw [mapParts, ih, List.map_cons]

theorem partsConditions_eq_flatMap (parts : List Filter) :
    partsConditions parts = parts.flatMap conditions := by
  induction parts with
  | nil => rfl
  | cons part parts ih => rw [partsConditions, ih, List.flatMap_cons]

variable {g : Condition → Condition} {f : Filter}

@[simp] theorem conditions_map (f : Filter) : (f.map g).conditions = f.conditions.map g := by
  have hparts {parts : List Filter}
      (ih : ∀ p ∈ parts, (p.map g).conditions = p.conditions.map g) :
      partsConditions (mapParts g parts) = (partsConditions parts).map g := by
    rw [mapParts_eq_map, partsConditions_eq_flatMap, partsConditions_eq_flatMap, List.map_flatMap,
      List.flatMap_map]
    exact List.flatMap_congr ih
  induction f with
  | all parts ih => exact hparts ih
  | any parts ih => exact hparts ih
  | not part ih => exact ih
  | leaf c => rfl

@[simp] theorem map_eq_matchAll_iff (f : Filter) : f.map g = matchAll ↔ f = matchAll := by
  cases f with
  | all parts => cases parts <;> simp [map, mapParts, matchAll]
  | _ => simp [map, matchAll]

@[simp] theorem map_eq_matchNone_iff (f : Filter) : f.map g = matchNone ↔ f = matchNone := by
  cases f with
  | any parts => cases parts <;> simp [map, mapParts, matchNone]
  | _ => simp [map, matchNone]

namespace Connective

@[simp] theorem map_combine (k : Connective) (parts : List Filter) :
    (k.combine parts).map g = k.combine (parts.map (map g)) := by
  cases k <;> simp [combine, map, mapParts_eq_map]

@[simp] theorem map_absorbing (k : Connective) : k.absorbing.map g = k.absorbing := by
  cases k <;> rfl

@[simp] theorem absorbing_mem_map_iff (k : Connective) (parts : List Filter) :
    k.absorbing ∈ parts.map (map g) ↔ k.absorbing ∈ parts := by
  cases k <;> simp [absorbing]

theorem spread_map (k : Connective) (p : Filter) :
    k.spread (p.map g) = (k.spread p).map (map g) := by
  cases k <;> cases p <;> simp [spread, map, mapParts_eq_map]

theorem map_merge (k : Connective) (parts : List Filter) :
    (k.merge parts).map g = k.merge (parts.map (map g)) := by
  have hflat : (parts.map (map g)).flatMap k.spread = (parts.flatMap k.spread).map (map g) := by
    rw [List.flatMap_map, List.map_flatMap]
    exact List.flatMap_congr fun p _ => spread_map k p
  simp only [merge, absorbing_mem_map_iff, hflat]
  split
  · exact map_absorbing k
  · rcases collapse_cases k.combine (parts.flatMap k.spread) with ⟨p, hp, he⟩ | ⟨hlength, he⟩
    · rw [he, hp]; rfl
    · rcases collapse_cases k.combine ((parts.flatMap k.spread).map (map g)) with
        ⟨p, hp, -⟩ | ⟨-, he'⟩
      · exact absurd (by rw [← List.length_map (map g), hp]; rfl) hlength
      · rw [he, he', map_combine]

end Connective

theorem map_negate (f : Filter) : f.negate.map g = (f.map g).negate := by
  cases f with
  | all parts => cases parts <;> rfl
  | any parts => cases parts <;> rfl
  | not part => rfl
  | leaf c => rfl

/-- Making a filter canonical looks at the tree only, never at the conditions. -/
theorem map_canonicalize (f : Filter) : f.canonicalize.map g = (f.map g).canonicalize := by
  have hparts {parts : List Filter}
      (ih : ∀ p ∈ parts, p.canonicalize.map g = (p.map g).canonicalize) :
      (canonicalizeParts parts).map (map g) = canonicalizeParts (mapParts g parts) := by
    rw [canonicalizeParts_eq_map, canonicalizeParts_eq_map, mapParts_eq_map, List.map_map,
      List.map_map]
    exact List.map_congr_left ih
  induction f with
  | all parts ih =>
    rw [canonicalize, conj_eq_merge, Connective.map_merge, hparts ih, map, canonicalize,
      conj_eq_merge]
  | any parts ih =>
    rw [canonicalize, disj_eq_merge, Connective.map_merge, hparts ih, map, canonicalize,
      disj_eq_merge]
  | not part ih => rw [canonicalize, map_negate, ih, map, canonicalize]
  | leaf c => rfl

end RowPolicy.Filter
