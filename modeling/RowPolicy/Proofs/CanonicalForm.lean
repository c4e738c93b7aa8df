import RowPolicy.Filter

/-!
The canonical form of filters. In a canonical tree no combinator has a single part or a part of its
own kind, and a constant stands only at the top. The canonical constructors build such trees from
such trees, bring in no new condition and no depth beyond that of the plain tree, and change nothing
about a tree that is canonical already.
-/
namespace RowPolicy.Filter

/-- Induction over filter trees, with a hypothesis for each part of a combinator. -/
@[elab_as_elim, induction_eliminator]
theorem induction {motive : Filter → Prop}
    (all : ∀ parts, (∀ p ∈ parts, motive p) → motive (all parts))
    (any : ∀ parts, (∀ p ∈ parts, motive p) → motive (any parts))
    (not : ∀ part, motive part → motive (not part)) (leaf : ∀ c, motive (leaf c)) (f : Filter) :
    motive f :=
  @Filter.rec motive (fun parts => ∀ p ∈ parts, motive p) all any not leaf nofun
    (fun _ _ hpart hparts => List.forall_mem_cons.mpr ⟨hpart, hparts⟩) f

theorem toRawParts_eq_map (parts : List Filter) : toRawParts parts = parts.map toRaw := by
  induction parts with
  | nil => rfl
  | cons part parts ih => simp [toRawParts, ih]

@[simp] theorem mem_partsConditions {parts : List Filter} {c : Condition} :
    c ∈ partsConditions parts ↔ ∃ p ∈ parts, c ∈ p.conditions := by
  induction parts with
  | nil => simp [partsConditions]
  | cons part parts ih => simp [partsConditions, ih]

mutual
/-- How deep a filter nests; a condition and an empty combinator count one. -/
def depth : Filter → Nat
  | all parts => partsDepth parts + 1
  | any parts => partsDepth parts + 1
  | not part => part.depth + 1
  | leaf _ => 1

def partsDepth : List Filter → Nat
  | [] => 0
  | part :: parts => max part.depth (partsDepth parts)
end

theorem partsDepth_le_iff {parts : List Filter} {n : Nat} :
    partsDepth parts ≤ n ↔ ∀ p ∈ parts, p.depth ≤ n := by
  induction parts with
  | nil => simp [partsDepth]
  | cons part parts ih => rw [partsDepth, Nat.max_le, ih, List.forall_mem_cons]

theorem depth_le_partsDepth {parts : List Filter} {p : Filter} (h : p ∈ parts) :
    p.depth ≤ partsDepth parts :=
  partsDepth_le_iff.mp (Nat.le_refl _) p h

theorem depth_pos (f : Filter) : 0 < f.depth := by
  cases f <;> simp [depth]

inductive Connective where
  | all | any

namespace Connective

def combine : Connective → List Filter → Filter
  | all => Filter.all
  | any => Filter.any

/-- The constant that settles a combination whatever its other parts are. -/
def absorbing : Connective → Filter
  | all => matchNone
  | any => matchAll

/-- What stands for a part inside a combination: for one of the same kind, its own parts. -/
def spread : Connective → Filter → List Filter
  | all, .all inner => inner
  | any, .any inner => inner
  | _, part => [part]

/-- May stand among other parts of a combination. -/
def fits : Connective → Filter → Bool
  | all, .all _ => false
  | all, .any [] => false
  | any, .any _ => false
  | any, .all [] => false
  | _, _ => true

def merge (k : Connective) (parts : List Filter) : Filter :=
  if k.absorbing ∈ parts then k.absorbing else collapse k.combine (parts.flatMap k.spread)

end Connective

theorem conjParts_eq (parts : List Filter) : conjParts parts =
    if matchNone ∈ parts then none else some (parts.flatMap Connective.all.spread) := by
  induction parts using conjParts.induct with
  | case1 => simp [conjParts]
  | case2 inner parts ih =>
    simp only [conjParts, ih]
    split <;> simp_all [matchNone, Connective.spread]
  | case3 parts => simp [conjParts, matchNone]
  | case4 part parts hall hany ih =>
    have hspread : Connective.all.spread part = [part] := by
      cases part <;> simp_all [Connective.spread]
    have hne : matchNone ≠ part := fun h => hany h.symm
    simp only [conjParts, ih, List.mem_cons, hne, false_or, List.flatMap_cons, hspread]
    split <;> simp

theorem disjParts_eq (parts : List Filter) : disjParts parts =
    if matchAll ∈ parts then none else some (parts.flatMap Connective.any.spread) := by
  induction parts using disjParts.induct with
  | case1 => simp [disjParts]
  | case2 inner parts ih =>
    simp only [disjParts, ih]
    split <;> simp_all [matchAll, Connective.spread]
  | case3 parts => simp [disjParts, matchAll]
  | case4 part parts hany hall ih =>
    have hspread : Connective.any.spread part = [part] := by
      cases part <;> simp_all [Connective.spread]
    have hne : matchAll ≠ part := fun h => hall h.symm
    simp only [disjParts, ih, List.mem_cons, hne, false_or, List.flatMap_cons, hspread]
    split <;> simp

theorem conj_eq_merge (parts : List Filter) : conj parts = Connective.all.merge parts := by
  simp only [conj, conjParts_eq, Connective.merge, Connective.absorbing, Connective.combine]
  split <;> simp_all

theorem disj_eq_merge (parts : List Filter) : disj parts = Connective.any.merge parts := by
  simp only [disj, disjParts_eq, Connective.merge, Connective.absorbing, Connective.combine]
  split <;> simp_all

theorem collapse_cases (combine : List Filter → Filter) (parts : List Filter) :
    (∃ p, parts = [p] ∧ collapse combine parts = p) ∨
      (parts.length ≠ 1 ∧ collapse combine parts = combine parts) := by
  match parts with
  | [] => exact .inr ⟨nofun, rfl⟩
  | [p] => exact .inl ⟨p, rfl, rfl⟩
  | _ :: _ :: _ => exact .inr ⟨by simp, rfl⟩

def fitsNot : Filter → Bool
  | all [] => false
  | any [] => false
  | not _ => false
  | _ => true

mutual
def isCanonical : Filter → Bool
  | all parts => parts.length != 1 && parts.all Connective.all.fits && areCanonical parts
  | any parts => parts.length != 1 && parts.all Connective.any.fits && areCanonical parts
  | not part => part.fitsNot && part.isCanonical
  | leaf _ => true

def areCanonical : List Filter → Bool
  | [] => true
  | part :: parts => part.isCanonical && areCanonical parts
end

@[simp] theorem areCanonical_iff {parts : List Filter} :
    areCanonical parts = true ↔ ∀ p ∈ parts, p.isCanonical = true := by
  induction parts with
  | nil => simp [areCanonical]
  | cons part parts ih => simp [areCanonical, ih]

theorem isCanonical_combine_iff {k : Connective} {parts : List Filter} :
    (k.combine parts).isCanonical = true ↔
      parts.length ≠ 1 ∧ ∀ p ∈ parts, k.fits p = true ∧ p.isCanonical = true := by
  cases k <;> simp [Connective.combine, isCanonical, and_assoc, forall_and]

theorem isCanonical_not_iff {part : Filter} : (not part).isCanonical = true ↔
    part.fitsNot = true ∧ part.isCanonical = true := by
  simp [isCanonical]

namespace Connective

variable {k : Connective} {parts : List Filter} {p q : Filter}

/-- A part of the same kind is spread out, and any other but the absorbing one fits. -/
theorem spread_cases : (k : Connective) → (p : Filter) →
    (∃ inner, p = k.combine inner ∧ k.spread p = inner) ∨
      ((p = k.absorbing ∨ k.fits p = true) ∧ k.spread p = [p])
  | all, .all inner => .inl ⟨inner, rfl, rfl⟩
  | all, .any [] => .inr ⟨.inl rfl, rfl⟩
  | all, .any (_ :: _) => .inr ⟨.inr rfl, rfl⟩
  | all, .not _ => .inr ⟨.inr rfl, rfl⟩
  | all, .leaf _ => .inr ⟨.inr rfl, rfl⟩
  | any, .any inner => .inl ⟨inner, rfl, rfl⟩
  | any, .all [] => .inr ⟨.inl rfl, rfl⟩
  | any, .all (_ :: _) => .inr ⟨.inr rfl, rfl⟩
  | any, .not _ => .inr ⟨.inr rfl, rfl⟩
  | any, .leaf _ => .inr ⟨.inr rfl, rfl⟩

theorem fits_of_mem_spread (hp : p.isCanonical = true) (hne : p ≠ k.absorbing)
    (hq : q ∈ k.spread p) : k.fits q = true ∧ q.isCanonical = true := by
  rcases spread_cases k p with ⟨inner, rfl, hspread⟩ | ⟨hfits, hspread⟩
  · rw [hspread] at hq
    exact (isCanonical_combine_iff.mp hp).2 q hq
  · rw [hspread, List.mem_singleton] at hq
    subst hq
    exact ⟨hfits.resolve_left hne, hp⟩

theorem isCanonical_absorbing : k.absorbing.isCanonical = true := by cases k <;> rfl

theorem isCanonical_merge (h : ∀ p ∈ parts, p.isCanonical = true) :
    (k.merge parts).isCanonical = true := by
  unfold merge
  split
  · exact isCanonical_absorbing
  · rename_i habsorbing
    have hflat : ∀ q ∈ parts.flatMap k.spread, k.fits q = true ∧ q.isCanonical = true := by
      intro q hq
      obtain ⟨p, hp, hq⟩ := List.mem_flatMap.mp hq
      exact fits_of_mem_spread (h p hp) (fun he => habsorbing (he ▸ hp)) hq
    rcases collapse_cases k.combine (parts.flatMap k.spread) with ⟨p, hp, he⟩ | ⟨hlength, he⟩
    · rw [he]; exact (hflat p (by simp [hp])).2
    · rw [he]; exact isCanonical_combine_iff.mpr ⟨hlength, hflat⟩

theorem merge_eq_combine (h : (k.combine parts).isCanonical = true) :
    k.merge parts = k.combine parts := by
  obtain ⟨hlength, hparts⟩ := isCanonical_combine_iff.mp h
  have habsorbing : k.absorbing ∉ parts := by
    intro hmem
    have hfits := (hparts _ hmem).1
    cases k <;> cases hfits
  have hspread : parts.flatMap k.spread = parts := by
    have hself : ∀ p ∈ parts, k.spread p = [p] := by
      intro p hp
      rcases spread_cases k p with ⟨inner, rfl, -⟩ | ⟨-, hspread⟩
      · have hfits := (hparts _ hp).1
        cases k <;> cases hfits
      · exact hspread
    rw [List.flatMap_def, List.map_congr_left hself, ← List.flatMap_def, List.flatMap_singleton']
  rw [merge, if_neg habsorbing, hspread]
  rcases collapse_cases k.combine parts with ⟨p, rfl, -⟩ | ⟨-, he⟩
  · exact absurd rfl hlength
  · exact he

theorem depth_combine (k : Connective) (parts : List Filter) :
    (k.combine parts).depth = partsDepth parts + 1 := by
  cases k <;> simp [combine, depth]

theorem depth_le_of_mem_spread (hq : q ∈ k.spread p) : q.depth ≤ p.depth := by
  rcases spread_cases k p with ⟨inner, rfl, hspread⟩ | ⟨-, hspread⟩ <;> rw [hspread] at hq
  · rw [depth_combine]
    exact Nat.le_succ_of_le (depth_le_partsDepth hq)
  · exact Nat.le_of_eq (by rw [List.mem_singleton.mp hq])

theorem depth_merge_le (k : Connective) (parts : List Filter) :
    (k.merge parts).depth ≤ partsDepth parts + 1 := by
  unfold merge
  split
  · cases k <;> simp [absorbing, matchAll, matchNone, depth, partsDepth]
  · have hflat : partsDepth (parts.flatMap k.spread) ≤ partsDepth parts := by
      refine partsDepth_le_iff.mpr fun q hq => ?_
      obtain ⟨p, hp, hq⟩ := List.mem_flatMap.mp hq
      exact Nat.le_trans (depth_le_of_mem_spread hq) (depth_le_partsDepth hp)
    rcases collapse_cases k.combine (parts.flatMap k.spread) with ⟨p, hp, he⟩ | ⟨-, he⟩
    · have hdepth : p.depth ≤ partsDepth (parts.flatMap k.spread) :=
        depth_le_partsDepth (by simp [hp])
      rw [he]; omega
    · rw [he, depth_combine]; omega

theorem mem_conditions_combine {c : Condition} :
    c ∈ (k.combine parts).conditions ↔ ∃ p ∈ parts, c ∈ p.conditions := by
  cases k <;> simp [combine, conditions]

theorem exists_of_mem_conditions_merge {c : Condition} (h : c ∈ (k.merge parts).conditions) :
    ∃ p ∈ parts, c ∈ p.conditions := by
  unfold merge at h
  split at h
  · cases k <;> simp [absorbing, matchAll, matchNone, conditions] at h
  · have hflat : ∃ q ∈ parts.flatMap k.spread, c ∈ q.conditions := by
      rcases collapse_cases k.combine (parts.flatMap k.spread) with ⟨p, hp, he⟩ | ⟨-, he⟩
      · exact ⟨p, by simp [hp], he ▸ h⟩
      · exact mem_conditions_combine.mp (he ▸ h)
    obtain ⟨q, hq, hc⟩ := hflat
    obtain ⟨p, hp, hq⟩ := List.mem_flatMap.mp hq
    refine ⟨p, hp, ?_⟩
    rcases spread_cases k p with ⟨inner, rfl, hspread⟩ | ⟨-, hspread⟩ <;> rw [hspread] at hq
    · exact mem_conditions_combine.mpr ⟨q, hq, hc⟩
    · rwa [← List.mem_singleton.mp hq]

end Connective

theorem isCanonical_negate {f : Filter} (h : f.isCanonical = true) :
    f.negate.isCanonical = true := by
  unfold negate
  split
  · rfl
  · rfl
  · exact (isCanonical_not_iff.mp h).2
  · refine isCanonical_not_iff.mpr ⟨?_, h⟩
    unfold fitsNot
    split <;> simp_all

theorem depth_negate_le (f : Filter) : f.negate.depth ≤ f.depth + 1 := by
  unfold negate
  split <;> simp only [matchAll, matchNone, depth, partsDepth] <;> omega

theorem mem_conditions_of_negate {f : Filter} {c : Condition} (h : c ∈ f.negate.conditions) :
    c ∈ f.conditions := by
  unfold negate at h
  split at h
  · simp [matchNone, conditions] at h
  · simp [matchAll, conditions] at h
  · exact h
  · exact h

theorem negate_eq_not {f : Filter} (h : (not f).isCanonical = true) : f.negate = not f := by
  have hfits := (isCanonical_not_iff.mp h).1
  unfold negate
  split
  · cases hfits
  · cases hfits
  · cases hfits
  · rfl

mutual
def canonicalize : Filter → Filter
  | all parts => conj (canonicalizeParts parts)
  | any parts => disj (canonicalizeParts parts)
  | not part => part.canonicalize.negate
  | leaf c => leaf c

def canonicalizeParts : List Filter → List Filter
  | [] => []
  | part :: parts => part.canonicalize :: canonicalizeParts parts
end

theorem canonicalizeParts_eq_map (parts : List Filter) :
    canonicalizeParts parts = parts.map canonicalize := by
  induction parts with
  | nil => rfl
  | cons part parts ih => simp [canonicalizeParts, ih]

theorem isCanonical_canonicalize (f : Filter) : f.canonicalize.isCanonical = true := by
  have hparts {parts : List Filter} (ih : ∀ p ∈ parts, p.canonicalize.isCanonical = true) :
      ∀ q ∈ canonicalizeParts parts, q.isCanonical = true := by
    rw [canonicalizeParts_eq_map]
    exact List.forall_mem_map.mpr ih
  induction f with
  | all parts ih =>
    rw [canonicalize, conj_eq_merge]
    exact Connective.isCanonical_merge (hparts ih)
  | any parts ih =>
    rw [canonicalize, disj_eq_merge]
    exact Connective.isCanonical_merge (hparts ih)
  | not part ih => exact isCanonical_negate ih
  | leaf c => rfl

theorem depth_canonicalize_le (f : Filter) : f.canonicalize.depth ≤ f.depth := by
  have hparts {k : Connective} {parts : List Filter}
      (ih : ∀ p ∈ parts, p.canonicalize.depth ≤ p.depth) :
      (k.merge (canonicalizeParts parts)).depth ≤ partsDepth parts + 1 := by
    refine Nat.le_trans (Connective.depth_merge_le k _) (Nat.succ_le_succ ?_)
    rw [canonicalizeParts_eq_map]
    refine partsDepth_le_iff.mpr (List.forall_mem_map.mpr fun p hp => ?_)
    exact Nat.le_trans (ih p hp) (depth_le_partsDepth hp)
  induction f with
  | all parts ih =>
    rw [canonicalize, conj_eq_merge]
    exact hparts ih
  | any parts ih =>
    rw [canonicalize, disj_eq_merge]
    exact hparts ih
  | not part ih => exact Nat.le_trans (depth_negate_le _) (Nat.succ_le_succ ih)
  | leaf c => exact Nat.le_refl _

theorem mem_conditions_of_canonicalize {f : Filter} {c : Condition}
    (h : c ∈ f.canonicalize.conditions) : c ∈ f.conditions := by
  have hparts {k : Connective} {parts : List Filter}
      (ih : ∀ p ∈ parts, c ∈ p.canonicalize.conditions → c ∈ p.conditions)
      (h : c ∈ (k.merge (canonicalizeParts parts)).conditions) : c ∈ partsConditions parts := by
    obtain ⟨q, hq, hc⟩ := Connective.exists_of_mem_conditions_merge h
    rw [canonicalizeParts_eq_map] at hq
    obtain ⟨p, hp, rfl⟩ := List.mem_map.mp hq
    exact mem_partsConditions.mpr ⟨p, hp, ih p hp hc⟩
  induction f with
  | all parts ih =>
    rw [canonicalize, conj_eq_merge] at h
    exact hparts ih h
  | any parts ih =>
    rw [canonicalize, disj_eq_merge] at h
    exact hparts ih h
  | not part ih => exact ih (mem_conditions_of_negate h)
  | leaf c => exact h

theorem canonicalize_eq_self {f : Filter} (h : f.isCanonical = true) : f.canonicalize = f := by
  have hmap {k : Connective} {parts : List Filter} (h : (k.combine parts).isCanonical = true)
      (ih : ∀ p ∈ parts, p.isCanonical = true → p.canonicalize = p) :
      canonicalizeParts parts = parts := by
    rw [canonicalizeParts_eq_map]
    exact (List.map_congr_left fun p hp =>
      ih p hp ((isCanonical_combine_iff.mp h).2 p hp).2).trans (List.map_id _)
  induction f with
  | all parts ih =>
    rw [canonicalize, hmap (k := .all) h ih, conj_eq_merge]
    exact Connective.merge_eq_combine h
  | any parts ih =>
    rw [canonicalize, hmap (k := .any) h ih, disj_eq_merge]
    exact Connective.merge_eq_combine h
  | not part ih =>
    rw [canonicalize, ih (isCanonical_not_iff.mp h).2]
    exact negate_eq_not h
  | leaf c => rfl

end RowPolicy.Filter
