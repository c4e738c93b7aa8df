import Mathlib.Logic.Relation
import RowPolicy.Proofs.TypedCheck

/-!
Spellings of filters. One spelling of a filter is rewritten into another by spreading out a
combination inside one of its kind, letting go of a single part's combination or of a double
negation, and settling a constant, anywhere in the tree. Main statements: the canonical form is
reached by rewriting, two filters have the same one exactly when rewriting joins them, and the
canonical trees are those that cannot be rewritten; so filters that are spelled differently are read
as one.
-/
open Relation (EqvGen ReflTransGen)
open Relation.EqvGen (reflTransGen_le_eqvGen)

namespace RowPolicy

namespace Filter

/-- One change of spelling, at any place of a filter. -/
inductive Rewrites : Filter → Filter → Prop
  | flatten (k : Connective) (front inner back : List Filter) :
    Rewrites (k.combine (front ++ k.combine inner :: back)) (k.combine (front ++ inner ++ back))
  | absorb (k : Connective) (front back : List Filter) :
    Rewrites (k.combine (front ++ k.absorbing :: back)) k.absorbing
  | single (k : Connective) (part : Filter) : Rewrites (k.combine [part]) part
  | notNot (part : Filter) : Rewrites (not (not part)) part
  | notMatchAll : Rewrites (not matchAll) matchNone
  | notMatchNone : Rewrites (not matchNone) matchAll
  | inPart {f g : Filter} (k : Connective) (front back : List Filter) (h : Rewrites f g) :
    Rewrites (k.combine (front ++ f :: back)) (k.combine (front ++ g :: back))
  | inNot {f g : Filter} (h : Rewrites f g) : Rewrites (not f) (not g)

/-- To drop a neutral constant is to spread out its parts, of which there are none. -/
theorem Rewrites.neutral (k : Connective) (front back : List Filter) :
    Rewrites (k.combine (front ++ k.combine [] :: back)) (k.combine (front ++ back)) := by
  simpa using flatten k front [] back

namespace Connective

variable {k : Connective} {parts : List Filter} {p : Filter}

theorem spread_combine (k : Connective) (parts : List Filter) :
    k.spread (k.combine parts) = parts := by
  cases k <;> rfl

theorem spread_of_fits (h : k.fits p = true) : k.spread p = [p] := by
  rcases spread_cases k p with ⟨inner, rfl, -⟩ | ⟨-, hspread⟩
  · cases k <;> cases h
  · exact hspread

theorem combine_ne_absorbing (k : Connective) (parts : List Filter) :
    k.combine parts ≠ k.absorbing := by
  cases k <;> exact nofun

theorem not_fits_absorbing (k : Connective) : k.fits k.absorbing = false := by
  cases k <;> rfl

theorem not_fits_combine (k : Connective) (parts : List Filter) :
    k.fits (k.combine parts) = false := by
  cases k <;> rfl

/-- Merged canonical parts, none of them absorbing, are spread out as the parts are. -/
theorem spread_merge (hparts : ∀ p ∈ parts, p.isCanonical = true) (h : k.absorbing ∉ parts) :
    k.merge parts ≠ k.absorbing ∧ k.spread (k.merge parts) = parts.flatMap k.spread := by
  rw [merge, if_neg h]
  rcases collapse_cases k.combine (parts.flatMap k.spread) with ⟨p, hp, he⟩ | ⟨-, he⟩
  · have hfits : k.fits p = true := by
      obtain ⟨q, hq, hmem⟩ := List.mem_flatMap.mp (hp ▸ List.mem_singleton_self p)
      exact (fits_of_mem_spread (hparts q hq) (fun hne => h (hne ▸ hq)) hmem).1
    rw [he, hp, spread_of_fits hfits]
    refine ⟨?_, rfl⟩
    rintro rfl
    rw [not_fits_absorbing] at hfits
    cases hfits
  · rw [he, spread_combine]
    exact ⟨combine_ne_absorbing k _, rfl⟩

theorem merge_merge {inner : List Filter} (hinner : ∀ p ∈ inner, p.isCanonical = true)
    (front back : List Filter) :
    k.merge (front ++ k.merge inner :: back) = k.merge (front ++ inner ++ back) := by
  by_cases h : k.absorbing ∈ inner
  · have hleft : k.absorbing ∈ front ++ k.merge inner :: back := by simp [merge, h]
    have hright : k.absorbing ∈ front ++ inner ++ back := by simp [h]
    rw [merge, if_pos hleft, merge, if_pos hright]
  · obtain ⟨hne, hspread⟩ := spread_merge hinner h
    have hmem : k.absorbing ∈ front ++ k.merge inner :: back ↔
        k.absorbing ∈ front ++ inner ++ back := by
      simp [h, hne.symm]
    have hflat : (front ++ k.merge inner :: back).flatMap k.spread =
        (front ++ inner ++ back).flatMap k.spread := by
      simp [hspread]
    unfold merge at hmem hflat ⊢
    simp only [hmem, hflat]

theorem merge_singleton (hp : p.isCanonical = true) : k.merge [p] = p := by
  by_cases h : k.absorbing = p
  · rw [merge, if_pos (by simp [h]), h]
  · rw [merge, if_neg (by simpa using h), List.flatMap_singleton]
    rcases spread_cases k p with ⟨inner, rfl, hspread⟩ | ⟨-, hspread⟩
    · rw [hspread]
      rcases collapse_cases k.combine inner with ⟨q, rfl, -⟩ | ⟨-, he⟩
      · exact absurd rfl (isCanonical_combine_iff.mp hp).1
      · exact he
    · rw [hspread]
      rfl

theorem merge_absorbing (k : Connective) (front back : List Filter) :
    k.merge (front ++ k.absorbing :: back) = k.absorbing := by
  rw [merge, if_pos (by simp)]

end Connective

variable {f g h : Filter}

theorem negate_negate (hf : f.isCanonical = true) : f.negate.negate = f := by
  cases f with
  | all parts => cases parts <;> rfl
  | any parts => cases parts <;> rfl
  | not part => exact negate_eq_not hf
  | leaf c => rfl

theorem isCanonical_parts {parts : List Filter} :
    ∀ p ∈ parts.map canonicalize, p.isCanonical = true :=
  List.forall_mem_map.mpr fun p _ => isCanonical_canonicalize p

theorem canonicalize_eq_of_rewrites (h : Rewrites f g) : f.canonicalize = g.canonicalize := by
  induction h with
  | flatten k front inner back =>
    simp only [canonicalize_combine, List.map_append, List.map_cons]
    exact Connective.merge_merge isCanonical_parts _ _
  | absorb k front back =>
    have hself : k.absorbing.canonicalize = k.absorbing :=
      canonicalize_eq_self Connective.isCanonical_absorbing
    rw [canonicalize_combine, List.map_append, List.map_cons, hself, Connective.merge_absorbing]
  | single k part =>
    rw [canonicalize_combine]
    exact Connective.merge_singleton (isCanonical_canonicalize part)
  | notNot part => exact negate_negate (isCanonical_canonicalize part)
  | notMatchAll => rfl
  | notMatchNone => rfl
  | inPart k front back h ih => simp only [canonicalize_combine, List.map_append, List.map_cons, ih]
  | inNot h ih => simp only [canonicalize, ih]

theorem reaches_inPart (k : Connective) (front back : List Filter) (h : ReflTransGen Rewrites f g) :
    ReflTransGen Rewrites (k.combine (front ++ f :: back)) (k.combine (front ++ g :: back)) := by
  induction h with
  | refl => exact .refl
  | tail _ hstep ih => exact ih.tail (.inPart k front back hstep)

theorem reaches_inNot (h : ReflTransGen Rewrites f g) :
    ReflTransGen Rewrites (not f) (not g) := by
  induction h with
  | refl => exact .refl
  | tail _ hstep ih => exact ih.tail (.inNot hstep)

theorem reaches_inParts (k : Connective) {parts : List Filter} {change : Filter → Filter}
    (h : ∀ p ∈ parts, ReflTransGen Rewrites p (change p)) (front : List Filter) :
    ReflTransGen Rewrites (k.combine (front ++ parts)) (k.combine (front ++ parts.map change)) := by
  induction parts generalizing front with
  | nil => exact .refl
  | cons p parts ih =>
    have hfirst := reaches_inPart k front parts (h p (by simp))
    have hrest := ih (fun q hq => h q (by simp [hq])) (front ++ [change p])
    simp only [List.append_assoc, List.singleton_append] at hrest
    exact hfirst.trans hrest

theorem reaches_flatMap (k : Connective) (front parts : List Filter) :
    ReflTransGen Rewrites (k.combine (front ++ parts))
      (k.combine (front ++ parts.flatMap k.spread)) := by
  induction parts generalizing front with
  | nil => exact .refl
  | cons p parts ih =>
    have hfirst : ReflTransGen Rewrites (k.combine (front ++ p :: parts))
        (k.combine (front ++ k.spread p ++ parts)) := by
      rcases Connective.spread_cases k p with ⟨inner, rfl, hspread⟩ | ⟨-, hspread⟩ <;> rw [hspread]
      · exact .single (.flatten k front inner parts)
      · rw [List.append_assoc, List.singleton_append]
    have hrest := ih (front ++ k.spread p)
    rw [List.append_assoc front _ (parts.flatMap k.spread), ← List.flatMap_cons] at hrest
    exact hfirst.trans hrest

theorem reaches_merge (k : Connective) (parts : List Filter) :
    ReflTransGen Rewrites (k.combine parts) (k.merge parts) := by
  by_cases h : k.absorbing ∈ parts
  · obtain ⟨front, back, rfl⟩ := List.append_of_mem h
    rw [Connective.merge_absorbing]
    exact .single (.absorb k front back)
  · rw [Connective.merge, if_neg h]
    refine (reaches_flatMap k [] parts).trans ?_
    rw [List.nil_append]
    rcases collapse_cases k.combine (parts.flatMap k.spread) with ⟨p, hp, he⟩ | ⟨-, he⟩ <;> rw [he]
    rw [hp]
    exact .single (.single k p)

theorem reaches_negate (f : Filter) : ReflTransGen Rewrites (not f) f.negate := by
  unfold negate
  split
  · exact .single .notMatchAll
  · exact .single .notMatchNone
  · exact .single (.notNot _)
  · exact .refl

theorem reaches_canonicalize (f : Filter) : ReflTransGen Rewrites f f.canonicalize := by
  have hcombine (k : Connective) {parts : List Filter}
      (ih : ∀ p ∈ parts, ReflTransGen Rewrites p p.canonicalize) :
      ReflTransGen Rewrites (k.combine parts) (k.combine parts).canonicalize := by
    rw [canonicalize_combine]
    exact (reaches_inParts k ih []).trans (reaches_merge k _)
  induction f with
  | all parts ih => exact hcombine .all ih
  | any parts ih => exact hcombine .any ih
  | not part ih => exact (reaches_inNot ih).trans (reaches_negate part.canonicalize)
  | leaf c => exact .refl

/-- Two filters have the same canonical form exactly when rewriting, back and forth, leads from one
to the other. -/
theorem canonicalize_eq_iff : f.canonicalize = g.canonicalize ↔ EqvGen Rewrites f g := by
  constructor
  · intro h
    have hleft := reflTransGen_le_eqvGen _ _ _ (reaches_canonicalize f)
    have hright := reflTransGen_le_eqvGen _ _ _ (reaches_canonicalize g)
    exact hleft.trans _ _ _ (h ▸ hright.symm)
  · intro h
    induction h with
    | rel f g h => exact canonicalize_eq_of_rewrites h
    | refl f => rfl
    | symm f g _ ih => exact ih.symm
    | trans f g h _ _ ih ih' => exact ih.trans ih'

theorem not_rewrites_of_isCanonical (hf : f.isCanonical = true) : ¬Rewrites f g := by
  intro h
  induction h with
  | flatten k front inner back =>
    have hfits := ((isCanonical_combine_iff.mp hf).2 (k.combine inner) (by simp)).1
    rw [Connective.not_fits_combine] at hfits
    cases hfits
  | absorb k front back =>
    have hfits := ((isCanonical_combine_iff.mp hf).2 k.absorbing (by simp)).1
    rw [Connective.not_fits_absorbing] at hfits
    cases hfits
  | single k part => exact (isCanonical_combine_iff.mp hf).1 rfl
  | notNot part => cases (isCanonical_not_iff.mp hf).1
  | notMatchAll => cases (isCanonical_not_iff.mp hf).1
  | notMatchNone => cases (isCanonical_not_iff.mp hf).1
  | inPart k front back h ih => exact ih ((isCanonical_combine_iff.mp hf).2 _ (by simp)).2
  | inNot h ih => exact ih (isCanonical_not_iff.mp hf).2

/-- A filter is canonical exactly when it cannot be rewritten. -/
theorem isCanonical_iff_not_rewrites : f.isCanonical = true ↔ ∀ g, ¬Rewrites f g := by
  constructor
  · exact fun hf g => not_rewrites_of_isCanonical hf
  · intro h
    rcases (reaches_canonicalize f).cases_head with he | ⟨g, hg, -⟩
    · exact he ▸ isCanonical_canonicalize f
    · exact absurd hg (h g)

section Merging

theorem canonical_pair (hf : f.isCanonical = true) (hg : g.isCanonical = true) :
    ∀ p ∈ [f, g], p.isCanonical = true := by
  simp [hf, hg]

protected theorem and_assoc (hf : f.isCanonical = true) (hg : g.isCanonical = true)
    (hh : h.isCanonical = true) : (f.and g).and h = f.and (g.and h) := by
  have hleft := Connective.merge_merge (k := .all) (canonical_pair hf hg) [] [h]
  have hright := Connective.merge_merge (k := .all) (canonical_pair hg hh) [f] []
  simp only [and, conj_eq_merge]
  exact hleft.trans hright.symm

theorem matchAll_and (hf : f.isCanonical = true) : matchAll.and f = f := by
  have hnone : ∀ p ∈ ([] : List Filter), p.isCanonical = true := nofun
  rw [and, conj_eq_merge]
  exact (Connective.merge_merge (k := .all) hnone [] [f]).trans (Connective.merge_singleton hf)

theorem and_matchAll (hf : f.isCanonical = true) : f.and matchAll = f := by
  have hnone : ∀ p ∈ ([] : List Filter), p.isCanonical = true := nofun
  rw [and, conj_eq_merge]
  exact (Connective.merge_merge (k := .all) hnone [f] []).trans (Connective.merge_singleton hf)

theorem matchNone_and (f : Filter) : matchNone.and f = matchNone := by
  rw [and, conj_eq_merge]
  exact Connective.merge_absorbing .all [] [f]

theorem and_matchNone (f : Filter) : f.and matchNone = matchNone := by
  rw [and, conj_eq_merge]
  exact Connective.merge_absorbing .all [f] []

end Merging

end Filter

section Rechecked

variable {f g t : Filter}

/-- The condition that is read where this one is written out: an operand without a form of its own
in JSON is written as null. -/
def Condition.asWritten (c : Condition) : Condition :=
  { c with operand := (Operand.ofRaw? c.operand.toJson).getD c.operand }

theorem Condition.eq_asWritten {c d : Condition}
    (h : ofRaw? [("field", .str c.field), ("op", .str c.operator.name),
      ("value", c.operand.toJson)] = some d) : d = c.asWritten := by
  obtain ⟨hfield, ⟨raw, hraw, hop⟩, hoperand⟩ := ofRaw?_eq_some_iff.mp h
  cases hraw
  obtain ⟨field, operator, operand⟩ := d
  simp [Json.str?] at hfield hop hoperand
  simp [asWritten, hfield, hop, hoperand]

theorem eq_map_of_mapM {α β γ : Type} {view : β → Option γ} {write : α → β} {change : α → γ}
    {xs : List α} (h : ∀ x ∈ xs, ∀ c, view (write x) = some c → c = change x) {cs : List γ}
    (hcs : (xs.map write).mapM view = some cs) : cs = xs.map change := by
  induction xs generalizing cs with
  | nil =>
    cases hcs
    rfl
  | cons x xs ih =>
    simp only [List.map_cons, List.mapM_cons, Option.bind_eq_bind, Option.bind_eq_some_iff] at hcs
    obtain ⟨c, hc, rest, hrest, hcs⟩ := hcs
    cases hcs
    rw [h x (by simp) c hc, ih (fun y hy => h y (by simp [hy])) hrest, List.map_cons]

namespace Filter

theorem toRaw_combine (k : Connective) (parts : List Filter) :
    (k.combine parts).toRaw = .obj [(k.key, .arr (parts.map toRaw))] := by
  cases k <;> simp [Connective.combine, Connective.key, toRaw, toRawParts_eq_map]

theorem written?_combination (k : Connective) (body : Json) :
    written? (.obj [(k.key, body)]) = (writtenList? body).map k.combine := by
  cases k <;> simp [written?_obj, Connective.combine, Connective.key]

theorem written?_negation (body : Json) :
    written? (.obj [("not", body)]) = (written? body).map not := by
  simp [written?_obj]

theorem eq_map_asWritten (h : written? f.toRaw = some t) : t = f.map Condition.asWritten := by
  have hcombine (k : Connective) {parts : List Filter} {t : Filter}
      (ih : ∀ p ∈ parts, ∀ t, written? p.toRaw = some t → t = p.map Condition.asWritten)
      (h : written? (k.combine parts).toRaw = some t) :
      t = (k.combine parts).map Condition.asWritten := by
    rw [toRaw_combine, written?_combination] at h
    obtain ⟨written, hwritten, rfl⟩ := Option.map_eq_some_iff.mp h
    rw [Connective.map_combine, eq_map_of_mapM ih hwritten]
  induction f generalizing t with
  | all parts ih => exact hcombine .all (fun p hp t => ih p hp) h
  | any parts ih => exact hcombine .any (fun p hp t => ih p hp) h
  | not part ih =>
    rw [toRaw, written?_negation] at h
    obtain ⟨written, hwritten, rfl⟩ := Option.map_eq_some_iff.mp h
    rw [ih hwritten, map]
  | leaf c =>
    obtain ⟨d, hd, rfl⟩ := Option.map_eq_some_iff.mp (written?_obj _ ▸ h)
    rw [Condition.eq_asWritten hd, map]

theorem canonicalize_map_eq (change : Condition → Condition) (h : f.canonicalize = g.canonicalize) :
    (f.map change).canonicalize = (g.map change).canonicalize := by
  rw [← map_canonicalize, h, map_canonicalize]

end Filter

end Rechecked

namespace Schema

variable {s : Schema} {limits : QueryLimits} {model root : String} {f t : Filter}

/-- A filter that passes the check is left in canonical form, with its conditions as they are
written and typed. -/
theorem eq_normalize_of_recheck (h : s.recheck limits model t root = .ok f) :
    ∃ m, s.model? model = some m ∧ f = m.normalize (t.map Condition.asWritten) := by
  have hparse : s.parseFilter limits model t.toRaw root = .ok f := h
  obtain ⟨m, hm, -, written, hwritten, -, rfl⟩ := parseFilter_eq_ok_iff.mp hparse
  exact ⟨m, hm, by rw [Filter.eq_map_asWritten hwritten]⟩

/-- Spellings of one filter, however far apart, that pass the check are left as one filter, and so
are values that write them. Merging canonical filters does not depend on how they are grouped, a
filter that matches every row adds nothing and one that matches none leaves nothing, and a negation
is undone by another. -/
theorem eq_of_rewrites (s : Schema) (limits : QueryLimits) (model : String) :
    (∀ f g, EqvGen Filter.Rewrites f g → ∀ root root' f' g',
      s.recheck limits model f root = .ok f' → s.recheck limits model g root' = .ok g' → f' = g') ∧
    (∀ f g, EqvGen Filter.Rewrites f g → ∀ v w, Filter.written? v = some f →
      Filter.written? w = some g → ∀ root root' f' g', s.parseFilter limits model v root = .ok f' →
        s.parseFilter limits model w root' = .ok g' → f' = g') ∧
    ∀ f g h : Filter, f.isCanonical = true → g.isCanonical = true → h.isCanonical = true →
      (f.and g).and h = f.and (g.and h) ∧ (Filter.matchAll.and f = f ∧ f.and .matchAll = f) ∧
        (Filter.matchNone.and f = .matchNone ∧ f.and .matchNone = .matchNone) ∧
          f.negate.negate = f := by
  refine ⟨?_, ?_, ?_⟩
  · intro f g hrewrites root root' f' g' hf hg
    obtain ⟨m, hm, rfl⟩ := eq_normalize_of_recheck hf
    obtain ⟨n, hn, rfl⟩ := eq_normalize_of_recheck hg
    obtain rfl : m = n := Option.some.inj (hm.symm.trans hn)
    have hwritten := Filter.canonicalize_map_eq Condition.asWritten
      (Filter.canonicalize_eq_iff.mpr hrewrites)
    exact Filter.canonicalize_map_eq m.typed hwritten
  · intro f g hrewrites v w hv hw root root' f' g' hf hg
    obtain ⟨m, hm, -, t, ht, -, rfl⟩ := parseFilter_eq_ok_iff.mp hf
    obtain ⟨n, hn, -, u, hu, -, rfl⟩ := parseFilter_eq_ok_iff.mp hg
    obtain rfl : m = n := Option.some.inj (hm.symm.trans hn)
    obtain rfl : f = t := Option.some.inj (hv.symm.trans ht)
    obtain rfl : g = u := Option.some.inj (hw.symm.trans hu)
    exact Filter.canonicalize_map_eq m.typed (Filter.canonicalize_eq_iff.mpr hrewrites)
  · intro f g h hf hg hh
    exact ⟨Filter.and_assoc hf hg hh, ⟨Filter.matchAll_and hf, Filter.and_matchAll hf⟩,
      ⟨Filter.matchNone_and f, Filter.and_matchNone f⟩, Filter.negate_negate hf⟩

def unpriced : Filter := .leaf ⟨"total", .is, .null⟩

def dearOrders : Filter := .leaf ⟨"total", .gt, .single (.int 99)⟩

/-- One filter in two spellings, which meet where neither is what it was. -/
def groupedOrders : Filter := .not (.any [.any [unpriced], .any [], .not (.not dearOrders)])

def listedOrders : Filter := .all [.not (.any [unpriced, .any [dearOrders]])]

def dearOrUnpriced : Filter :=
  .any [unpriced, .leaf ⟨"total", .gt, .single (.float (.ofNat 99))⟩]

theorem rewrites_groupedOrders : EqvGen Filter.Rewrites groupedOrders listedOrders :=
  Filter.canonicalize_eq_iff.mp rfl

theorem shop_recheck_groupedOrders :
    (∃ f g, shop.recheck {} "order" groupedOrders "policy" = .ok f ∧
      shop.recheck {} "order" listedOrders "filters" = .ok g ∧ f = g ∧ f = .not dearOrUnpriced) ∧
    (∃ f g, shop.parseFilter {} "order" groupedOrders.toRaw "filters" = .ok f ∧
      shop.parseFilter {} "order" listedOrders.toRaw "filters" = .ok g ∧ f = g) ∧
    (dearOrUnpriced.and unpriced).and dearOrders =
      dearOrUnpriced.and (unpriced.and dearOrders) := by
  obtain ⟨hcheck, hparse, hmerge⟩ := eq_of_rewrites shop {} "order"
  obtain ⟨f, hf, hnot⟩ : ∃ f, shop.recheck {} "order" groupedOrders "policy" = .ok f ∧
      f = .not dearOrUnpriced := ⟨_, rfl, rfl⟩
  obtain ⟨g, hg⟩ : ∃ g, shop.recheck {} "order" listedOrders "filters" = .ok g := ⟨_, rfl⟩
  obtain ⟨f', hf'⟩ : ∃ f, shop.parseFilter {} "order" groupedOrders.toRaw "filters" = .ok f :=
    ⟨_, rfl⟩
  obtain ⟨g', hg'⟩ : ∃ g, shop.parseFilter {} "order" listedOrders.toRaw "filters" = .ok g :=
    ⟨_, rfl⟩
  have hsame := hcheck _ _ rewrites_groupedOrders _ _ f g hf hg
  have hread := hparse _ _ rewrites_groupedOrders groupedOrders.toRaw listedOrders.toRaw
    (by rfl) (by rfl) _ _ f' g' hf' hg'
  have hand := (hmerge dearOrUnpriced unpriced dearOrders (by decide +kernel) (by decide +kernel)
    (by decide +kernel)).1
  exact ⟨⟨f, g, hf, hg, hsame, hnot⟩, ⟨f', g', hf', hg', hread⟩, hand⟩

end Schema

end RowPolicy
