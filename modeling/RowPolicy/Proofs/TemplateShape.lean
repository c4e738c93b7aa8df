import RowPolicy.Proofs.TemplateFilters

/-!
What an actor can change about the filter of a template. Where a template names attributes under the
key `value` only, they come to stand in the operands of conditions and nowhere else. Main statement:
such a template gives filters of one skeleton to all actors whom it does not deny.
-/
namespace RowPolicy

def Condition.blank (c : Condition) : Condition := { c with operand := .null }

namespace Filter

def skeleton (f : Filter) : Filter := f.map .blank

def heads (f : Filter) : List (String × Operator) := f.conditions.map fun c => (c.field, c.operator)

variable {f g : Filter}

@[simp] theorem heads_skeleton (f : Filter) : f.skeleton.heads = f.heads := by
  rw [heads, skeleton, conditions_map, List.map_map]
  rfl

theorem heads_eq_of_skeleton_eq (h : f.skeleton = g.skeleton) : f.heads = g.heads := by
  rw [← heads_skeleton f, h, heads_skeleton]

theorem eq_matchAll_iff_of_skeleton_eq (h : f.skeleton = g.skeleton) :
    f = matchAll ↔ g = matchAll := by
  rw [← map_eq_matchAll_iff f (g := .blank), ← skeleton, h, skeleton, map_eq_matchAll_iff]

end Filter

namespace Json

mutual
/-- Texts that start with a dollar sign stand under the key `value` only. -/
def isConfined : Json → Bool
  | str text => text.toList.head? != some '$'
  | arr items => confinedItems items
  | obj members => confinedMembers members
  | _ => true

def confinedItems : List Json → Bool
  | [] => true
  | item :: items => item.isConfined && confinedItems items

def confinedMembers : List (String × Json) → Bool
  | [] => true
  | (key, value) :: members => (key = "value" || value.isConfined) && confinedMembers members
end

mutual
def eraseValues : Json → Json
  | arr items => arr (eraseItems items)
  | obj members => obj (eraseMembers members)
  | raw => raw

def eraseItems : List Json → List Json
  | [] => []
  | item :: items => item.eraseValues :: eraseItems items

def eraseMembers : List (String × Json) → List (String × Json)
  | [] => []
  | (key, value) :: members =>
    (key, if key = "value" then null else value.eraseValues) :: eraseMembers members
end

theorem eraseItems_eq_map (items : List Json) : eraseItems items = items.map eraseValues := by
  induction items with
  | nil => rfl
  | cons item items ih => rw [eraseItems, ih, List.map_cons]

theorem eraseMembers_eq_map (members : List (String × Json)) : eraseMembers members =
    members.map fun p => (p.1, if p.1 = "value" then null else p.2.eraseValues) := by
  induction members with
  | nil => rfl
  | cons p members ih => rw [eraseMembers, ih, List.map_cons]

theorem get?_eraseMembers (members : List (String × Json)) (key : String) :
    Table.get? (eraseMembers members) key =
      (Table.get? members key).map fun v => if key = "value" then null else v.eraseValues := by
  rw [eraseMembers_eq_map]
  exact Table.get?_map (fun k v => if k = "value" then null else v.eraseValues) members key

theorem get?_eraseMembers_of_ne {key : String} (h : key ≠ "value")
    (members : List (String × Json)) :
    Table.get? (eraseMembers members) key = (Table.get? members key).map eraseValues := by
  simp [get?_eraseMembers, h]

@[simp] theorem str?_eraseValues (v : Json) : v.eraseValues.str? = v.str? := by
  cases v <;> rfl

end Json

namespace Actor

variable {a : Actor} {raw bound : Json}

theorem substituteText_eq_self {text : String} (h : (Json.str text).isConfined = true) :
    a.substituteText text = some (.str text) := by
  unfold substituteText
  split <;> simp_all [Json.isConfined]

mutual
theorem eraseValues_substitute : (raw : Json) → {bound : Json} → raw.isConfined = true →
    a.substitute raw = some bound → bound.eraseValues = raw.eraseValues
  | .str text, bound, hconfined, h => by
    rw [substitute, substituteText_eq_self hconfined] at h
    cases h
    rfl
  | .arr items, bound, hconfined, h => by
    obtain ⟨bounds, hbounds, rfl⟩ := Option.map_eq_some_iff.mp h
    rw [Json.eraseValues, Json.eraseValues, eraseItems_substitute items hconfined hbounds]
  | .obj members, bound, hconfined, h => by
    obtain ⟨bounds, hbounds, rfl⟩ := Option.map_eq_some_iff.mp h
    rw [Json.eraseValues, Json.eraseValues, eraseMembers_substitute members hconfined hbounds]
  | .null, bound, _, h => by cases h; rfl
  | .bool _, bound, _, h => by cases h; rfl
  | .num _, bound, _, h => by cases h; rfl

theorem eraseItems_substitute : (items : List Json) → {bounds : List Json} →
    Json.confinedItems items = true → a.substituteItems items = some bounds →
      Json.eraseItems bounds = Json.eraseItems items
  | [], bounds, _, h => by cases h; rfl
  | item :: items, bounds, hconfined, h => by
    obtain ⟨hitem, hitems⟩ := Bool.and_eq_true_iff.mp hconfined
    obtain ⟨first, hfirst, h⟩ := Option.bind_eq_some_iff.mp h
    obtain ⟨rest, hrest, h⟩ := Option.bind_eq_some_iff.mp h
    cases h
    rw [Json.eraseItems, Json.eraseItems, eraseValues_substitute item hitem hfirst,
      eraseItems_substitute items hitems hrest]

theorem eraseMembers_substitute : (members : List (String × Json)) →
    {bounds : List (String × Json)} → Json.confinedMembers members = true →
      a.substituteMembers members = some bounds →
        Json.eraseMembers bounds = Json.eraseMembers members
  | [], bounds, _, h => by cases h; rfl
  | (key, value) :: members, bounds, hconfined, h => by
    obtain ⟨hvalue, hmembers⟩ := Bool.and_eq_true_iff.mp hconfined
    obtain ⟨first, hfirst, h⟩ := Option.bind_eq_some_iff.mp h
    obtain ⟨rest, hrest, h⟩ := Option.bind_eq_some_iff.mp h
    cases h
    rw [Json.eraseMembers, Json.eraseMembers, eraseMembers_substitute members hmembers hrest]
    by_cases hkey : key = "value"
    · rw [if_pos hkey, if_pos hkey]
    · rw [if_neg hkey, if_neg hkey, eraseValues_substitute value (by simpa [hkey] using hvalue)
        hfirst]
end

end Actor

theorem Condition.ofRaw?_eraseMembers {members : List (String × Json)} {c : Condition}
    (h : ofRaw? members = some c) : ofRaw? (Json.eraseMembers members) = some c.blank := by
  obtain ⟨hfield, ⟨raw, hraw, hop⟩, -⟩ := ofRaw?_eq_some_iff.mp h
  refine ofRaw?_eq_some_iff.mpr ⟨?_, ⟨raw.eraseValues, ?_, ?_⟩, ?_⟩
  · have hstr : Json.str? ∘ Json.eraseValues = Json.str? := funext Json.str?_eraseValues
    rw [Json.get?_eraseMembers_of_ne (by decide), Option.bind_map, hstr]
    exact hfield
  · rw [Json.get?_eraseMembers_of_ne (by decide), Json.get?_eraseMembers_of_ne (by decide)]
    cases hkey : Table.get? members "op" <;> simp_all
  · rw [Json.str?_eraseValues]
    exact hop
  · rw [Json.get?_eraseMembers]
    cases Table.get? members "value" <;> rfl

namespace Filter

/-- A value that writes a filter writes its skeleton once it is erased, and likewise for a list. -/
theorem written?_eraseValues (raw : Json) :
    (∀ f, written? raw = some f → written? raw.eraseValues = some f.skeleton) ∧
      ∀ parts, writtenList? raw = some parts →
        writtenList? raw.eraseValues = some (parts.map skeleton) := by
  induction raw with
  | obj members ih =>
    refine ⟨fun f hf => ?_, fun parts hparts => by simp [writtenList?, Json.arr?] at hparts⟩
    have hcombine {key : String} {body : Json} (k : Connective)
        (hbody : Table.get? members key = some body)
        (hf : (writtenList? body).map k.combine = some f) :
        (writtenList? body.eraseValues).map k.combine = some f.skeleton := by
      obtain ⟨parts, hparts, rfl⟩ := Option.map_eq_some_iff.mp hf
      rw [(ih _ (Table.mem_of_get?_eq_some hbody)).2 parts hparts, skeleton,
        Connective.map_combine]
      rfl
    rw [written?_obj] at hf
    rw [Json.eraseValues, written?_obj, Json.get?_eraseMembers_of_ne (by decide),
      Json.get?_eraseMembers_of_ne (by decide), Json.get?_eraseMembers_of_ne (by decide)]
    -- No combinator stands under the erased key, so the same case is found as before.
    cases hand : Table.get? members "and" with
    | some body =>
      rw [hand] at hf
      exact hcombine .all hand hf
    | none =>
      cases hor : Table.get? members "or" with
      | some body =>
        rw [hand, hor] at hf
        exact hcombine .any hor hf
      | none =>
        rw [hand, hor] at hf
        cases hnot : Table.get? members "not" with
        | some body =>
          rw [hnot] at hf
          obtain ⟨part, hpart, rfl⟩ := Option.map_eq_some_iff.mp hf
          have hskeleton := (ih _ (Table.mem_of_get?_eq_some hnot)).1 part hpart
          simp [hskeleton, skeleton, map]
        | none =>
          rw [hnot] at hf
          obtain ⟨c, hc, rfl⟩ := Option.map_eq_some_iff.mp hf
          simp [Condition.ofRaw?_eraseMembers hc, skeleton, map]
  | arr items ih =>
    refine ⟨fun f hf => by simp [written?] at hf, fun parts hparts => ?_⟩
    rw [Json.eraseValues, Json.eraseItems_eq_map]
    exact mapM_map_of_mapM (fun item hitem => (ih item hitem).1) hparts
  | _ => simp [written?, writtenList?, Json.arr?]

theorem ofRaw?_eraseValues {raw : Json} {f : Filter} (h : ofRaw? raw = some f) :
    ofRaw? raw.eraseValues = some f.skeleton := by
  rw [ofRaw?_eq_map_canonicalize] at h ⊢
  obtain ⟨t, ht, rfl⟩ := Option.map_eq_some_iff.mp h
  rw [(written?_eraseValues raw).1 t ht, skeleton, skeleton, map_canonicalize]
  rfl

theorem isCanonical_of_ofRaw? {raw : Json} {f : Filter} (h : ofRaw? raw = some f) :
    f.isCanonical = true := by
  rw [ofRaw?_eq_map_canonicalize] at h
  obtain ⟨t, -, rfl⟩ := Option.map_eq_some_iff.mp h
  exact isCanonical_canonicalize t

end Filter

namespace Template

/-- The skeleton of a template's filter, found without any actor. -/
def skeleton? (t : Template) : Option Filter :=
  t.filter.bind fun raw => Filter.ofRaw? raw.eraseValues

variable {t : Template} {a b : Actor} {f g : Filter}

theorem skeleton?_of_restriction? (hconfined : ∀ raw ∈ t.filter, raw.isConfined = true)
    (h : t.restriction? a = some f) : t.skeleton? = some f.skeleton := by
  obtain ⟨raw, hraw, h⟩ := Option.bind_eq_some_iff.mp h
  obtain ⟨bound, hbound, h⟩ := Option.bind_eq_some_iff.mp h
  rw [skeleton?, hraw, Option.bind_some, ← Actor.eraseValues_substitute raw (hconfined raw hraw)
    hbound]
  exact Filter.ofRaw?_eraseValues h

theorem isCanonical_of_restriction? (h : t.restriction? a = some f) : f.isCanonical = true := by
  obtain ⟨raw, -, h⟩ := Option.bind_eq_some_iff.mp h
  obtain ⟨bound, -, h⟩ := Option.bind_eq_some_iff.mp h
  exact Filter.isCanonical_of_ofRaw? h

theorem outcome_cases (heffect : t.effect = .restrict) :
    t.outcome a = .deny ∨ ∃ f, t.outcome a = .restrict f ∧ t.restriction? a = some f := by
  unfold outcome
  split
  · exact .inl rfl
  · split
    · exact .inl rfl
    · rw [heffect]
      cases t.restriction? a with
      | none => exact .inl rfl
      | some f => exact .inr ⟨f, rfl, rfl⟩

theorem restriction?_of_outcome (heffect : t.effect = .restrict) (h : t.outcome a = .restrict f) :
    t.restriction? a = some f := by
  rcases outcome_cases heffect with hdeny | ⟨g, hg, hrestriction⟩
  · rw [h] at hdeny
    cases hdeny
  · rw [h] at hg
    cases hg
    exact hrestriction

/-- A template that names attributes in operands only gives every actor whom it does not deny a
filter of one and the same skeleton. So two such filters have the same fields and operators in the
same order, and both match everything or none does. -/
theorem outcome_of_confined (heffect : t.effect = .restrict)
    (hconfined : ∀ raw ∈ t.filter, raw.isConfined = true) :
    (∃ skeleton : Filter, ∀ a, t.outcome a = .deny ∨
        ∃ f, t.outcome a = .restrict f ∧ f.isCanonical = true ∧ f.skeleton = skeleton) ∧
      ∀ a b f g, t.outcome a = .restrict f → t.outcome b = .restrict g →
        f.skeleton = g.skeleton ∧ f.heads = g.heads ∧ (f = .matchAll ↔ g = .matchAll) := by
  have hskeleton (a : Actor) : t.outcome a = .deny ∨ ∃ f, t.outcome a = .restrict f ∧
      f.isCanonical = true ∧ f.skeleton = t.skeleton?.getD .matchAll := by
    rcases outcome_cases heffect with hdeny | ⟨f, hf, hrestriction⟩
    · exact .inl hdeny
    · refine .inr ⟨f, hf, isCanonical_of_restriction? hrestriction, ?_⟩
      rw [skeleton?_of_restriction? hconfined hrestriction, Option.getD_some]
  refine ⟨⟨_, hskeleton⟩, fun a b f g hf hg => ?_⟩
  have heq : f.skeleton = g.skeleton := by
    have hf := skeleton?_of_restriction? hconfined (restriction?_of_outcome heffect hf)
    have hg := skeleton?_of_restriction? hconfined (restriction?_of_outcome heffect hg)
    exact Option.some.inj (hf.symm.trans hg)
  exact ⟨heq, Filter.heads_eq_of_skeleton_eq heq, Filter.eq_matchAll_iff_of_skeleton_eq heq⟩

/-- Documents that the actor owns, or that carry one of the tags of the actor's claims. -/
def ownOrTagged : Template where
  name := "own or tagged"
  effect := .restrict
  filter := some (.obj [("or", .arr [
    .obj [("field", .str "owner"), ("op", .str "eq"), ("value", .str "$subject.user.id")],
    .obj [("field", .str "tag"), ("op", .str "in"), ("value", .str "$claim.tags")]])])

def holder (id : String) (tags : Json) : Actor where
  subjects := [("user", ⟨"user", "person", .text id⟩)]
  claims := [("tags", tags)]

/-- Tags that look like attributes or keys and no tags at all change operands only, and a filter in
place of the tags denies. -/
theorem ownOrTagged_outcome : ownOrTagged.effect = .restrict ∧
    (∀ raw ∈ ownOrTagged.filter, raw.isConfined = true) ∧
    ownOrTagged.outcome (holder "7" (.obj [("and", .arr [])])) = .deny ∧
    ∃ f g, ownOrTagged.outcome (holder "$session" (.arr [.str "$session", .str "and"])) =
        .restrict f ∧
      ownOrTagged.outcome (holder "8" (.arr [])) = .restrict g ∧ f ≠ g ∧
      f.skeleton = g.skeleton := by
  have hconfined : ∀ raw ∈ ownOrTagged.filter, raw.isConfined = true := by decide +kernel
  have hpair := (outcome_of_confined rfl hconfined).2
    (holder "$session" (.arr [.str "$session", .str "and"])) (holder "8" (.arr []))
  refine ⟨rfl, hconfined, rfl, _, _, rfl, rfl, by decide +kernel, ?_⟩
  exact (hpair _ _ rfl rfl).1

end Template

end RowPolicy
