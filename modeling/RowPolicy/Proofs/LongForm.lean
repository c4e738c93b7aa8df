import RowPolicy.Proofs.FilterGrammar
import RowPolicy.Proofs.QueryGrammar

/-!
The long form of a query. Relations may be included by their names, sort clauses may be texts, the
operator of a condition may stand under its long key, and queries and values may be left out. All
of this is written out at every depth. Main statement: a query and its long form are read alike.
-/
namespace RowPolicy

def Table.withDefault {α : Type} (key : String) (value : α) (t : Table α) : Table α :=
  if Table.has t key then t else Table.insert key value t

namespace Json

/-- Members with `op` for `operator`, unless there is an `op`. -/
def renameOperator (members : List (String × Json)) : List (String × Json) :=
  if Table.has members "op" then members
  else members.map fun p => (if p.1 = "operator" then "op" else p.1, p.2)

def longCondition (members : List (String × Json)) : List (String × Json) :=
  Table.withDefault "value" null (renameOperator members)

def hasCombinator (members : List (String × Json)) : Bool :=
  Filter.combinators.any (Table.has members)

mutual
/-- A filter with all its conditions in their long form, and likewise a list of filters. -/
def longFilter : Json → Json
  | obj members =>
    obj (if hasCombinator members then longParts members else longCondition members)
  | arr items => arr (longFilters items)
  | raw => raw

def longFilters : List Json → List Json
  | [] => []
  | item :: items => item.longFilter :: longFilters items

def longParts : List (String × Json) → List (String × Json)
  | [] => []
  | (key, value) :: members =>
    (key, if key ∈ Filter.combinators then value.longFilter else value) :: longParts members
end

/-- A sort clause as an object; a text is cut at its first dot. -/
def longSortClause : Json → Json
  | str text =>
    match cutAtDot text with
    | (name, none) => obj [("field", str name)]
    | (name, some direction) => obj [("direction", str direction), ("field", str name)]
  | raw => raw

def longSort : Json → Json
  | arr items => arr (items.map longSortClause)
  | raw => raw

mutual
def longQuery : Json → Json
  | obj members => obj (longQueryMembers members)
  | raw => raw

def longQueryMembers : List (String × Json) → List (String × Json)
  | [] => []
  | (key, value) :: members =>
    (key, if key = "filters" then value.longFilter
      else if key = "include" then value.longInclude
      else if key = "sort" then value.longSort
      else value) :: longQueryMembers members

/-- An include as an object with a query that is an object, and likewise a list of includes. -/
def longInclude : Json → Json
  | str name => obj [("query", obj []), ("relation", str name)]
  | obj members => obj (Table.withDefault "query" (obj []) (longIncludeMembers members))
  | arr items => arr (longIncludes items)
  | raw => raw

def longIncludes : List Json → List Json
  | [] => []
  | item :: items => item.longInclude :: longIncludes items

def longIncludeMembers : List (String × Json) → List (String × Json)
  | [] => []
  | (key, value) :: members =>
    (key, if key = "query" then (if value.isNull then obj [] else value.longQuery)
      else value) :: longIncludeMembers members
end

end Json

/-- Two readings give back the same, if anything. Their faults may differ: what is refused in a
shorthand is refused at another place in its long form. -/
def Alike {α : Type} (r r' : Reading α) : Prop := ∀ a, r = .ok a ↔ r' = .ok a

section Steps

variable {α β : Type} {r r' : Reading α}

theorem Alike.refl (r : Reading α) : Alike r r := fun _ => Iff.rfl

theorem alike_fault (d d' : Defect) : Alike (fault d : Reading α) (fault d') :=
  fun _ => iff_of_false (fault_ne_ok _ _) (fault_ne_ok _ _)

theorem alike_under (r : Reading α) (step : Step) : Alike r (under step r) :=
  fun _ => under_eq_ok_iff.symm

theorem Alike.under (h : Alike r r') (step step' : Step) :
    Alike (under step r) (under step' r') :=
  fun a => under_eq_ok_iff.trans ((h a).trans under_eq_ok_iff.symm)

theorem Alike.map (h : Alike r r') (f : α → β) : Alike (f <$> r) (f <$> r') := by
  intro b
  rw [Result.map_eq_ok_iff, Result.map_eq_ok_iff]
  exact exists_congr fun a => and_congr_left fun _ => h a

theorem Alike.bind {f f' : α → Reading β} (h : Alike r r') (hf : ∀ a, Alike (f a) (f' a)) :
    Alike (r >>= f) (r' >>= f') := by
  intro b
  rw [Result.bind_eq_ok_iff, Result.bind_eq_ok_iff]
  exact exists_congr fun a => and_congr (h a) (hf a b)

theorem alike_expectKeys {expected : List String} {members members' : List (String × Json)}
    (h : (∀ p ∈ members, p.1 ∈ expected) ↔ ∀ p ∈ members', p.1 ∈ expected) :
    Alike (expectKeys expected members) (expectKeys expected members') := by
  intro a
  rw [expectKeys_eq_ok_iff, expectKeys_eq_ok_iff, h]

theorem alike_readItems {read : Json → Reading α} {f : Json → Json}
    (h : ∀ item, Alike (read item) (read (f item))) (i : Nat) (items : List Json) :
    Alike (readItems read i items) (readItems read i (items.map f)) := by
  induction items generalizing i with
  | nil => exact .refl _
  | cons item items ih =>
    exact ((h item).under _ _).bind fun a => (ih (i + 1)).bind fun as => .refl _

theorem alike_readOptional {key : String} {members members' : List (String × Json)} (missing : α)
    {read : Json → Reading α} {f : Json → Json}
    (hmembers : Table.get? members' key = (Table.get? members key).map f)
    (h : ∀ raw, Alike (read raw) (read (f raw))) :
    Alike (readOptional key members missing read) (readOptional key members' missing read) := by
  rw [readOptional, readOptional, hmembers]
  cases Table.get? members key with
  | none => exact .refl _
  | some raw => exact (h raw).under _ _

end Steps

namespace Table

variable {α : Type} {key : String} {value : α} {t : Table α}

theorem get?_withDefault (k : String) : get? (withDefault key value t) k =
    if key = k then some ((get? t k).getD value) else get? t k := by
  unfold withDefault
  by_cases h : has t key = true
  · obtain ⟨v, hv⟩ := Option.isSome_iff_exists.mp h
    by_cases hk : key = k
    · subst hk
      simp [h, hv]
    · simp [h, hk]
  · have hnone : get? t key = none := by simpa [has] using h
    rw [if_neg h, get?_insert]
    by_cases hk : key = k
    · subst hk
      simp [hnone]
    · simp [hk]

theorem mem_insert_keys {k : String} : k ∈ keys (insert key value t) ↔ k = key ∨ k ∈ keys t := by
  have hget := get?_insert key value t k
  rw [← not_iff_not, ← get?_eq_none_iff, hget]
  by_cases hk : key = k
  · simp [hk]
  · simp [hk, Ne.symm hk, get?_eq_none_iff]

theorem forall_withDefault {expected : List String} (h : key ∈ expected) :
    (∀ p ∈ withDefault key value t, p.1 ∈ expected) ↔ ∀ p ∈ t, p.1 ∈ expected := by
  unfold withDefault
  split
  · rfl
  · have hkeys (u : Table α) : (∀ p ∈ u, p.1 ∈ expected) ↔ ∀ k ∈ keys u, k ∈ expected :=
      List.forall_mem_map.symm
    rw [hkeys, hkeys]
    simp only [mem_insert_keys, forall_eq_or_imp, h, true_and]

end Table

section Conditions

variable {m : Model} {members : List (String × Json)}

theorem get?_renameOperator_of_ne {key : String} (hop : key ≠ "op") (hoperator : key ≠ "operator") :
    Table.get? (Json.renameOperator members) key = Table.get? members key := by
  unfold Json.renameOperator
  split
  · rfl
  · clear * - hop hoperator
    induction members with
    | nil => rfl
    | cons p members ih =>
      rw [List.map_cons, Table.get?_cons, ih]
      by_cases hkey : p.1 = "operator"
      · have hne : p.1 ≠ key := fun h => hoperator (h.symm.trans hkey)
        rw [if_pos hkey, if_neg hop.symm, Table.get?_cons, if_neg hne]
      · rw [if_neg hkey]
        rfl

theorem get?_renameOperator (h : Table.get? members "op" = none) :
    Table.get? (Json.renameOperator members) "op" = Table.get? members "operator" ∧
      Table.get? (Json.renameOperator members) "operator" = none := by
  have hhas : Table.has members "op" = false := by simp [Table.has, h]
  rw [Json.renameOperator, hhas, if_neg Bool.false_ne_true]
  clear hhas
  induction members with
  | nil => exact ⟨rfl, rfl⟩
  | cons p members ih =>
    obtain ⟨key, value⟩ := p
    rw [Table.get?_cons] at h
    by_cases hop : key = "op"
    · simp [hop] at h
    · rw [if_neg hop] at h
      obtain ⟨hfound, hnone⟩ := ih h
      by_cases hkey : key = "operator" <;> simp_all

theorem forall_renameOperator {expected : List String} (hop : "op" ∈ expected)
    (hoperator : "operator" ∈ expected) :
    (∀ p ∈ Json.renameOperator members, p.1 ∈ expected) ↔ ∀ p ∈ members, p.1 ∈ expected := by
  unfold Json.renameOperator
  split
  · rfl
  · rw [List.forall_mem_map]
    refine forall₂_congr fun p _ => ?_
    by_cases hkey : p.1 = "operator"
    · simp only [hkey, if_true, hop, hoperator]
    · rw [if_neg hkey]

theorem alike_readOperator {f : Field} :
    Alike (readOperator f members) (readOperator f (Json.longCondition members)) := by
  unfold readOperator
  simp only [Json.longCondition, Table.get?_withDefault, reduceIte, String.reduceEq]
  cases hop : Table.get? members "op" with
  | some raw =>
    have hhas : Table.has members "op" = true := by simp [Table.has, hop]
    rw [Json.renameOperator, if_pos hhas, hop]
    exact .refl _
  | none =>
    obtain ⟨hfound, hnone⟩ := get?_renameOperator hop
    rw [hfound, hnone]
    cases Table.get? members "operator" with
    | none => exact .refl _
    | some raw => exact (Alike.refl _).under _ _

/-- The one key that changes is that of the operator, and the value that is put in is null. -/
theorem alike_readCondition :
    Alike (readCondition m members) (readCondition m (Json.longCondition members)) := by
  have hkeys : (∀ p ∈ members, p.1 ∈ ["field", "op", "operator", "value"]) ↔
      ∀ p ∈ Json.longCondition members, p.1 ∈ ["field", "op", "operator", "value"] := by
    rw [Json.longCondition, Table.forall_withDefault (by decide),
      forall_renameOperator (by decide) (by decide)]
  have hfield : Table.get? (Json.longCondition members) "field" = Table.get? members "field" := by
    rw [Json.longCondition, Table.get?_withDefault, if_neg (by decide),
      get?_renameOperator_of_ne (by decide) (by decide)]
  have hvalue : (Table.get? (Json.longCondition members) "value").getD .null =
      (Table.get? members "value").getD .null := by
    rw [Json.longCondition, Table.get?_withDefault, if_pos rfl,
      get?_renameOperator_of_ne (by decide) (by decide)]
    rfl
  unfold readCondition
  refine (alike_expectKeys hkeys).bind fun _ => ?_
  rw [readField, readField, hfield, hvalue]
  exact (Alike.refl _).bind fun f => alike_readOperator.bind fun op => .refl _

end Conditions

section Filters

variable {members : List (String × Json)}

namespace Json

theorem longFilters_eq_map (items : List Json) : longFilters items = items.map longFilter := by
  induction items with
  | nil => rfl
  | cons item items ih => rw [longFilters, ih, List.map_cons]

theorem longParts_eq_map (members : List (String × Json)) : longParts members =
    members.map fun p => (p.1, if p.1 ∈ Filter.combinators then p.2.longFilter else p.2) := by
  induction members with
  | nil => rfl
  | cons p members ih => rw [longParts, ih, List.map_cons]

theorem get?_longParts (members : List (String × Json)) {key : String}
    (h : key ∈ Filter.combinators) :
    Table.get? (longParts members) key = (Table.get? members key).map longFilter := by
  rw [longParts_eq_map]
  have hmap := Table.get?_map (fun k v => if k ∈ Filter.combinators then v.longFilter else v)
    members key
  simpa only [h, if_true] using hmap

theorem length_longParts (members : List (String × Json)) :
    (longParts members).length = members.length := by
  rw [longParts_eq_map, List.length_map]

theorem get?_eq_none_of_hasCombinator (hmembers : ¬hasCombinator members = true) {key : String}
    (h : key ∈ Filter.combinators) : Table.get? members key = none := by
  have hhas := List.any_eq_false.mp (Bool.eq_false_iff.mpr hmembers) key h
  simpa [Table.has] using hhas

theorem get?_longCondition {key : String} (h : key ∈ Filter.combinators) :
    Table.get? (longCondition members) key = Table.get? members key := by
  have hkey : key ≠ "value" ∧ key ≠ "op" ∧ key ≠ "operator" := by
    revert key
    decide
  rw [longCondition, Table.get?_withDefault, if_neg hkey.1.symm,
    get?_renameOperator_of_ne hkey.2.1 hkey.2.2]

end Json

theorem alike_readParts {α : Type} {read : Json → Reading α}
    (h : ∀ item, Alike (read item) (read item.longFilter)) (body : Json) :
    Alike (readParts read body) (readParts read body.longFilter) := by
  cases body with
  | arr items =>
    rw [Json.longFilter, Json.longFilters_eq_map]
    exact alike_readItems h 0 items
  | _ => exact alike_fault _ _

theorem alike_readAlone {α : Type} {combinator : String} {members' : List (String × Json)}
    {body body' : Reading α} (hlength : members'.length = members.length) (h : Alike body body') :
    Alike (readAlone combinator members body) (readAlone combinator members' body') := by
  unfold readAlone
  rw [hlength]
  split
  · exact h.under _ _
  · exact .refl _

/-- Filters are read like their long forms, however deep they may nest: combinations stay
combinations and conditions stay conditions. -/
theorem alike_readFilter (m : Model) (limit depth : Nat) (raw : Json) :
    Alike (readFilter m limit depth raw) (readFilter m limit depth raw.longFilter) := by
  induction depth generalizing raw with
  | zero => exact alike_fault _ _
  | succ depth ih =>
    cases raw with
    | obj members =>
      rw [Json.longFilter]
      by_cases hcombinator : Json.hasCombinator members = true
      · rw [if_pos hcombinator]
        have hget (key : String) (h : key ∈ Filter.combinators) := Json.get?_longParts members h
        have hlength := Json.length_longParts members
        simp only [readFilter, hget "and" (by decide), hget "or" (by decide),
          hget "not" (by decide)]
        cases hand : Table.get? members "and" with
        | some body => exact (alike_readAlone hlength (alike_readParts ih body)).map _
        | none =>
          cases hor : Table.get? members "or" with
          | some body => exact (alike_readAlone hlength (alike_readParts ih body)).map _
          | none =>
            cases hnot : Table.get? members "not" with
            | some body => exact (alike_readAlone hlength (ih body)).map _
            | none =>
              -- Something stands under one of the three keys.
              simp [Json.hasCombinator, Filter.combinators, Table.has, hand, hor, hnot]
                at hcombinator
      · rw [if_neg hcombinator]
        have hnone (key : String) (h : key ∈ Filter.combinators) :=
          Json.get?_eq_none_of_hasCombinator hcombinator h
        have hlong (key : String) (h : key ∈ Filter.combinators) :=
          (Json.get?_longCondition h).trans (hnone key h)
        simp only [readFilter, hnone "and" (by decide), hnone "or" (by decide),
          hnone "not" (by decide), hlong "and" (by decide), hlong "or" (by decide),
          hlong "not" (by decide)]
        exact alike_readCondition.map _
    | _ => exact alike_fault _ _

end Filters

section Sorting

variable {m : Model}

theorem alike_readSortClause (raw : Json) :
    Alike (readSortClause m raw) (readSortClause m raw.longSortClause) := by
  cases raw with
  | str text =>
    rcases cutAtDot_cases text with hdot | ⟨name, written, hdot, rfl⟩
    · have hasc : readDirection "asc" = .ok .asc := readDirection_name .asc
      have hshort : readSortClause m (.str text) =
          (do readSortable m text; return ⟨text, .asc⟩) := by
        simp only [readSortClause, cutAtDot_of_not_mem hdot, Option.getD_none, hasc, Result.ok_bind]
      have hlong : readSortClause m (.obj [("field", .str text)]) =
          (do under (.key "field") (readSortable m text); return ⟨text, .asc⟩) := rfl
      rw [Json.longSortClause, cutAtDot_of_not_mem hdot, hshort, hlong]
      exact (alike_under _ _).bind fun _ => .refl _
    · have hshort : readSortClause m (.str (name ++ "." ++ written)) = (do
          let direction ← readDirection written
          readSortable m name
          return ⟨name, direction⟩) := by
        simp only [readSortClause, cutAtDot_append hdot, Option.getD_some]
      have hlong : readSortClause m (.obj [("direction", .str written), ("field", .str name)]) = (do
          let direction ← under (.key "direction") (readDirection written)
          under (.key "field") (readSortable m name)
          return ⟨name, direction⟩) := rfl
      rw [Json.longSortClause, cutAtDot_append hdot, hshort, hlong]
      exact (alike_under _ _).bind fun _ => (alike_under _ _).bind fun _ => .refl _
  | _ => exact .refl _

theorem alike_readSort (m : Model) (raw : Json) :
    Alike (readSort m raw) (readSort m raw.longSort) := by
  cases raw with
  | arr items => exact alike_readItems alike_readSortClause 0 items
  | _ => exact .refl _

end Sorting

section Includes

namespace Json

theorem longIncludes_eq_map (items : List Json) : longIncludes items = items.map longInclude := by
  induction items with
  | nil => rfl
  | cons item items ih => rw [longIncludes, ih, List.map_cons]

def longSubquery (raw : Json) : Json := if raw.isNull then obj [] else raw.longQuery

theorem longIncludeMembers_eq_map (members : List (String × Json)) : longIncludeMembers members =
    members.map fun p => (p.1, if p.1 = "query" then p.2.longSubquery else p.2) := by
  induction members with
  | nil => rfl
  | cons p members ih =>
    rw [longIncludeMembers, ih, List.map_cons]
    rfl

theorem get?_longIncludeMembers (members : List (String × Json)) (key : String) :
    Table.get? (longIncludeMembers members) key =
      (Table.get? members key).map fun v => if key = "query" then v.longSubquery else v := by
  rw [longIncludeMembers_eq_map]
  exact Table.get?_map (fun k v => if k = "query" then v.longSubquery else v) members key

theorem longQueryMembers_eq_map (members : List (String × Json)) : longQueryMembers members =
    members.map fun p => (p.1, if p.1 = "filters" then p.2.longFilter
      else if p.1 = "include" then p.2.longInclude
      else if p.1 = "sort" then p.2.longSort else p.2) := by
  induction members with
  | nil => rfl
  | cons p members ih => rw [longQueryMembers, ih, List.map_cons]

theorem get?_longQueryMembers (members : List (String × Json)) (key : String) :
    Table.get? (longQueryMembers members) key =
      (Table.get? members key).map fun v => if key = "filters" then v.longFilter
        else if key = "include" then v.longInclude
        else if key = "sort" then v.longSort else v := by
  rw [longQueryMembers_eq_map]
  exact Table.get?_map (fun k v => if k = "filters" then v.longFilter
    else if k = "include" then v.longInclude else if k = "sort" then v.longSort else v) members key

end Json

variable {m : Model} {read : String → Json → Reading Query} {seen : List String}
  {item : List String → Json → Reading (Include Query)}

theorem alike_readInclude
    (h : ∀ target raw, Alike (read target raw) (read target raw.longSubquery)) (raw : Json) :
    Alike (readInclude read m seen raw) (readInclude read m seen raw.longInclude) := by
  cases raw with
  | str name =>
    have hlong : readInclude read m seen (.obj [("query", .obj []), ("relation", .str name)]) = (do
        let r ← under (.key "relation") (readRelation m seen name)
        return ⟨r, ← under (.key "query") (read r.target (.obj []))⟩) := rfl
    rw [Json.longInclude, hlong, readInclude]
    refine (alike_under _ _).bind fun r => ?_
    exact ((h r.target .null).under _ _).bind fun q => .refl _
  | obj members =>
    have hkeys : (∀ p ∈ members, p.1 ∈ ["relation", "query"]) ↔
        ∀ p ∈ Table.withDefault "query" (.obj []) (Json.longIncludeMembers members),
          p.1 ∈ ["relation", "query"] := by
      rw [Table.forall_withDefault (by decide), Json.longIncludeMembers_eq_map, List.forall_mem_map]
    have hrelation : Table.get? (Table.withDefault "query" (.obj [])
        (Json.longIncludeMembers members)) "relation" = Table.get? members "relation" := by
      rw [Table.get?_withDefault, if_neg (by decide), Json.get?_longIncludeMembers]
      simp
    have hquery : (Table.get? (Table.withDefault "query" (.obj [])
        (Json.longIncludeMembers members)) "query").getD .null =
          ((Table.get? members "query").getD .null).longSubquery := by
      rw [Table.get?_withDefault, if_pos rfl, Json.get?_longIncludeMembers]
      cases Table.get? members "query" <;> rfl
    simp only [Json.longInclude, readInclude]
    refine (alike_expectKeys hkeys).bind fun _ => ?_
    rw [hrelation, hquery]
    refine (Alike.refl _).bind fun r => ?_
    exact ((h r.target _).under _ _).bind fun q => .refl _
  | arr items => exact alike_fault _ _
  | _ => exact .refl _

theorem alike_readIncludes
    (h : ∀ seen raw, Alike (item seen raw) (item seen raw.longInclude)) (i : Nat)
    (items : List Json) :
    Alike (readIncludes item seen i items)
      (readIncludes item seen i (items.map Json.longInclude)) := by
  induction items generalizing seen i with
  | nil => exact .refl _
  | cons raw items ih =>
    exact ((h seen raw).under _ _).bind fun one => (ih (i + 1)).bind fun rest => .refl _

theorem alike_readIncludeList
    (h : ∀ seen raw, Alike (item seen raw) (item seen raw.longInclude)) (raw : Json) :
    Alike (readIncludeList item raw) (readIncludeList item raw.longInclude) := by
  cases raw with
  | arr items =>
    rw [Json.longInclude, Json.longIncludes_eq_map]
    exact alike_readIncludes h 0 items
  | _ => exact alike_fault _ _

end Includes

namespace Schema

variable {s : Schema} {limits : QueryLimits}
  {item : Model → List String → Json → Reading (Include Query)}

theorem alike_readQueryWith
    (h : ∀ m seen raw, Alike (item m seen raw) (item m seen raw.longInclude)) (model : String)
    (raw : Json) :
    Alike (readQueryWith s limits item model raw)
      (readQueryWith s limits item model raw.longQuery) := by
  unfold readQueryWith
  refine (Alike.refl _).bind fun m => ?_
  cases raw with
  | obj members =>
    have hkeys : (∀ p ∈ members, p.1 ∈ ["filters", "include", "sort", "pagination"]) ↔
        ∀ p ∈ Json.longQueryMembers members,
          p.1 ∈ ["filters", "include", "sort", "pagination"] := by
      rw [Json.longQueryMembers_eq_map, List.forall_mem_map]
    have hget := Json.get?_longQueryMembers members
    have hfilters := alike_readOptional .matchAll (hget "filters")
      (alike_readFilter m limits.filterDepth.toNat limits.filterDepth.toNat)
    have hincludes := alike_readOptional [] (hget "include") (alike_readIncludeList (h m))
    have hsort := alike_readOptional [] (hget "sort") (alike_readSort m)
    have hpage := alike_readOptional {} (hget "pagination")
      fun raw => .refl (readPage limits.pageSize raw)
    rw [Json.longQuery]
    exact (alike_expectKeys hkeys).bind fun _ => hfilters.bind fun _ => hincludes.bind fun _ =>
      hsort.bind fun _ => hpage.bind fun _ => .refl _
  | _ => exact .refl _

/-- No query is as good as one that asks for nothing in particular. -/
theorem alike_readQueryWith_null (model : String) :
    Alike (readQueryWith s limits item model .null)
      (readQueryWith s limits item model (.obj [])) := by
  unfold readQueryWith
  exact (Alike.refl _).bind fun m => .refl _

theorem alike_readQuery (s : Schema) (limits : QueryLimits) (depth : Nat) (model : String)
    (raw : Json) :
    Alike (readQuery s limits depth model raw) (readQuery s limits depth model raw.longQuery) := by
  induction depth generalizing model raw with
  | zero =>
    rw [readQuery]
    exact alike_readQueryWith (fun m seen raw => alike_fault _ _) model raw
  | succ depth ih =>
    -- Null stays null at the top, but within an include it becomes an object.
    have hnull (model : String) : Alike (readQuery s limits depth model .null)
        (readQuery s limits depth model (.obj [])) := by
      cases depth with
      | zero => exact alike_readQueryWith_null model
      | succ depth => exact alike_readQueryWith_null model
    have hsubquery (model : String) (raw : Json) : Alike (readQuery s limits depth model raw)
        (readQuery s limits depth model raw.longSubquery) := by
      cases raw with
      | null => exact hnull model
      | _ => exact ih model _
    have hitem (m : Model) (seen : List String) (raw : Json) :
        Alike (readInclude (readQuery s limits depth) m seen raw)
          (readInclude (readQuery s limits depth) m seen raw.longInclude) :=
      alike_readInclude hsubquery raw
    rw [readQuery]
    exact alike_readQueryWith hitem model raw

/-- A query is accepted if and only if its long form is, and then both are the same query. -/
theorem parse_longQuery (s : Schema) (limits : QueryLimits) (model : String) (raw : Json)
    (q : Query) :
    s.parse limits model raw = .ok q ↔ s.parse limits model raw.longQuery = .ok q := by
  have halike := alike_readQuery s limits limits.includeDepth.toNat model raw
  rw [parse, parse, Result.mapError_eq_ok_iff, Result.mapError_eq_ok_iff]
  exact halike q

/-- Customers of other names by name, with the tags of their orders that have no total. -/
def terseCustomers : Json :=
  .obj [("filters", .obj [("not", .obj [("field", .str "name"), ("operator", .str "eq"),
      ("value", .str "Ann")])]),
    ("include", .arr [.obj [("query", .obj [
        ("filters", .obj [("and", .arr [.obj [("field", .str "total"), ("operator", .str "is")]])]),
        ("include", .arr [.str "tags"]), ("sort", .arr [.str "total.DESC"])]),
      ("relation", .str "orders")]]),
    ("sort", .arr [.str "name"])]

def lengthyCustomers : Json :=
  .obj [("filters", .obj [("not", .obj [("field", .str "name"), ("op", .str "eq"),
      ("value", .str "Ann")])]),
    ("include", .arr [.obj [("query", .obj [
        ("filters", .obj [("and", .arr [.obj [("field", .str "total"), ("op", .str "is"),
          ("value", .null)]])]),
        ("include", .arr [.obj [("query", .obj []), ("relation", .str "tags")]]),
        ("sort", .arr [.obj [("direction", .str "DESC"), ("field", .str "total")]])]),
      ("relation", .str "orders")]]),
    ("sort", .arr [.obj [("field", .str "name")]])]

/-- All shorthands at once, on three models. -/
theorem terseCustomers_parse : terseCustomers.longQuery = lengthyCustomers ∧
    ∃ q, shop.parse {} "customer" terseCustomers = .ok q ∧
      shop.parse {} "customer" lengthyCustomers = .ok q := by
  have hlong : terseCustomers.longQuery = lengthyCustomers := rfl
  have hok : (shop.parse {} "customer" terseCustomers).isOk = true := by decide +kernel
  obtain ⟨q, hq⟩ : ∃ q, shop.parse {} "customer" terseCustomers = .ok q := by
    cases hparse : shop.parse {} "customer" terseCustomers with
    | ok q => exact ⟨q, rfl⟩
    | error error => simp [hparse, Except.isOk, Except.toBool] at hok
  have hlengthy := (parse_longQuery shop {} "customer" terseCustomers q).mp hq
  rw [hlong] at hlengthy
  exact ⟨hlong, q, hq, hlengthy⟩

end Schema

end RowPolicy
