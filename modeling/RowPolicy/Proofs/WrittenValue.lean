import RowPolicy.Proofs.RoundTrip
import RowPolicy.Proofs.Valuation

/-!
What filters are worth as they are written. A value that writes a combination is worth what the
combination makes of all its parts, and any other object what the condition is worth that a model
reads from it; nothing is dropped or moved on the way. Main statement: the filter that is read
from a value is worth as much as the value, whatever its conditions are worth.
-/
namespace RowPolicy

namespace Truth

def all (ts : List Truth) : Truth := ts.foldr and yes

def any (ts : List Truth) : Truth := ts.foldr or no

end Truth

namespace Json

mutual
/-- What a filter is worth as it is written, when `v` says what the conditions are worth that the
model reads; nothing if there is something else than a filter. -/
def truth? (m : Model) (v : Condition → Truth) : Json → Option Truth
  | obj [("and", arr items)] => (truths? m v items).map Truth.all
  | obj [("or", arr items)] => (truths? m v items).map Truth.any
  | obj [("not", part)] => (truth? m v part).map Truth.not
  | obj members => (readCondition m members).toOption.map v
  | _ => none

def truths? (m : Model) (v : Condition → Truth) : List Json → Option (List Truth)
  | [] => some []
  | item :: items => do return (← truth? m v item) :: (← truths? m v items)
end

end Json

variable {m : Model} {v : Condition → Truth}

namespace Filter

theorem evalAll_eq (v : Condition → Truth) (parts : List Filter) :
    evalAll v parts = Truth.all (parts.map (eval v)) := by
  induction parts with
  | nil => rfl
  | cons part parts ih => simp [evalAll, Truth.all, ih]

theorem evalAny_eq (v : Condition → Truth) (parts : List Filter) :
    evalAny v parts = Truth.any (parts.map (eval v)) := by
  induction parts with
  | nil => rfl
  | cons part parts ih => simp [evalAny, Truth.any, ih]

namespace Connective

def truth : Connective → List Truth → Truth
  | all => Truth.all
  | any => Truth.any

theorem eval_merge (k : Connective) (parts : List Filter) :
    (k.merge parts).eval v = k.truth (parts.map (eval v)) := by
  cases k with
  | all => rw [← conj_eq_merge, eval_conj, evalAll_eq, truth]
  | any => rw [← disj_eq_merge, eval_disj, evalAny_eq, truth]

end Connective
end Filter

namespace Json

theorem truths?_eq_mapM (items : List Json) : truths? m v items = items.mapM (truth? m v) := by
  induction items with
  | nil => rfl
  | cons item items ih => rw [truths?, ih, List.mapM_cons]

theorem truth?_combination (k : Filter.Connective) (items : List Json) :
    truth? m v (obj [(k.key, arr items)]) = (items.mapM (truth? m v)).map k.truth := by
  cases k <;> simp [truth?, truths?_eq_mapM, Filter.Connective.key, Filter.Connective.truth]

theorem truth?_negation (part : Json) :
    truth? m v (obj [("not", part)]) = (truth? m v part).map Truth.not := by
  simp [truth?]

theorem truth?_condition {members : List (String × Json)} {c : Condition}
    (h : readCondition m members = .ok c) : truth? m v (obj members) = some (v c) := by
  have hkeys : expectKeys ["field", "op", "operator", "value"] members = .ok () := by
    obtain ⟨_, hkeys, -⟩ := Result.bind_eq_ok_iff.mp h
    exact hkeys
  have hne (key : String) (body : Json) (hkey : key ∉ ["field", "op", "operator", "value"]) :
      members ≠ [(key, body)] := by
    rintro rfl
    exact hkey (expectKeys_eq_ok_iff.mp hkeys _ (List.mem_singleton_self _))
  rw [truth?, h]
  · rfl
  · exact fun items => hne "and" _ (by decide)
  · exact fun items => hne "or" _ (by decide)
  · exact fun part => hne "not" _ (by decide)

end Json

/-- What is read is worth as much as what is written. The induction is on the depth of reading, so
each part was read one level down. -/
theorem truth?_of_readFilter {limit depth : Nat} {raw : Json} {f : Filter}
    (h : readFilter m limit depth raw = .ok f) : raw.truth? m v = some (f.eval v) := by
  induction depth generalizing raw f with
  | zero => cases h
  | succ depth ih =>
    rcases readFilter_cases h with ⟨k, items, parts, rfl, hparts, rfl⟩ |
      ⟨body, part, rfl, hpart, rfl⟩ | ⟨members, c, rfl, hc, rfl⟩
    · have hitems : items.mapM (Json.truth? m v) = some (parts.map (Filter.eval v)) :=
        mapM_of_readItems (fun item part hpart => ih hpart) hparts
      rw [Json.truth?_combination, hitems, Option.map_some, Filter.Connective.eval_merge]
    · rw [Json.truth?_negation, ih hpart, Option.map_some, Filter.eval_negate]
    · exact Json.truth?_condition hc

namespace Schema

/-- A filter that is read over a model is worth as much as the value it was read from, also where
conditions are neither true nor false. -/
theorem truth?_of_parseFilter {s : Schema} {limits : QueryLimits} {model root : String} {raw : Json}
    {f : Filter} (h : s.parseFilter limits model raw root = .ok f) :
    ∃ m, s.model? model = some m ∧ ∀ v, raw.truth? m v = some (f.eval v) := by
  rw [parseFilter, Result.mapError_eq_ok_iff, Schema.readFilter] at h
  obtain ⟨m, hm, hread⟩ := Result.bind_eq_ok_iff.mp h
  exact ⟨m, readModel_eq_ok_iff.mp hm, fun v => truth?_of_readFilter hread⟩

def dear : Json := .obj [("field", .str "total"), ("op", .str "gt"), ("value", .num (.ofUInt64 99))]

/-- Orders that are dear or not, under two negations, without a price, and beside an empty
conjunction. -/
def dearOrNot : Json := .obj [("and", .arr [.obj [("and", .arr [])],
  .obj [("not", .obj [("not", .obj [("or", .arr [dear, .obj [("not", dear)]])])])],
  .obj [("or", .arr [.obj [("field", .str "total"), ("op", .str "is")]])]])]

def dearOrNotFilter : Filter :=
  .all [.any [.leaf ⟨"total", .gt, .single (.float (.ofNat 99))⟩,
    .not (.leaf ⟨"total", .gt, .single (.float (.ofNat 99))⟩)], .leaf ⟨"total", .is, .null⟩]

/-- Without a price an order is neither dear nor not, and this stays open. -/
theorem shop_truth?_dearOrNot :
    shop.parseFilter {} "order" dearOrNot "filters" = .ok dearOrNotFilter ∧
    ∃ m, shop.model? "order" = some m ∧
      (∀ v, dearOrNot.truth? m v = some (dearOrNotFilter.eval v)) ∧
      dearOrNot.truth? m (fun c => if c.operator = .is then .yes else .unknown) =
        some .unknown := by
  have hread : shop.parseFilter {} "order" dearOrNot "filters" = .ok dearOrNotFilter := rfl
  obtain ⟨m, hm, htruth⟩ := truth?_of_parseFilter hread
  exact ⟨hread, m, hm, htruth, htruth _⟩

end Schema
end RowPolicy
