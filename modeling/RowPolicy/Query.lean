import RowPolicy.Filter
import RowPolicy.Schema

/-!
Validated queries: a filter over one model, the relations to include, each with a query over its
target, sort clauses and a page window. `toRaw` writes a query the way a caller would, leaving out
whatever is not set.
-/
namespace RowPolicy

inductive Direction where
  | asc | desc
deriving DecidableEq

def Direction.name : Direction → String
  | asc => "asc"
  | desc => "desc"

structure SortClause where
  field : String
  direction : Direction
deriving DecidableEq

structure Page where
  limit : Option UInt64 := none
  offset : Option UInt64 := none
  cursor : Option String := none
deriving DecidableEq

def Page.isEmpty (p : Page) : Bool := p.limit.isNone && p.offset.isNone && p.cursor.isNone

/-- A relation that a query follows, with the query over its target. -/
structure Include (Q : Type) where
  relation : Relation
  query : Q

structure Query where
  model : String
  filter : Filter
  includes : List (Include Query)
  sort : List SortClause
  page : Page

namespace Query

mutual
def decEq : (p q : Query) → Decidable (p = q)
  | ⟨m, f, is, s, w⟩, ⟨m', f', js, s', w'⟩ =>
    if h : m = m' ∧ f = f' ∧ s = s' ∧ w = w' then
      match decEqIncludes is js with
      | isTrue h' => isTrue (by obtain ⟨rfl, rfl, rfl, rfl⟩ := h; rw [h'])
      | isFalse h' => isFalse (fun e => h' (Query.mk.inj e).2.2.1)
    else isFalse (fun e => h ⟨(Query.mk.inj e).1, (Query.mk.inj e).2.1, (Query.mk.inj e).2.2.2⟩)

def decEqIncludes : (is js : List (Include Query)) → Decidable (is = js)
  | [], [] => isTrue rfl
  | [], _ :: _ => isFalse nofun
  | _ :: _, [] => isFalse nofun
  | ⟨r, p⟩ :: is, ⟨r', q⟩ :: js =>
    if hr : r = r' then
      match decEq p q, decEqIncludes is js with
      | isTrue h, isTrue t => isTrue (by rw [hr, h, t])
      | isFalse h, _ => isFalse (fun e => h (Include.mk.inj (List.cons.inj e).1).2)
      | _, isFalse t => isFalse (fun e => t (List.cons.inj e).2)
    else isFalse (fun e => hr (Include.mk.inj (List.cons.inj e).1).1)
end

instance : DecidableEq Query := decEq

def everything (model : String) : Query := ⟨model, .matchAll, [], [], {}⟩

end Query

def SortClause.toRaw (s : SortClause) : Json :=
  .obj [("direction", .str s.direction.name), ("field", .str s.field)]

/-- The member of an object for a part that may be missing. -/
def member? {α : Type} (key : String) (f : α → Json) : Option α → List (String × Json)
  | none => []
  | some a => [(key, f a)]

def Page.toRaw (p : Page) : Json :=
  .obj (member? "cursor" .str p.cursor ++ member? "limit" .ofUInt64 p.limit ++
    member? "offset" .ofUInt64 p.offset)

namespace Query

mutual
def toRaw : Query → Json
  | ⟨_, filter, includes, sort, page⟩ =>
    .obj ((if filter.isMatchAll then [] else [("filters", filter.toRaw)]) ++
      (if includes.isEmpty then [] else [("include", .arr (includesToRaw includes))]) ++
      (if page.isEmpty then [] else [("pagination", page.toRaw)]) ++
      (if sort.isEmpty then [] else [("sort", .arr (sort.map SortClause.toRaw))]))

def includesToRaw : List (Include Query) → List Json
  | [] => []
  | ⟨relation, query⟩ :: includes =>
    .obj [("query", query.toRaw), ("relation", .str relation.name)] :: includesToRaw includes
end

end Query
end RowPolicy
