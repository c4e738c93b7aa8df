import RowPolicy.Decision
import RowPolicy.QueryJson

/-!
Compiling queries for an actor. Each query of the include tree is decided on by itself, the includes
as reads of their targets, and what a decision restricts is added to the filter of its query. A
relation through a junction model also needs a decision on reading the junction. The first
decision that denies or fails ends the compilation.
-/
namespace RowPolicy

/-- What the rules demand of the rows of a junction model. -/
structure JunctionFilter where
  model : String
  filter : Filter
deriving DecidableEq

structure CompiledInclude (Q : Type) where
  relation : String
  kind : Cardinality
  junction : Option JunctionFilter
  query : Q

structure CompiledQuery where
  model : String
  action : Action
  actor : Identity
  filter : Filter
  includes : List (CompiledInclude CompiledQuery)
  sort : List SortClause
  page : Page

namespace Engine

/-- The restriction that a decision puts on a model; a denial is an error here. -/
def restriction (e : Engine) (model : String) (action : Action) (actor : Actor) :
    Run (Option Filter) := do
  let decision ← e.decide model action actor
  match decision.outcome with
  | .allow => return none
  | .restrict filter => return some filter
  | .deny => .fail (.policyDenied model action.name decision.rules)

def addTo (filter : Filter) : Option Filter → Filter
  | none => filter
  | some security => filter.and security

def compileJunction (e : Engine) (actor : Actor) (r : Relation) : Run (Option JunctionFilter) :=
  match r.through with
  | none => return none
  | some model => do
    let security ← e.restriction model .read actor
    return some ⟨model, security.getD .matchAll⟩

mutual
def compileNode (e : Engine) (actor : Actor) (action : Action) : Query → Run CompiledQuery
  | ⟨model, filter, includes, sort, page⟩ => do
    let security ← e.restriction model action actor
    let compiled ← compileIncludes e actor includes
    return ⟨model, action, actor.identity, addTo filter security, compiled, sort, page⟩

def compileIncludes (e : Engine) (actor : Actor) :
    List (Include Query) → Run (List (CompiledInclude CompiledQuery))
  | [] => return []
  | ⟨relation, query⟩ :: includes => do
    let junction ← compileJunction e actor relation
    let compiled ← compileNode e actor .read query
    let rest ← compileIncludes e actor includes
    return ⟨relation.name, relation.kind, junction, compiled⟩ :: rest
end

def compile (e : Engine) (action : Action) (query : Query) (actor : Actor) : Run CompiledQuery :=
  (e.compileNode actor action query).unlessCancelled

end Engine

namespace CompiledQuery

mutual
def toJson : CompiledQuery → Json
  | ⟨model, action, actor, filter, includes, sort, page⟩ =>
    .obj [("action", .str action.name), ("actor", actor.toJson), ("filter", filter.toJson),
      ("includes", .arr (includesToJson includes)), ("model", .str model),
      ("pagination", page.toJson), ("sort", .arr (sort.map SortClause.toJson))]

def includesToJson : List (CompiledInclude CompiledQuery) → List Json
  | [] => []
  | ⟨relation, kind, junction, query⟩ :: includes =>
    .obj (member? "junction" (fun (j : JunctionFilter) =>
        .obj [("filter", j.filter.toJson), ("model", .str j.model)]) junction ++
      [("kind", .str kind.name), ("query", query.toJson), ("relation", .str relation)]) ::
      includesToJson includes
end

end CompiledQuery
end RowPolicy
