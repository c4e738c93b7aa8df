import RowPolicy.JsonText
import RowPolicy.Schema

/-!
Faults of a query: what is wrong and where. A reader reports a fault relative to the part it was
given, and whoever handed it the part adds the step that leads there, so a path grows from its
end. A path is written with dots before keys and brackets around list positions.
-/
namespace RowPolicy

inductive Step where
  | key (name : String)
  | index (i : Nat)
deriving DecidableEq

/-- A step behind a path that is already written; nothing stands before a first key. -/
def Step.extend (path : String) : Step → String
  | key name => if path.isEmpty then name else path ++ "." ++ name
  | index i => path ++ "[" ++ toString i ++ "]"

def renderPath (root : String) (path : List Step) : String := path.foldl Step.extend root

@[simp] theorem renderPath_nil (root : String) : renderPath root [] = root := rfl
@[simp] theorem renderPath_cons (root : String) (s : Step) (path : List Step) :
    renderPath root (s :: path) = renderPath (s.extend root) path := rfl

inductive Defect where
  | unknownModel (model : String)
  | expectedQuery
  | unexpectedKey
  | filterTooDeep (limit : Nat)
  | expectedFilter
  | notAlone (combinator : String)
  | expectedFilters
  | expectedFieldName
  | unknownField (model field : String)
  | twoOperators
  | missingOperator
  | unknownOperator (written : Json)
  | notPermitted (operator : Operator) (type : FieldType) (field : String)
  | notNullable (field : String)
  | expectedNullOrTruth
  | expectedValues (operator : Operator)
  | noValues (operator : Operator)
  | nullComparison
  | wrongType (type : FieldType) (written : Json)
  | expectedIncludes
  | includeTooDeep (limit : Nat)
  | expectedInclude
  | expectedRelationName
  | unknownRelation (model relation : String)
  | includedTwice (relation : String)
  | expectedSortClauses
  | expectedSortClause
  | expectedDirection
  | unknownDirection (written : String)
  | notSortable (field : String)
  | expectedPage
  | expectedInteger
  | negative (value : Int)
  | limitTooLarge (limit maximum : Nat)
  | expectedCursor
  | offsetWithCursor

namespace Defect

def reason : Defect → Reason
  | unknownModel _ => .unknownModel
  | filterTooDeep _ => .maxDepthExceeded
  | includeTooDeep _ => .maxDepthExceeded
  | unknownField _ _ => .unknownField
  | unknownOperator _ => .unknownOperator
  | notPermitted _ _ _ => .operatorNotPermitted
  | notNullable _ => .invalidValue
  | expectedNullOrTruth => .invalidValue
  | expectedValues _ => .invalidValue
  | noValues _ => .invalidValue
  | nullComparison => .invalidValue
  | wrongType _ _ => .invalidValue
  | unknownRelation _ _ => .unknownRelation
  | notSortable _ => .notSortable
  | expectedInteger => .invalidPagination
  | negative _ => .invalidPagination
  | limitTooLarge _ _ => .invalidPagination
  | expectedCursor => .invalidPagination
  | offsetWithCursor => .invalidPagination
  | _ => .malformed

def detail : Defect → String
  | unknownModel model => "unknown model '" ++ model ++ "'"
  | expectedQuery => "query must be an object"
  | unexpectedKey => "unexpected key"
  | filterTooDeep limit => "filter nesting exceeds " ++ toString limit
  | expectedFilter => "filter must be an object"
  | notAlone combinator => "'" ++ combinator ++ "' must be the only key"
  | expectedFilters => "expected a list of filters"
  | expectedFieldName => "expected a field name"
  | unknownField model field => "model '" ++ model ++ "' has no field '" ++ field ++ "'"
  | twoOperators => "use either 'op' or 'operator'"
  | missingOperator => "missing operator"
  | unknownOperator written => "unknown operator " ++ written.text
  | notPermitted operator type field =>
    "operator '" ++ operator.name ++ "' is not permitted on " ++ type.name ++ " field '" ++
      field ++ "'"
  | notNullable field => "field '" ++ field ++ "' is not nullable"
  | expectedNullOrTruth => "'is' expects null, or true/false on boolean fields"
  | expectedValues operator => "'" ++ operator.name ++ "' expects a list"
  | noValues operator => "'" ++ operator.name ++ "' expects a non-empty list"
  | nullComparison => "null comparisons must use 'is'"
  | wrongType type written => "expected a " ++ type.name ++ " value, got " ++ written.text
  | expectedIncludes => "expected a list of includes"
  | includeTooDeep limit => "include nesting exceeds " ++ toString limit
  | expectedInclude => "expected a relation name or object"
  | expectedRelationName => "expected a relation name"
  | unknownRelation model relation =>
    "model '" ++ model ++ "' has no relation '" ++ relation ++ "'"
  | includedTwice relation => "relation '" ++ relation ++ "' included twice"
  | expectedSortClauses => "expected a list of sort clauses"
  | expectedSortClause => "expected a sort clause"
  | expectedDirection => "expected 'asc' or 'desc'"
  | unknownDirection written => "unknown sort direction '" ++ written ++ "'"
  | notSortable field => "field '" ++ field ++ "' is not sortable"
  | expectedPage => "pagination must be an object"
  | expectedInteger => "expected an integer"
  | negative value => toString value ++ " is negative"
  | limitTooLarge limit maximum =>
    "limit " ++ toString limit ++ " exceeds maximum " ++ toString maximum
  | expectedCursor => "cursor must be a string"
  | offsetWithCursor => "offset and cursor are mutually exclusive"

end Defect

structure Fault where
  path : List Step
  defect : Defect

def Fault.toParseError (root : String) (f : Fault) : ParseError :=
  ⟨renderPath root f.path, f.defect.reason, f.defect.detail⟩

abbrev Reading := Except Fault

def fault {α : Type} (d : Defect) : Reading α := .error ⟨[], d⟩

/-- Faults of a part, seen from where one step leads to it. -/
def under {α : Type} (s : Step) : Reading α → Reading α
  | .ok a => .ok a
  | .error f => .error ⟨s :: f.path, f.defect⟩

@[simp] theorem under_ok {α : Type} (s : Step) (a : α) : under s (.ok a) = .ok a := rfl
@[simp] theorem under_error {α : Type} (s : Step) (f : Fault) :
    under s (.error f : Reading α) = .error ⟨s :: f.path, f.defect⟩ := rfl

theorem under_eq_ok_iff {α : Type} {s : Step} {r : Reading α} {a : α} :
    under s r = .ok a ↔ r = .ok a := by
  cases r <;> simp

/-- Read the items of a list, the first of them at position `i`. -/
def readItems {α : Type} (read : Json → Reading α) (i : Nat) : List Json → Reading (List α)
  | [] => .ok []
  | item :: items => do
    let a ← under (.index i) (read item)
    return a :: (← readItems read (i + 1) items)

def expectKeys (expected : List String) : List (String × Json) → Reading Unit
  | [] => .ok ()
  | (key, _) :: members =>
    if expected.contains key then expectKeys expected members
    else under (.key key) (fault .unexpectedKey)

end RowPolicy
