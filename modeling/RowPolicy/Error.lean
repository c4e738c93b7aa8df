import RowPolicy.Duration

/-!
What can go wrong, from reading a query to deciding on access. Every error has a stable code, a
message and a category.
-/
namespace RowPolicy

inductive Reason where
  | unknownModel | unknownField | unknownOperator | operatorNotPermitted | invalidValue
  | unknownRelation | notSortable | invalidPagination | maxDepthExceeded | malformed
deriving DecidableEq

namespace Reason

def code : Reason → String
  | unknownModel => "unknown_model"
  | unknownField => "unknown_field"
  | unknownOperator => "unknown_operator"
  | operatorNotPermitted => "operator_not_permitted"
  | invalidValue => "invalid_value"
  | unknownRelation => "unknown_relation"
  | notSortable => "not_sortable"
  | invalidPagination => "invalid_pagination"
  | maxDepthExceeded => "max_depth_exceeded"
  | malformed => "malformed"

def all : List Reason :=
  [unknownModel, unknownField, unknownOperator, operatorNotPermitted, invalidValue,
    unknownRelation, notSortable, invalidPagination, maxDepthExceeded, malformed]

def ofCode? (code : String) : Option Reason := all.find? (·.code == code)

end Reason

/-- A refused query: where the offending part stands, why it is refused, and the particulars. -/
structure ParseError where
  path : String
  reason : Reason
  detail : String
deriving DecidableEq

/-- An empty path is the query itself and is not shown. -/
def ParseError.message (e : ParseError) : String :=
  let location := if e.path.isEmpty then "" else " at " ++ e.path
  e.reason.code ++ location ++ ": " ++ e.detail

inductive Category where
  | input | policy | configuration | cancelled
deriving DecidableEq

def Category.name : Category → String
  | input => "input"
  | policy => "policy"
  | configuration => "configuration"
  | cancelled => "cancelled"

inductive Error where
  | queryParse (cause : ParseError)
  | unknownModel (model : String)
  | rlsNotImplemented (model action : String)
  | policyDenied (model action : String) (rules : List String)
  | policyTimeout (model action rule : String) (budget : Milliseconds)
  | cancelled
  | schemaConflict (model : String)
  | registrySealed (attempt : String)
  | policyConflict (model action : String)
  | invalidSchema (detail : String)
  | configuration (detail : String)
  | unreadableDeclarations
deriving DecidableEq

namespace Error

def code : Error → String
  | queryParse _ => "query_parse_error"
  | unknownModel _ => "unknown_model"
  | rlsNotImplemented _ _ => "rls_not_implemented"
  | policyDenied _ _ _ => "policy_denied"
  | policyTimeout _ _ _ _ => "policy_timeout"
  | cancelled => "cancelled"
  | schemaConflict _ => "schema_conflict"
  | registrySealed _ => "registry_sealed"
  | policyConflict _ _ => "policy_conflict"
  | invalidSchema _ => "invalid_schema"
  | configuration _ => "config_error"
  | unreadableDeclarations => "config_error"

def message : Error → String
  | queryParse cause => "Query parse error: " ++ cause.message
  | unknownModel model => "Unknown model: " ++ model
  | rlsNotImplemented model action =>
    "Row level security is required for " ++ model ++ "." ++ action ++
      " but no policy is registered"
  | policyDenied model action _ => "Access to " ++ model ++ "." ++ action ++ " denied by policy"
  | policyTimeout model action rule budget =>
    "Policy rule '" ++ rule ++ "' for " ++ model ++ "." ++ action ++ " exceeded " ++ budget.text
  | cancelled => "Compilation cancelled"
  | schemaConflict model => "Model already registered: " ++ model
  | registrySealed attempt => "Registry is sealed: " ++ attempt
  | policyConflict model action => "Policy already registered for " ++ model ++ "." ++ action
  | invalidSchema detail => "Invalid schema: " ++ detail
  | configuration detail => "Configuration error: " ++ detail
  | unreadableDeclarations => "invalid declarations"

def category : Error → Category
  | queryParse _ => .input
  | unknownModel _ => .input
  | rlsNotImplemented _ _ => .policy
  | policyDenied _ _ _ => .policy
  | policyTimeout _ _ _ _ => .policy
  | cancelled => .cancelled
  | schemaConflict _ => .configuration
  | registrySealed _ => .configuration
  | policyConflict _ _ => .configuration
  | invalidSchema _ => .configuration
  | configuration _ => .configuration
  | unreadableDeclarations => .configuration

end Error
end RowPolicy
