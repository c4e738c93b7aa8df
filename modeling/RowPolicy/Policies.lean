import RowPolicy.Action
import RowPolicy.Error
import RowPolicy.Outcome
import RowPolicy.Settings

/-!
The policies of all models: which rules hold for a model and an action, and for which actions a
rule is required. Policies are open for registration until they are sealed.
-/
namespace RowPolicy

structure Policies where
  rules : Table (List (Action × List Rule)) := []
  required : Table (List Action) := []
  exempt : Table (List Action) := []
  duplicates : Duplicates := .replace
  requireByDefault : Bool := false
  isSealed : Bool := false

namespace Policies

def ofSettings (s : PolicySettings) : Policies :=
  { duplicates := s.duplicates, requireByDefault := s.requireByDefault }

def rulesFor? (action : Action) : List (Action × List Rule) → Option (List Rule)
  | [] => none
  | (a, rules) :: rest => if a = action then some rules else rulesFor? action rest

/-- List rules for an action, in place of those it had. -/
def setRules (action : Action) (rules : List Rule) :
    List (Action × List Rule) → List (Action × List Rule)
  | [] => [(action, rules)]
  | (a, old) :: rest =>
    if a = action then (a, rules) :: rest else (a, old) :: setRules action rules rest

def lookup (p : Policies) (model : String) (action : Action) : Option (List Rule) :=
  (Table.get? p.rules model).bind (rulesFor? action)

def lists (t : Table (List Action)) (model : String) (action : Action) : Bool :=
  match Table.get? t model with
  | some actions => actions.contains action
  | none => false

/-- Whether an action on a model must have a rule. A requirement outweighs an exemption. -/
def requires (p : Policies) (model : String) (action : Action) : Bool :=
  lists p.required model action || (p.requireByDefault && !lists p.exempt model action)

/-- Every model that rules, requirements or exemptions name, once for each of the three. -/
def models (p : Policies) : List String :=
  Table.keys p.rules ++ Table.keys p.required ++ Table.keys p.exempt

def checkOpen (p : Policies) (model : String) (action : Action) : Except Error Unit :=
  if p.isSealed then
    .error (.registrySealed ("cannot register policy for " ++ model ++ "." ++ action.name))
  else .ok ()

def compose (p : Policies) (model : String) (action : Action) (rules : List Rule) :
    Except Error Policies := do
  p.checkOpen model action
  if rules.isEmpty then
    throw (.configuration ("empty rule composition for " ++ model ++ "." ++ action.name))
  if p.duplicates = .error ∧ (p.lookup model action).isSome then
    throw (.policyConflict model action.name)
  return { p with rules := Table.update model [] (setRules action rules) p.rules }

def register (p : Policies) (model : String) (action : Action) (rule : Rule) :
    Except Error Policies :=
  p.compose model action [rule]

def require (p : Policies) (model : String) (actions : List Action) : Except Error Policies := do
  actions.forM (p.checkOpen model)
  return { p with required := Table.update model [] (· ++ actions) p.required }

def exemptActions (p : Policies) (model : String) (actions : List Action) :
    Except Error Policies := do
  actions.forM (p.checkOpen model)
  return { p with exempt := Table.update model [] (· ++ actions) p.exempt }

def sealUp (p : Policies) : Policies := { p with isSealed := true }

end Policies
end RowPolicy
