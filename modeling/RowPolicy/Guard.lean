import RowPolicy.Compilation

/-!
Guards: a sealed engine in front of stored rows. A guard is set up by a builder that registers
models and policies; building seals both and checks that every policy is about a registered
model.
-/
namespace RowPolicy

structure Builder where
  settings : Settings
  schema : Schema
  policies : Policies

/-- Steps of setting up a guard. What was registered before a step fails stays registered. -/
abbrev Setup := ExceptT Error (StateM Builder)

namespace Builder

def ofSettings (s : Settings) : Builder := ⟨s, {}, .ofSettings s.policy⟩

def registerModel (d : ModelDecl) : Setup Unit := do
  let b ← get
  let schema ← b.schema.register d
  set { b with schema }

def sealSchema : Setup Unit := do
  let b ← get
  let (result, schema) := b.schema.sealUp
  set { b with schema }
  result

def changePolicies (change : Policies → Except Error Policies) : Setup Unit := do
  let b ← get
  let policies ← change b.policies
  set { b with policies }

def composePolicies (model : String) (action : Action) (rules : List Rule) : Setup Unit :=
  changePolicies (·.compose model action rules)

def registerPolicy (model : String) (action : Action) (rule : Rule) : Setup Unit :=
  changePolicies (·.register model action rule)

def requirePolicies (model : String) (actions : List Action) : Setup Unit :=
  changePolicies (·.require model actions)

def exemptActions (model : String) (actions : List Action) : Setup Unit :=
  changePolicies (·.exemptActions model actions)

def sealPolicies : Setup Unit := changePolicies fun p => .ok p.sealUp

end Builder

structure Guard where
  engine : Engine

def Builder.build (b : Builder) : Except Error Guard :=
  match b.schema.sealUp with
  | (.error e, _) => .error e
  | (.ok (), schema) =>
    match b.policies.models.find? fun model => !schema.contains model with
    | some model => .error (SchemaDefect.unregisteredModel model).error
    | none => .ok ⟨⟨schema, b.policies.sealUp, b.settings⟩⟩

namespace Guard

def settings (g : Guard) : Settings := g.engine.settings

def schema (g : Guard) : Schema := g.engine.schema

def parse (g : Guard) (model : String) (raw : Json) : Except Error Query :=
  (g.schema.parse g.settings.limits model raw).mapError .queryParse

def evaluate (g : Guard) (model : String) (action : Action) (actor : Actor) : Run Outcome := do
  let decision ← g.engine.decide model action actor
  return decision.outcome

/-- Parse a query and compile it. A query that does not parse is refused whatever comes after. -/
def compile (g : Guard) (model : String) (action : Action) (raw : Json) (actor : Actor) :
    Run CompiledQuery :=
  match g.parse model raw with
  | .error e => .fail e
  | .ok query => g.engine.compile action query actor

end Guard
end RowPolicy
