import RowPolicy.Guard
import RowPolicy.SettingsJson
import RowPolicy.Template
import RowPolicy.TomlReader

/-!
Declarations: models and template policies written down as data, and how they are registered.
Policies that are declared for one model and action hold together, in the order of their
declaration.
-/
namespace RowPolicy

structure ModelEntry where
  model : ModelDecl
  require : List Action := []
  exempt : List Action := []

structure PolicyEntry where
  model : String
  action : Action
  template : Template

structure Declarations where
  models : List ModelEntry := []
  policies : List PolicyEntry := []

def Action.form : Form Action := ⟨.plain, fun j => j.str?.map Action.ofName⟩

namespace ModelEntry

def form : Form ModelEntry := .record <|
  (fun name fields relations junction => ModelEntry.mk ⟨name, fields, relations, junction⟩)
    <$> .required "name" .text <*> .withDefault "fields" [] (.list FieldDecl.form)
    <*> .withDefault "relations" [] (.list Relation.form) <*> .optional "junction" Junction.form
    <*> .withDefault "require_rls" [] (.list Action.form)
    <*> .withDefault "exempt_rls" [] (.list Action.form)

def apply (e : ModelEntry) : Setup Unit := do
  Builder.registerModel e.model
  unless e.require.isEmpty do Builder.requirePolicies e.model.name e.require
  unless e.exempt.isEmpty do Builder.exemptActions e.model.name e.exempt

end ModelEntry

/-- The fields of the template stand among those of the entry, so an entry is never a list. -/
def PolicyEntry.form : Form PolicyEntry := .object <|
  PolicyEntry.mk <$> .required "model" .text <*> .required "action" Action.form
    <*> Template.fields (.embeddedChoice Effect.ofName?)

/-- Templates by model and action, both in the order of their first entry. -/
def insertPolicy (p : PolicyEntry) :
    List ((String × Action) × List Template) → List ((String × Action) × List Template)
  | [] => [((p.model, p.action), [p.template])]
  | (key, templates) :: rest =>
    if key = (p.model, p.action) then (key, templates ++ [p.template]) :: rest
    else (key, templates) :: insertPolicy p rest

def groupPolicies (policies : List PolicyEntry) : List ((String × Action) × List Template) :=
  policies.foldl (fun groups p => insertPolicy p groups) []

namespace Declarations

def form : Form Declarations := .record <|
  Declarations.mk <$> .withDefault "models" [] (.list ModelEntry.form)
    <*> .withDefault "policies" [] (.list PolicyEntry.form)

def apply (d : Declarations) : Setup Unit := do
  d.models.forM ModelEntry.apply
  (groupPolicies d.policies).forM fun ((model, action), templates) =>
    Builder.composePolicies model action (templates.map Template.rule)

def ofToml? (text : String) : Option Declarations := form.ofToml? text

def load (text : String) : Setup Unit :=
  match ofToml? text with
  | some d => d.apply
  | none => throw .unreadableDeclarations

end Declarations

def Settings.ofToml? (text : String) : Option Settings := form.ofToml? text

end RowPolicy
