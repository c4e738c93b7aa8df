import RowPolicy.Outcome
import RowPolicy.Form
import RowPolicy.Text

/-!
Template rules: rules that are written down as data. The filter of a template may name attributes
of the actor by texts that start with a dollar sign; two dollar signs stand for one. A filter that
names an attribute the actor lacks, or that has not the shape of a filter, denies.
-/
namespace RowPolicy

inductive Attribute where
  | subjectId (type : String)
  | subjectModel (type : String)
  | claim (name : String)
  | session
deriving DecidableEq

/-- The attribute a name stands for, without its dollar sign. Claims have no dot in their name. -/
def Attribute.ofName? (name : String) : Option Attribute :=
  match cutAtDot name with
  | ("session", none) => some .session
  | (head, some rest) =>
    match head, cutAtDot rest with
    | "claim", (key, none) => some (.claim key)
    | "subject", (type, some "id") => some (.subjectId type)
    | "subject", (type, some "model") => some (.subjectModel type)
    | _, _ => none
  | _ => none

namespace Actor

/-- The value of an attribute; a claim that is null counts as missing. -/
def attribute? (a : Actor) : Attribute → Option Json
  | .subjectId type => (a.subject? type).map (·.id.toJson)
  | .subjectModel type => (a.subject? type).map (.str ·.model)
  | .claim name => (a.claim? name).filter fun value => !value.isNull
  | .session => a.session.map .str

def resolve (a : Actor) (name : String) : Option Json :=
  (Attribute.ofName? name).bind a.attribute?

def substituteText (a : Actor) (text : String) : Option Json :=
  match text.toList with
  | '$' :: '$' :: rest => some (.str (String.ofList ('$' :: rest)))
  | '$' :: name => a.resolve (String.ofList name)
  | _ => some (.str text)

mutual
/-- Put the actor's attributes into a value. The values put in are taken as they are. -/
def substitute (a : Actor) : Json → Option Json
  | .str text => a.substituteText text
  | .arr items => (substituteItems a items).map .arr
  | .obj members => (substituteMembers a members).map .obj
  | .null => some .null
  | .bool b => some (.bool b)
  | .num n => some (.num n)

def substituteItems (a : Actor) : List Json → Option (List Json)
  | [] => some []
  | item :: items => do return (← substitute a item) :: (← substituteItems a items)

def substituteMembers (a : Actor) : List (String × Json) → Option (List (String × Json))
  | [] => some []
  | (key, value) :: members => do
    return (key, ← substitute a value) :: (← substituteMembers a members)
end

end Actor

def Operand.ofRaw? : Json → Option Operand
  | .null => some .null
  | .arr items => (Scalar.listOfJson? items).map .list
  | raw => (Scalar.ofJson? raw).map .single

def Condition.ofRaw? (members : List (String × Json)) : Option Condition := do
  let field ← (← Table.get? members "field").str?
  let written ← Table.get? members "op" <|> Table.get? members "operator"
  let operator ← written.str?.bind Operator.ofName?
  let operand ← Operand.ofRaw? ((Table.get? members "value").getD .null)
  return ⟨field, operator, operand⟩

namespace Filter

mutual
/-- The filter that a value has the shape of, knowing nothing of models. Keys that the shape does
not ask for are passed over. -/
def ofRaw? : Json → Option Filter
  | .obj members =>
    match partsOf? "and" members, partsOf? "or" members, partOf? "not" members with
    | some parts, _, _ => parts.map conj
    | none, some parts, _ => parts.map disj
    | none, none, some part => part.map negate
    | none, none, none => (Condition.ofRaw? members).map leaf
  | _ => none

def ofRawParts? : List Json → Option (List Filter)
  | [] => some []
  | item :: items => do return (← ofRaw? item) :: (← ofRawParts? items)

/-- The filters under a key, if the key is there. -/
def partsOf? (key : String) : List (String × Json) → Option (Option (List Filter))
  | [] => none
  | (k, .arr items) :: members =>
    if k = key then some (ofRawParts? items) else partsOf? key members
  | (k, _) :: members => if k = key then some none else partsOf? key members

def partOf? (key : String) : List (String × Json) → Option (Option Filter)
  | [] => none
  | (k, value) :: members => if k = key then some (ofRaw? value) else partOf? key members
end

end Filter

inductive Effect where
  | allow | deny | restrict
deriving DecidableEq

def Effect.name : Effect → String
  | allow => "allow"
  | deny => "deny"
  | restrict => "restrict"

def Effect.ofName? : String → Option Effect
  | "allow" => some allow
  | "deny" => some deny
  | "restrict" => some restrict
  | _ => none

structure Template where
  name : String
  effect : Effect
  filter : Option Json := none
  roles : List String := []
  authenticated : Bool := false

namespace Template

/-- A template that lists no roles applies to all. -/
def appliesTo (t : Template) (a : Actor) : Bool := t.roles.isEmpty || t.roles.any a.hasRole

def restriction? (t : Template) (a : Actor) : Option Filter := do
  let raw ← t.filter
  let bound ← a.substitute raw
  Filter.ofRaw? bound

def outcome (t : Template) (a : Actor) : Outcome :=
  if t.authenticated && !a.authenticated then .deny
  else if !t.appliesTo a then .deny
  else match t.effect with
    | .allow => .allow
    | .deny => .deny
    | .restrict =>
      match t.restriction? a with
      | some filter => .restrict filter
      | none => .deny

def rule (t : Template) : Rule := .ofOutcome t.name t.outcome

def fields (effect : Form Effect) : Fields Template :=
  Template.mk <$> .required "name" .text <*> .required "effect" effect
    <*> .optional "filter" .json <*> .withDefault "roles" [] (.list .text)
    <*> .withDefault "authenticated" false .truth

def form : Form Template := .record (fields (.choice Effect.ofName?))

def toJson (t : Template) : Json :=
  .obj [("authenticated", .bool t.authenticated), ("effect", .str t.effect.name),
    ("filter", t.filter.getD .null), ("name", .str t.name), ("roles", .ofStrings t.roles)]

end Template
end RowPolicy
