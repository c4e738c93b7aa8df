import RowPolicy.Error
import RowPolicy.Operator
import RowPolicy.Table

/-!
Schemas: the models, their fields and their relations to other models. A schema is open while
models are registered. Sealing checks what the models say about each other, settles which operators
each field permits, and closes the schema.
-/
namespace RowPolicy

inductive FieldType where
  | text | integer | float | boolean | timestamp | id
deriving DecidableEq

namespace FieldType

def name : FieldType → String
  | text => "text"
  | integer => "integer"
  | float => "float"
  | boolean => "boolean"
  | timestamp => "timestamp"
  | id => "id"

def all : List FieldType := [text, integer, float, boolean, timestamp, id]

def ofName? (name : String) : Option FieldType := all.find? (·.name == name)

def operators : FieldType → List Operator
  | text => [.eq, .neq, .gt, .gte, .lt, .lte, .oneOf, .noneOf, .like, .ilike, .is]
  | integer => [.eq, .neq, .gt, .gte, .lt, .lte, .oneOf, .noneOf, .is]
  | float => [.eq, .neq, .gt, .gte, .lt, .lte, .oneOf, .noneOf, .is]
  | timestamp => [.eq, .neq, .gt, .gte, .lt, .lte, .oneOf, .noneOf, .is]
  | boolean => [.eq, .neq, .is]
  | id => [.eq, .neq, .oneOf, .noneOf, .is]

end FieldType

/-- A declared field; a list of operators narrows those of its type. -/
structure FieldDecl where
  name : String
  type : FieldType
  sortable : Bool := false
  nullable : Bool := false
  operators : Option (List Operator) := none
deriving DecidableEq

inductive Cardinality where
  | one | many
deriving DecidableEq

def Cardinality.name : Cardinality → String
  | one => "one"
  | many => "many"

/-- A link from a model to a target model, possibly routed through a junction model. -/
structure Relation where
  name : String
  target : String
  kind : Cardinality := .many
  through : Option String := none
deriving DecidableEq

structure Junction where
  left : String
  right : String
deriving DecidableEq

def Junction.joins (j : Junction) (a b : String) : Bool :=
  (j.left == a && j.right == b) || (j.left == b && j.right == a)

structure ModelDecl where
  name : String
  fields : List FieldDecl := []
  relations : List Relation := []
  junction : Option Junction := none
deriving DecidableEq

/-- A registered field with the operators it permits: none before the schema is sealed. -/
structure Field where
  decl : FieldDecl
  permitted : OperatorSet
deriving DecidableEq

structure Model where
  name : String
  fields : List Field
  relations : List Relation
  junction : Option Junction
deriving DecidableEq

namespace Model

def field? (m : Model) (name : String) : Option Field := m.fields.find? (·.decl.name == name)

def relation? (m : Model) (name : String) : Option Relation :=
  m.relations.find? (·.name == name)

def ofDecl (d : ModelDecl) : Model :=
  ⟨d.name, d.fields.map (⟨·, .empty⟩), d.relations, d.junction⟩

end Model

inductive SchemaDefect where
  | repeatedField (model field : String)
  | relationClash (model relation : String)
  | unknownTarget (model relation target : String)
  | wrongJunction (model relation through target : String)
  | unknownSide (junction side : String)
  | foreignOperators (model field : String) (type : FieldType)
  | unregisteredModel (model : String)
deriving DecidableEq

namespace SchemaDefect

def detail : SchemaDefect → String
  | repeatedField model field => "duplicate field '" ++ field ++ "' on model '" ++ model ++ "'"
  | relationClash model relation =>
    "relation '" ++ relation ++ "' on model '" ++ model ++
      "' clashes with another field or relation"
  | unknownTarget model relation target =>
    "relation '" ++ model ++ "." ++ relation ++ "' targets unknown model '" ++ target ++ "'"
  | wrongJunction model relation through target =>
    "relation '" ++ model ++ "." ++ relation ++ "' is routed through '" ++ through ++
      "', which is not a junction of '" ++ model ++ "' and '" ++ target ++ "'"
  | unknownSide junction side =>
    "junction '" ++ junction ++ "' links unknown model '" ++ side ++ "'"
  | foreignOperators model field type =>
    "field '" ++ model ++ "." ++ field ++ "' declares operators not valid for type " ++ type.name
  | unregisteredModel model => "policy references unregistered model '" ++ model ++ "'"

def error (d : SchemaDefect) : Error := .invalidSchema d.detail

end SchemaDefect

/-- The registered models, in the order of their registration. -/
structure Schema where
  models : List Model := []
  isSealed : Bool := false

namespace Schema

def model? (s : Schema) (name : String) : Option Model := s.models.find? (·.name == name)

def contains (s : Schema) (name : String) : Bool := (s.model? name).isSome

/-- The first name that is taken already or was met before. -/
def firstClash (taken : List String) : List String → Option String
  | [] => none
  | name :: names => if taken.contains name then some name else firstClash (name :: taken) names

def declDefect? (d : ModelDecl) : Option SchemaDefect :=
  let fields := d.fields.map (·.name)
  match firstClash [] fields with
  | some field => some (.repeatedField d.name field)
  | none => (firstClash fields (d.relations.map (·.name))).map (.relationClash d.name)

def register (s : Schema) (d : ModelDecl) : Except Error Schema :=
  if s.isSealed then .error (.registrySealed ("cannot register model '" ++ d.name ++ "'"))
  else if s.contains d.name then .error (.schemaConflict d.name)
  else match declDefect? d with
    | some defect => .error defect.error
    | none => .ok { s with models := s.models ++ [.ofDecl d] }

def relationDefect? (s : Schema) (model : String) (r : Relation) : Option SchemaDefect :=
  if !s.contains r.target then some (.unknownTarget model r.name r.target)
  else match r.through with
    | none => none
    | some through =>
      match (s.model? through).bind (·.junction) with
      | some junction =>
        if junction.joins model r.target then none
        else some (.wrongJunction model r.name through r.target)
      | none => some (.wrongJunction model r.name through r.target)

def junctionDefect? (s : Schema) (model : String) (j : Junction) : Option SchemaDefect :=
  ([j.left, j.right].find? fun side => !s.contains side).map (.unknownSide model)

def modelDefect? (s : Schema) (m : Model) : Option SchemaDefect :=
  match m.relations.findSome? (s.relationDefect? m.name) with
  | some defect => some defect
  | none => m.junction.bind (s.junctionDefect? m.name)

/-- Settle the operators of a field, unless its own list goes beyond its type. -/
def settleField (f : Field) : Option Field :=
  let table := OperatorSet.ofList f.decl.type.operators
  match f.decl.operators with
  | none => some { f with permitted := table }
  | some narrowed =>
    let narrowed := OperatorSet.ofList narrowed
    if narrowed.isSubset table then some { f with permitted := narrowed } else none

/-- Settle fields up to the first that cannot be settled; it and those behind it stay. -/
def settleFields (model : String) : List Field → List Field × Option SchemaDefect
  | [] => ([], none)
  | f :: rest =>
    match settleField f with
    | none => (f :: rest, some (.foreignOperators model f.decl.name f.decl.type))
    | some settled =>
      let (rest, defect) := settleFields model rest
      (settled :: rest, defect)

def settleModels : List Model → List Model × Option SchemaDefect
  | [] => ([], none)
  | m :: rest =>
    match settleFields m.name m.fields with
    | (fields, some defect) => ({ m with fields := fields } :: rest, some defect)
    | (fields, none) =>
      let (rest, defect) := settleModels rest
      ({ m with fields := fields } :: rest, defect)

/-- Seal a schema, and the schema as it is left behind. Operators that were settled before a defect
came up stay settled. -/
def sealUp (s : Schema) : Except Error Unit × Schema :=
  if s.isSealed then (.ok (), s)
  else match s.models.findSome? s.modelDefect? with
    | some defect => (.error defect.error, s)
    | none =>
      match settleModels s.models with
      | (models, some defect) => (.error defect.error, { s with models := models })
      | (models, none) => (.ok (), ⟨models, true⟩)

end Schema
end RowPolicy
