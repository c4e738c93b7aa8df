import RowPolicy.Filter
import RowPolicy.Form

/-!
The JSON form of filter trees, in which every node names its kind. Reading it takes any tree as it
stands, canonical or not.
-/
namespace RowPolicy

def Operator.form : Form Operator := .choice Operator.ofName?

namespace Operand

/-- The JSON form that names the kind of operand. -/
def toTagged : Operand → Json
  | single s => .obj [("single", s.toJson)]
  | list values => .obj [("list", .arr (values.map Scalar.toJson))]
  | null => .str "null"

def ofTagged? : Json → Option Operand
  | .obj [("single", j)] => (Scalar.ofJson? j).map single
  | .obj [("list", .arr items)] => (Scalar.listOfJson? items).map list
  | .obj [("null", .null)] => some null
  | .str "null" => some null
  | _ => none

end Operand

namespace Condition

def toJson (c : Condition) : Json :=
  .obj [("field", .str c.field), ("operator", .str c.operator.name), ("value", c.operand.toTagged)]

def form : Form Condition := .record <|
  Condition.mk <$> .required "field" .text <*> .required "operator" Operator.form
    <*> .required "value" ⟨.plain, Operand.ofTagged?⟩

end Condition

namespace Filter

mutual
def toJson : Filter → Json
  | all parts => .obj [("and", .arr (partsToJson parts))]
  | any parts => .obj [("or", .arr (partsToJson parts))]
  | not part => .obj [("not", part.toJson)]
  | leaf c => .obj [("leaf", c.toJson)]

def partsToJson : List Filter → List Json
  | [] => []
  | part :: parts => part.toJson :: partsToJson parts
end

mutual
def ofJson? : Json → Option Filter
  | .obj [("and", .arr parts)] => (partsOfJson? parts).map all
  | .obj [("or", .arr parts)] => (partsOfJson? parts).map any
  | .obj [("not", part)] => (ofJson? part).map not
  | .obj [("leaf", c)] => (Condition.form.ofJson? c).map leaf
  | _ => none

def partsOfJson? : List Json → Option (List Filter)
  | [] => some []
  | part :: parts => do return (← ofJson? part) :: (← partsOfJson? parts)
end

end Filter
end RowPolicy
