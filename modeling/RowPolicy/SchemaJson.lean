import RowPolicy.FilterJson
import RowPolicy.Schema

/-!
The JSON forms of declared models.
-/
namespace RowPolicy

def FieldType.form : Form FieldType := .choice FieldType.ofName?

def Cardinality.form : Form Cardinality := .choice fun
  | "one" => some .one
  | "many" => some .many
  | _ => none

namespace FieldDecl

def form : Form FieldDecl := .record <|
  FieldDecl.mk <$> .required "name" .text <*> .required "type" FieldType.form
    <*> .withDefault "sortable" false .truth <*> .withDefault "nullable" false .truth
    <*> .optional "operators" (.list Operator.form)

def toJson (f : FieldDecl) : Json :=
  .obj [("name", .str f.name), ("nullable", .bool f.nullable),
    ("operators", .ofOption (fun ops => .ofStrings (ops.map Operator.name)) f.operators),
    ("sortable", .bool f.sortable), ("type", .str f.type.name)]

end FieldDecl

namespace Relation

def form : Form Relation := .record <|
  Relation.mk <$> .required "name" .text <*> .required "target" .text
    <*> .withDefault "kind" .many Cardinality.form <*> .optional "through" .text

def toJson (r : Relation) : Json :=
  .obj [("kind", .str r.kind.name), ("name", .str r.name), ("target", .str r.target),
    ("through", .ofOption .str r.through)]

end Relation

namespace Junction

def form : Form Junction := .record <|
  Junction.mk <$> .required "left" .text <*> .required "right" .text

def toJson (j : Junction) : Json := .obj [("left", .str j.left), ("right", .str j.right)]

end Junction
end RowPolicy
