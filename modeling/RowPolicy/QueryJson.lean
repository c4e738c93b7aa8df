import RowPolicy.Query
import RowPolicy.SchemaJson

/-!
The JSON form of validated queries, which writes out every part. Reading it checks nothing against
a schema.
-/
namespace RowPolicy

mutual
def Json.depth : Json → Nat
  | .arr items => itemsDepth items + 1
  | .obj members => membersDepth members + 1
  | _ => 0

def itemsDepth : List Json → Nat
  | [] => 0
  | item :: items => max item.depth (itemsDepth items)

def membersDepth : List (String × Json) → Nat
  | [] => 0
  | (_, value) :: members => max value.depth (membersDepth members)
end

def Direction.form : Form Direction := .choice fun
  | "asc" => some .asc
  | "desc" => some .desc
  | _ => none

def SortClause.form : Form SortClause := .record <|
  SortClause.mk <$> .required "field" .text <*> .required "direction" Direction.form

def SortClause.toJson (s : SortClause) : Json := s.toRaw

namespace Page

def form : Form Page := .record <|
  Page.mk <$> .nullable "limit" .count <*> .nullable "offset" .count <*> .nullable "cursor" .text

def toJson (p : Page) : Json :=
  .obj [("cursor", .ofOption .str p.cursor), ("limit", .ofOption .ofUInt64 p.limit),
    ("offset", .ofOption .ofUInt64 p.offset)]

end Page

def Include.form {Q : Type} (query : Form Q) : Form (Include Q) := .record <|
  (fun name target kind through query => ⟨⟨name, target, kind, through⟩, query⟩)
    <$> .required "relation" .text <*> .required "target" .text
    <*> .required "kind" Cardinality.form <*> .nullable "through" .text
    <*> .required "query" query

namespace Query

/-- A query whose containers nest at most `depth` deep. -/
def formWithin : Nat → Form Query
  | 0 => ⟨.plain, fun _ => none⟩
  | depth + 1 => .record <|
    Query.mk <$> .required "model" .text <*> .required "filter" ⟨.plain, Filter.ofJson?⟩
      <*> .required "includes" (.list (Include.form (formWithin depth)))
      <*> .required "sort" (.list SortClause.form) <*> .required "pagination" Page.form

def ofJson? (j : Json) : Option Query := (formWithin j.depth).ofJson? j

mutual
def toJson : Query → Json
  | ⟨model, filter, includes, sort, page⟩ =>
    .obj [("filter", filter.toJson), ("includes", .arr (includesToJson includes)),
      ("model", .str model), ("pagination", page.toJson),
      ("sort", .arr (sort.map SortClause.toJson))]

def includesToJson : List (Include Query) → List Json
  | [] => []
  | ⟨relation, query⟩ :: includes =>
    .obj [("kind", .str relation.kind.name), ("query", query.toJson),
      ("relation", .str relation.name), ("target", .str relation.target),
      ("through", .ofOption .str relation.through)] :: includesToJson includes
end

end Query
end RowPolicy
