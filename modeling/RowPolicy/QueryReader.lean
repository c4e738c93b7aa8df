import RowPolicy.FilterReader
import RowPolicy.Query
import RowPolicy.Settings
import RowPolicy.Text

/-!
Reading queries against a schema. A query is null or an object with the optional keys `filters`,
`include`, `sort` and `pagination`, read in this order. Includes may nest as deep as the limits
say; each is read as a query over the target of its relation.
-/
namespace RowPolicy

def readOptional {α : Type} (key : String) (members : List (String × Json)) (missing : α)
    (read : Json → Reading α) : Reading α :=
  match Table.get? members key with
  | none => .ok missing
  | some raw => under (.key key) (read raw)

/-- Directions are recognised in any case. -/
def readDirection (written : String) : Reading Direction :=
  match asciiLower written with
  | "asc" => .ok .asc
  | "desc" => .ok .desc
  | other => fault (.unknownDirection other)

def readSortable (m : Model) (name : String) : Reading Unit :=
  match m.field? name with
  | none => fault (.unknownField m.name name)
  | some f => if f.decl.sortable then .ok () else fault (.notSortable name)

def readSortClause (m : Model) : Json → Reading SortClause
  | .str text => do
    let (name, written) := cutAtDot text
    let direction ← readDirection (written.getD "asc")
    readSortable m name
    return ⟨name, direction⟩
  | .obj members => do
    expectKeys ["field", "direction"] members
    let some name := (Table.get? members "field").bind Json.str?
      | under (.key "field") (fault .expectedFieldName)
    let direction ← readOptional "direction" members .asc fun
      | .str written => readDirection written
      | _ => fault .expectedDirection
    under (.key "field") (readSortable m name)
    return ⟨name, direction⟩
  | _ => fault .expectedSortClause

def readSort (m : Model) : Json → Reading (List SortClause)
  | .arr items => readItems (readSortClause m) 0 items
  | _ => fault .expectedSortClauses

/-- A non-negative integer of the signed range. -/
def readCount (raw : Json) : Reading UInt64 :=
  let value := match raw with
    | .num n => n.toInt64?
    | _ => none
  match value with
  | none => fault .expectedInteger
  | some n => if 0 ≤ n.toInt then .ok n.toUInt64 else fault (.negative n.toInt)

def readLimit (maximum : UInt64) (raw : Json) : Reading UInt64 := do
  let n ← readCount raw
  if n ≤ maximum then return n else fault (.limitTooLarge n.toNat maximum.toNat)

/-- A cursor takes the place of an offset. -/
def readCursor (offset : Option UInt64) : Json → Reading String
  | .str text => if offset.isSome then fault .offsetWithCursor else .ok text
  | _ => fault .expectedCursor

def readPage (maximum : UInt64) : Json → Reading Page
  | .obj members => do
    expectKeys ["limit", "offset", "cursor"] members
    let limit ← readOptional "limit" members none fun raw => some <$> readLimit maximum raw
    let offset ← readOptional "offset" members none fun raw => some <$> readCount raw
    let cursor ← readOptional "cursor" members none fun raw => some <$> readCursor offset raw
    return ⟨limit, offset, cursor⟩
  | _ => fault .expectedPage

def readRelation (m : Model) (seen : List String) (name : String) : Reading Relation :=
  match m.relation? name with
  | none => fault (.unknownRelation m.name name)
  | some r => if seen.contains name then fault (.includedTwice name) else .ok r

/-- A bare name includes everything; `read` reads the query over the target. -/
def readInclude (read : String → Json → Reading Query) (m : Model) (seen : List String) :
    Json → Reading (Include Query)
  | .str name => do
    let r ← readRelation m seen name
    return ⟨r, ← under (.key "query") (read r.target .null)⟩
  | .obj members => do
    expectKeys ["relation", "query"] members
    let r ← under (.key "relation") <|
      match (Table.get? members "relation").bind Json.str? with
      | none => fault .expectedRelationName
      | some name => readRelation m seen name
    let raw := (Table.get? members "query").getD .null
    return ⟨r, ← under (.key "query") (read r.target raw)⟩
  | _ => fault .expectedInclude

/-- Read the includes from position `i` on, `seen` naming the relations before. -/
def readIncludes (read : List String → Json → Reading (Include Query)) (seen : List String)
    (i : Nat) : List Json → Reading (List (Include Query))
  | [] => .ok []
  | item :: items => do
    let one ← under (.index i) (read seen item)
    return one :: (← readIncludes read (one.relation.name :: seen) (i + 1) items)

def readIncludeList (read : List String → Json → Reading (Include Query)) :
    Json → Reading (List (Include Query))
  | .arr items => readIncludes read [] 0 items
  | _ => fault .expectedIncludes

def readQueryWith (s : Schema) (limits : QueryLimits)
    (item : Model → List String → Json → Reading (Include Query)) (model : String) (raw : Json) :
    Reading Query := do
  let m ← s.readModel model
  match raw with
  | .null => return .everything model
  | .obj members =>
    expectKeys ["filters", "include", "sort", "pagination"] members
    let filterDepth := limits.filterDepth.toNat
    let filter ← readOptional "filters" members .matchAll (readFilter m filterDepth filterDepth)
    let includes ← readOptional "include" members [] (readIncludeList (item m))
    let sort ← readOptional "sort" members [] (readSort m)
    let page ← readOptional "pagination" members {} (readPage limits.pageSize)
    return ⟨model, filter, includes, sort, page⟩
  | _ => fault .expectedQuery

def readQuery (s : Schema) (limits : QueryLimits) : Nat → String → Json → Reading Query
  | 0 => readQueryWith s limits fun _ _ _ => fault (.includeTooDeep limits.includeDepth.toNat)
  | depth + 1 => readQueryWith s limits (readInclude (readQuery s limits depth))

def Schema.parse (s : Schema) (limits : QueryLimits) (model : String) (raw : Json) :
    Except ParseError Query :=
  (readQuery s limits limits.includeDepth.toNat model raw).mapError (·.toParseError "")

def Schema.parseFilter (s : Schema) (limits : QueryLimits) (model : String) (raw : Json)
    (root : String) : Except ParseError Filter :=
  (s.readFilter limits.filterDepth.toNat model raw).mapError (·.toParseError root)

def Schema.recheck (s : Schema) (limits : QueryLimits) (model : String) (f : Filter)
    (root : String) : Except ParseError Filter :=
  (s.checkFilter limits.filterDepth.toNat model f).mapError (·.toParseError root)

end RowPolicy
