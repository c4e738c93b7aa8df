import RowPolicy.Form

/-!
TOML documents as trees. A document is put together from its statements one by one; a statement
that defines something twice, or opens a table that is already closed, is refused.
-/
namespace RowPolicy

def datetimeKey : String := "$__toml_private_datetime"

inductive TomlValue where
  | text (s : String)
  | integer (n : Number)
  | float (x : Double)
  | truth (b : Bool)
  | datetime (text : String)
  | array (items : List TomlValue)
  | table (members : List (String × TomlValue))

namespace TomlValue

mutual
/-- The JSON value that stands where a shape looks. JSON has no floats that are not finite: null
stands for them in what is kept as JSON, and elsewhere they are refused. A choice may have an empty
table or array under it, and items behind the fields of a record are passed over. -/
def toJson? : Shape → TomlValue → Option Json
  | _, text s => some (.str s)
  | _, integer n => some (.num n)
  | .json, float x => some (.ofDouble x)
  | _, float x => (Number.ofDouble? x).map .num
  | _, truth b => some (.bool b)
  | _, datetime s => some (.obj [(datetimeKey, .str s)])
  | .choice, table [(name, table [])] => some (.obj [(name, .null)])
  | .choice, table [(name, array [])] => some (.obj [(name, .null)])
  | shape, array items => (itemsToJson? shape items).map .arr
  | shape, table members => (membersToJson? shape members).map .obj

def itemsToJson? : Shape → List TomlValue → Option (List Json)
  | _, [] => some []
  | shape, item :: items =>
    match shape.next? with
    | none => some []
    | some (first, rest) => do return (← item.toJson? first) :: (← itemsToJson? rest items)

def membersToJson? : Shape → List (String × TomlValue) → Option (List (String × Json))
  | _, [] => some []
  | shape, (key, value) :: members =>
    match shape.member? key with
    | none => membersToJson? shape members
    | some part => do return (key, ← value.toJson? part) :: (← membersToJson? shape members)
end

end TomlValue

/-- How a table came to be: by a header of its own, on the way to a deeper header, or on the way
through a dotted key. -/
inductive TableOrigin where
  | header | passing | dotted
deriving DecidableEq

inductive TomlNode where
  | value (v : TomlValue)
  | table (origin : TableOrigin) (members : List (String × TomlNode))
  | tables (earlier : List (List (String × TomlNode))) (last : List (String × TomlNode))

abbrev TomlMembers := List (String × TomlNode)

inductive TomlStatement where
  | header (path : List String)
  | arrayHeader (path : List String)
  | assign (path : List String) (value : TomlValue)

namespace TomlMembers

/-- Put a node under a key, in its place if the key is there and at the end otherwise. -/
def set (key : String) (node : TomlNode) : TomlMembers → TomlMembers
  | [] => [(key, node)]
  | (k, n) :: rest => if k = key then (k, node) :: rest else (k, n) :: set key node rest

/-- Change the table at the end of a path, creating the tables on the way. A dotted key only walks
through tables that no header has opened. -/
def descend (dotted : Bool) (change : TableOrigin → TomlMembers → Option TomlMembers) :
    List String → TableOrigin → TomlMembers → Option TomlMembers
  | [], origin, members => change origin members
  | key :: path, _, members => do
    let node ← match Table.get? members key with
      | none =>
        let origin := if dotted then .dotted else .passing
        (descend dotted change path origin []).map (.table origin)
      | some (.table origin inner) =>
        if dotted && origin == .header then none
        else (descend dotted change path origin inner).map (.table origin)
      | some (.tables earlier last) =>
        (descend dotted change path .header last).map (.tables earlier)
      | some (.value _) => none
    return set key node members

def splitLast (path : List String) : Option (List String × String) :=
  path.getLast?.map (path.dropLast, ·)

/-- Open a table by its header; a table that was only passed through may still be opened. -/
def openTable (path : List String) (root : TomlMembers) : Option TomlMembers := do
  let (front, key) ← splitLast path
  root.descend false (fun _ members =>
    match Table.get? members key with
    | none => some (members.set key (.table .header []))
    | some (.table .passing inner) => some (members.set key (.table .header inner))
    | some _ => none) front .header

def openElement (path : List String) (root : TomlMembers) : Option TomlMembers := do
  let (front, key) ← splitLast path
  root.descend false (fun _ members =>
    match Table.get? members key with
    | none => some (members.set key (.tables [] []))
    | some (.tables earlier last) => some (members.set key (.tables (earlier ++ [last]) []))
    | some _ => none) front .header

def assign (path : List String) (node : TomlNode) (origin : TableOrigin) (members : TomlMembers) :
    Option TomlMembers := do
  let (front, key) ← splitLast path
  members.descend true (fun origin inner =>
    if (origin == .dotted) == front.isEmpty then none
    else match Table.get? inner key with
      | none => some (inner.set key node)
      | some _ => none) front origin

end TomlMembers

namespace TomlNode

mutual
def toValue : TomlNode → TomlValue
  | value v => v
  | table _ members => .table (membersToValues members)
  | tables earlier last =>
    .array (tablesToValues earlier ++ [.table (membersToValues last)])

def membersToValues : List (String × TomlNode) → List (String × TomlValue)
  | [] => []
  | (key, node) :: members => (key, node.toValue) :: membersToValues members

def tablesToValues : List (List (String × TomlNode)) → List TomlValue
  | [] => []
  | members :: rest => .table (membersToValues members) :: tablesToValues rest
end

end TomlNode

def TomlValue.ofAssignments? (assignments : List (List String × TomlValue)) : Option TomlValue := do
  let members ← assignments.foldlM
    (fun members (path, v) => TomlMembers.assign path (.value v) .header members) []
  return .table (TomlNode.membersToValues members)

structure TomlDocument where
  root : TomlMembers
  current : List String

namespace TomlDocument

def apply (d : TomlDocument) : TomlStatement → Option TomlDocument
  | .header path => do return ⟨← d.root.openTable path, path⟩
  | .arrayHeader path => do return ⟨← d.root.openElement path, path⟩
  | .assign path value => do
    let root ← d.root.descend false (TomlMembers.assign path (.value value)) d.current .header
    return ⟨root, d.current⟩

def ofStatements? (statements : List TomlStatement) : Option TomlValue := do
  let d ← statements.foldlM apply ⟨[], []⟩
  return .table (TomlNode.membersToValues d.root)

end TomlDocument
end RowPolicy
