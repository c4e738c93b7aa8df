import RowPolicy.Json

/-!
Forms of data. A form says which parts of a value matter and what they mean, so the same data can
be read from a JSON value, from JSON text and from a TOML document. A record is an object whose
members are found by name, each field at most once and further members being ignored, or a list
that holds the fields in the order of their declaration and nothing else.
-/
namespace RowPolicy

/-- The parts of a value that matter. All of a value that is kept as JSON does, and so does all of
a plain value; a choice is a name, possibly with something under it. -/
inductive Shape where
  | json
  | plain
  | choice
  | list (item : Shape)
  | table (member : Shape)
  | record (fields : List (String × Shape))

namespace Shape

def member? (key : String) : Shape → Option Shape
  | record fields => Table.get? fields key
  | table member => some member
  | json => some json
  | _ => some plain

/-- What matters of the next item of a list, and of the list behind it; nothing once the fields of
a record are used up. -/
def next? : Shape → Option (Shape × Shape)
  | record [] => none
  | record ((_, field) :: fields) => some (field, record fields)
  | list item => some (item, list item)
  | json => some (json, json)
  | _ => some (plain, plain)

end Shape

/-- Where to look in a value, and what is found there; nothing if the value is ill-formed. -/
structure Form (α : Type) where
  shape : Shape
  ofJson? : Json → Option α

inductive Record where
  | named (members : Table Json)
  | listed (items : List Json)

structure Fields (α : Type) where
  shapes : List (String × Shape)
  read? : Record → Option (α × Record)

namespace Json

/-- The record a value holds; a list must be used up. -/
def record? {α : Type} (read? : Record → Option (α × Record)) : Json → Option α
  | .obj members => (read? (.named members)).map (·.1)
  | .arr items =>
    match read? (.listed items) with
    | some (a, .listed []) => some a
    | _ => none
  | _ => none

def listOf? {α : Type} (read : Json → Option α) (j : Json) : Option (List α) :=
  j.arr?.bind (·.mapM read)

def tableOf? {α : Type} (read : Json → Option α) (j : Json) : Option (Table α) :=
  j.obj?.bind (·.mapM fun (key, value) => (read value).map (key, ·))

/-- A name, or an object whose only key is the name and that holds nothing under it. -/
def nameOf? {α : Type} (isNothing : Json → Bool) (ofName? : String → Option α) : Json → Option α
  | .str name => ofName? name
  | .obj [(name, value)] => if isNothing value then ofName? name else none
  | _ => none

def isNullOrEmpty : Json → Bool
  | .null => true
  | .obj [] => true
  | _ => false

def orNull {α : Type} (read : Json → Option α) : Json → Option (Option α)
  | .null => some none
  | j => (read j).map some

end Json

namespace Form

def json : Form Json := ⟨.json, some⟩

def text : Form String := ⟨.plain, Json.str?⟩

def truth : Form Bool := ⟨.plain, Json.bool?⟩

def count : Form UInt64 := ⟨.plain, Json.uint64?⟩

def list {α : Type} (item : Form α) : Form (List α) :=
  ⟨.list item.shape, Json.listOf? item.ofJson?⟩

def table {α : Type} (member : Form α) : Form (Table α) :=
  ⟨.table member.shape, Json.tableOf? member.ofJson?⟩

def choice {α : Type} (ofName? : String → Option α) : Form α :=
  ⟨.choice, Json.nameOf? Json.isNull ofName?⟩

/-- One of several names, in a record whose fields stand among those of another one; an empty
object under the name is as good as null there. -/
def embeddedChoice {α : Type} (ofName? : String → Option α) : Form α :=
  ⟨.plain, Json.nameOf? Json.isNullOrEmpty ofName?⟩

def record {α : Type} (fields : Fields α) : Form α :=
  ⟨.record fields.shapes, Json.record? fields.read?⟩

def object {α : Type} (fields : Fields α) : Form α where
  shape := .record fields.shapes
  ofJson?
    | .obj members => Json.record? fields.read? (.obj members)
    | _ => none

end Form

namespace Fields

instance : Applicative Fields where
  pure a := ⟨[], fun record => some (a, record)⟩
  map f x := ⟨x.shapes, fun record => (x.read? record).map fun (a, rest) => (f a, rest)⟩
  seq f x := ⟨f.shapes ++ (x ()).shapes, fun record =>
    (f.read? record).bind fun (g, rest) =>
      ((x ()).read? rest).map fun (a, rest) => (g a, rest)⟩

/-- A field of which `unnamed` and `unlisted` say what an absent one means, by name and in a
list. -/
def field {α : Type} (name : String) (form : Form α) (unnamed unlisted : Option α) : Fields α where
  shapes := [(name, form.shape)]
  read?
    | .named members =>
      (match Table.getAll members name with
        | [] => unnamed
        | [j] => form.ofJson? j
        | _ => none).map (·, .named members)
    | .listed (j :: items) => (form.ofJson? j).map (·, .listed items)
    | .listed [] => unlisted.map (·, .listed [])

def required {α : Type} (name : String) (form : Form α) : Fields α := field name form none none

def withDefault {α : Type} (name : String) (missing : α) (form : Form α) : Fields α :=
  field name form (some missing) (some missing)

def optional {α : Type} (name : String) (form : Form α) : Fields (Option α) :=
  withDefault name none ⟨form.shape, Json.orNull form.ofJson?⟩

/-- A field that may be null or left out of an object, but has its place in a list. -/
def nullable {α : Type} (name : String) (form : Form α) : Fields (Option α) :=
  field name ⟨form.shape, Json.orNull form.ofJson?⟩ (some none) none

end Fields
end RowPolicy
