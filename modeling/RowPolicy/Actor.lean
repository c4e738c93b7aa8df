import RowPolicy.Form
import RowPolicy.Scalar

/-!
Actors: the callers that queries are compiled for. An actor may act as one subject of each type,
holds roles, and carries claims and a session.
-/
namespace RowPolicy

structure Subject where
  type : String
  model : String
  id : Scalar
deriving DecidableEq

/-- Put a name into a sorted list without repetitions. -/
def insertName (name : String) : List String → List String
  | [] => [name]
  | n :: names =>
    if name = n then n :: names
    else if name < n then name :: n :: names
    else n :: insertName name names

@[simp] theorem mem_insertName (name n : String) (names : List String) :
    n ∈ insertName name names ↔ n = name ∨ n ∈ names := by
  induction names with
  | nil => simp [insertName]
  | cons m names ih =>
    simp only [insertName]
    split
    · simp_all
    · split
      · simp
      · simp only [List.mem_cons, ih]; exact or_left_comm

/-- Roles are sorted; subjects and claims are tables by type and by name. -/
structure Actor where
  authenticated : Bool := false
  subjects : Table Subject := []
  roles : List String := []
  claims : Table Json := []
  session : Option String := none

namespace Actor

def anonymous : Actor := {}

def withSubject (a : Actor) (s : Subject) : Actor :=
  { a with subjects := Table.insert s.type s a.subjects }

def withRole (a : Actor) (role : String) : Actor := { a with roles := insertName role a.roles }

def withClaim (a : Actor) (name : String) (value : Json) : Actor :=
  { a with claims := Table.insert name value a.claims }

def withSession (a : Actor) (session : String) : Actor := { a with session := some session }

def subject? (a : Actor) (type : String) : Option Subject := Table.get? a.subjects type

def hasRole (a : Actor) (role : String) : Bool := a.roles.contains role

def claim? (a : Actor) (name : String) : Option Json := Table.get? a.claims name

end Actor

/-- What a compiled query records of its actor. -/
structure Identity where
  authenticated : Bool
  subjects : Table Subject
  session : Option String
deriving DecidableEq

def Actor.identity (a : Actor) : Identity := ⟨a.authenticated, a.subjects, a.session⟩

namespace Subject

def form : Form Subject := .record <|
  Subject.mk <$> .required "type" .text <*> .required "model" .text
    <*> .required "id" ⟨.plain, Scalar.ofJson?⟩

def toJson (s : Subject) : Json :=
  .obj [("id", s.id.toJson), ("model", .str s.model), ("type", .str s.type)]

end Subject

def Identity.toJson (i : Identity) : Json :=
  .obj [("authenticated", .bool i.authenticated), ("session_id", .ofOption .str i.session),
    ("subjects", .obj (i.subjects.map fun (key, s) => (key, s.toJson)))]

namespace Actor

/-- An actor from parts that need not be sorted; of a repeated key the last value stands. -/
def ofParts (authenticated : Bool) (subjects : Table Subject) (roles : List String)
    (claims : Table Json) (session : Option String) : Actor where
  authenticated
  subjects := Table.ofList subjects
  roles := roles.foldr insertName []
  claims := Json.tidyMembers [] claims
  session

def form : Form Actor := .record <|
  ofParts <$> .withDefault "is_authenticated" false .truth
    <*> .withDefault "subjects" [] (.table Subject.form)
    <*> .withDefault "roles" [] (.list .text) <*> .withDefault "claims" [] (.table .json)
    <*> .optional "session_id" .text

def toJson (a : Actor) : Json :=
  .obj [("claims", .obj a.claims), ("is_authenticated", .bool a.authenticated),
    ("roles", .ofStrings a.roles), ("session_id", .ofOption .str a.session),
    ("subjects", .obj (a.subjects.map fun (key, s) => (key, s.toJson)))]

end Actor
end RowPolicy
