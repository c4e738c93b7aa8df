import RowPolicy.Action
import RowPolicy.Actor
import RowPolicy.JsonText

/-!
The audit trail: one event for each decision, with the actor it was made for.
-/
namespace RowPolicy

/-- What an audit event says of a decision. -/
inductive Ruling where
  | allow | restrict | deny | notImplemented | timeout
deriving DecidableEq

def Ruling.name : Ruling → String
  | allow => "allow"
  | restrict => "restrict"
  | deny => "deny"
  | notImplemented => "not_implemented"
  | timeout => "timeout"

structure Event where
  model : String
  action : Action
  session : Option String
  subjects : List String
  ruling : Ruling
  rules : List String
deriving DecidableEq

/-- The subjects of an actor as they are recorded, each by its type and id, sorted. -/
def Actor.recordedSubjects (a : Actor) : List String :=
  (a.subjects.map fun (_, s) => s.type ++ ":" ++ s.id.toJson.text).mergeSort fun s t =>
    decide (s ≤ t)

def Actor.event (a : Actor) (model : String) (action : Action) (ruling : Ruling)
    (rules : List String) : Event :=
  ⟨model, action, a.session, a.recordedSubjects, ruling, rules⟩

def Event.toJson (e : Event) : Json :=
  .obj [("action", .str e.action.name), ("kind", .str e.ruling.name), ("model", .str e.model),
    ("rules", .ofStrings e.rules), ("session_id", .ofOption .str e.session),
    ("subjects", .ofStrings e.subjects)]

/-- The events on record, the latest last. -/
structure Trail where
  events : List Event := []

namespace Trail

def record (t : Trail) (e : Event) : Trail := ⟨t.events ++ [e]⟩

def size (t : Trail) : Nat := t.events.length

def clear (_ : Trail) : Trail := {}

end Trail
end RowPolicy
