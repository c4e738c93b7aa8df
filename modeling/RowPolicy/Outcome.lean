import RowPolicy.Actor
import RowPolicy.Duration
import RowPolicy.Filter

/-!
Rules and what they say. A rule looks at an actor and allows all rows, denies all, or restricts
them by a filter. It may take its time, and one that waits for the end of its evaluation never
answers by itself.
-/
namespace RowPolicy

inductive Outcome where
  | allow
  | deny
  | restrict (filter : Filter)
deriving DecidableEq

/-- What a rule says, and how long it waits before it does; without a time it waits for ever. -/
structure Response where
  wait : Option Milliseconds
  outcome : Outcome
deriving DecidableEq

/-- A rule; its own time limit, if it has one, stands in for the general one. -/
structure Rule where
  name : String
  timeout : Option Milliseconds
  respond : Actor → Response

def Rule.ofOutcome (name : String) (outcome : Actor → Outcome) : Rule :=
  ⟨name, none, fun actor => ⟨some 0, outcome actor⟩⟩

end RowPolicy
