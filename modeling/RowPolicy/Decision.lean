import RowPolicy.Policies
import RowPolicy.QueryReader
import RowPolicy.Run
import RowPolicy.Schedule

/-!
Decisions on access to a model. All rules for a model and an action are asked, and their replies
are taken in as they arrive: a denial ends the decision, a rule that ran out of time fails it once
no denial can come any more, and otherwise the restrictions hold together. A restriction that is
not valid for the model denies.
-/
namespace RowPolicy

structure Decision where
  outcome : Outcome
  rules : List String
deriving DecidableEq

/-- The answer of a rule as it reaches the engine; nothing if the rule ran out of its time. -/
structure Reply where
  rule : String
  budget : Milliseconds
  outcome : Option Outcome
deriving DecidableEq

inductive Verdict where
  | decided (decision : Decision)
  | timedOut (rule : String) (budget : Milliseconds)
deriving DecidableEq

def Verdict.ruling : Verdict → Ruling
  | decided ⟨.allow, _⟩ => .allow
  | decided ⟨.deny, _⟩ => .deny
  | decided ⟨.restrict _, _⟩ => .restrict
  | timedOut _ _ => .timeout

def Verdict.rules : Verdict → List String
  | decided d => d.rules
  | timedOut rule _ => [rule]

/-- What has come in so far: the checked restrictions, each under the place of its rule, and the
first rule that ran out of time with its budget. -/
structure Tally where
  restrictions : List (Nat × String × Filter) := []
  timedOut : Option (String × Milliseconds) := none

namespace Tally

/-- Take in the reply of the rule at a place; nothing if it denies, or if its restriction does not
pass the check. -/
def add? (check : Filter → Option Filter) (t : Tally) (r : Reply) (place : Nat) : Option Tally :=
  match r.outcome with
  | none => some { t with timedOut := t.timedOut <|> some (r.rule, r.budget) }
  | some .allow => some t
  | some .deny => none
  | some (.restrict f) =>
    (check f).map fun f => { t with restrictions := t.restrictions ++ [(place, r.rule, f)] }

/-- The verdict when all replies have come in. Restrictions hold together in the order of their
rules, however they arrived. -/
def verdict (rules : List String) (t : Tally) : Verdict :=
  match t.timedOut with
  | some (rule, budget) => .timedOut rule budget
  | none =>
    let restrictions := (Schedule.sortByKey t.restrictions).map (·.2)
    let filter := Filter.conj (restrictions.map (·.2))
    if filter.isMatchAll then .decided ⟨.allow, rules⟩
    else .decided ⟨.restrict filter, restrictions.map (·.1)⟩

end Tally

abbrev Arrival := Milliseconds × Reply × Nat

/-- Take the replies in as they arrive, up to the first that denies; the verdict on the rules, and
the time at which it stands. -/
def takeIn (check : Filter → Option Filter) (rules : List String) (t : Tally)
    (elapsed : Milliseconds) : List Arrival → Milliseconds × Verdict
  | [] => (elapsed, t.verdict rules)
  | (time, r, place) :: rest =>
    match t.add? check r place with
    | none => (time, .decided ⟨.deny, [r.rule]⟩)
    | some t => takeIn check rules t time rest

/-- How long a rule takes within its budget, and its reply. A rule that answers just when its time
is up still counts. -/
def Rule.reply (general : Milliseconds) (actor : Actor) (rule : Rule) : Milliseconds × Reply :=
  let budget := rule.timeout.getD general
  let response := rule.respond actor
  match response.wait with
  | none => (budget, ⟨rule.name, budget, none⟩)
  | some wait =>
    if wait ≤ budget then (wait, ⟨rule.name, budget, some response.outcome⟩)
    else (budget, ⟨rule.name, budget, none⟩)

def arrivalOrder (width : Nat) (timed : List (Milliseconds × Reply)) : List Arrival :=
  Schedule.sortByKey
    ((Schedule.finishAll width (timed.map (·.1))).zip (timed.map (·.2)).zipIdx)

structure Engine where
  schema : Schema
  policies : Policies
  settings : Settings

namespace Engine

def check (e : Engine) (model : String) (f : Filter) : Option Filter :=
  (e.schema.checkFilter e.settings.limits.filterDepth.toNat model f).toOption

def replies (e : Engine) (actor : Actor) (rules : List Rule) : List (Milliseconds × Reply) :=
  rules.map (Rule.reply e.settings.policy.budget actor)

def conclude (actor : Actor) (model : String) (action : Action) (verdict : Verdict) :
    Run Decision := do
  Run.record (actor.event model action verdict.ruling verdict.rules)
  match verdict with
  | .decided decision => return decision
  | .timedOut rule budget => .fail (.policyTimeout model action.name rule budget)

/-- Decide on access to a model, where `arrive` says how the replies of the rules come in. Without
any rule access is open, unless a rule is required. -/
def decideAs (arrive : List (Milliseconds × Reply) → List Arrival) (e : Engine) (model : String)
    (action : Action) (actor : Actor) : Run Decision :=
  if !e.schema.contains model then .fail (.unknownModel model)
  else match e.policies.lookup model action with
    | some rules => do
      let (elapsed, verdict) :=
        takeIn (e.check model) (rules.map (·.name)) {} 0 (arrive (e.replies actor rules))
      Run.wait elapsed
      conclude actor model action verdict
    | none =>
      if e.policies.requires model action then do
        Run.record (actor.event model action .notImplemented [])
        .fail (.rlsNotImplemented model action.name)
      else conclude actor model action (.decided ⟨.allow, []⟩)

def decide (e : Engine) : String → Action → Actor → Run Decision :=
  e.decideAs (arrivalOrder e.settings.policy.concurrency.toNat)

end Engine
end RowPolicy
