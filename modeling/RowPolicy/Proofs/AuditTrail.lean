import Mathlib.Data.List.Forall2
import RowPolicy.Proofs.Refusal

/-!
What is left on record. A decision on a registered model leaves one event behind, which reports how
the decision ended. Main statement: the events of a compilation report its decisions one by one, in
the order in which they are asked for, up to the first that does not let the query through.
-/
namespace RowPolicy

namespace Run

variable {α β : Type}

@[simp] theorem recorded_pure (a : α) : (Pure.pure a : Run α).finish.recorded = [] := rfl

@[simp] theorem recorded_fail (e : Error) : (fail e : Run α).finish.recorded = [] := rfl

@[simp] theorem recorded_record (e : Event) : (record e).finish.recorded = [e] := rfl

@[simp] theorem recorded_wait (duration : Milliseconds) : (wait duration).finish.recorded = [] := rfl

@[simp] theorem recorded_bind (x : Run α) (f : α → Run β) :
    (x >>= f).finish.recorded = x.finish.recorded ++
      match x.result with
      | .ok a => (f a).finish.recorded
      | .error _ => [] := by
  rw [finish_bind, Trace.andThen, result]
  cases x.finish.result <;> simp [Trace.recorded, Function.comp_def]

theorem recorded_bind_pure (x : Run α) (f : α → β) :
    (x >>= fun a => Pure.pure (f a)).finish.recorded = x.finish.recorded := by
  rw [recorded_bind]
  cases x.result <;> simp

end Run

theorem Trail.events_foldl_record (t : Trail) (events : List Event) :
    (events.foldl Trail.record t).events = t.events ++ events := by
  induction events generalizing t with
  | nil => simp
  | cons event events ih => rw [List.foldl_cons, ih, record, List.append_assoc]; rfl

namespace Actor

theorem recordedSubjects_perm (a : Actor) : a.recordedSubjects.Perm
    (a.subjects.map fun (_, s) => s.type ++ ":" ++ s.id.toJson.text) :=
  List.mergeSort_perm _ _

theorem recordedSubjects_pairwise (a : Actor) : a.recordedSubjects.Pairwise (· ≤ ·) := by
  have htrans : ∀ s t u : String, decide (s ≤ t) = true → decide (t ≤ u) = true →
      decide (s ≤ u) = true := by
    intro s t u hst htu
    exact decide_eq_true (String.le_trans (of_decide_eq_true hst) (of_decide_eq_true htu))
  have htotal : ∀ s t : String, (decide (s ≤ t) || decide (t ≤ s)) = true := by
    intro s t
    simpa using String.le_total s t
  exact (List.pairwise_mergeSort htrans htotal _).imp fun h => of_decide_eq_true h

end Actor

namespace Engine

variable (e : Engine) (actor : Actor)

/-- The ruling and the rules that are reported of a decision that ends in some way. Of one on an
unknown model there is nothing to report. -/
def entry? : Except Error Decision → Option (Ruling × List String)
  | .ok ⟨.allow, rules⟩ => some (.allow, rules)
  | .ok ⟨.restrict _, rules⟩ => some (.restrict, rules)
  | .ok ⟨.deny, rules⟩ => some (.deny, rules)
  | .error (.rlsNotImplemented _ _) => some (.notImplemented, [])
  | .error (.policyTimeout _ _ rule _) => some (.timeout, [rule])
  | .error _ => none

/-- The event is about the decision on a request: it says what was asked for, for whom, how the
decision ended and by which rules. -/
structure Reports (request : String × Action) (event : Event) : Prop where
  model : event.model = request.1
  action : event.action = request.2
  session : event.session = actor.session
  subjects : event.subjects.Perm
    (actor.subjects.map fun (_, s) => s.type ++ ":" ++ s.id.toJson.text)
  sorted : event.subjects.Pairwise (· ≤ ·)
  entry : entry? (e.decide request.1 request.2 actor).result = some (event.ruling, event.rules)
  unruled : e.policies.lookup request.1 request.2 = none → event.rules = []

/-- The requests that come to a decision: those up to the first that is refused. -/
def asked : List (String × Action) → List (String × Action)
  | [] => []
  | request :: requests =>
    match e.refusal? actor request with
    | some _ => [request]
    | none => request :: asked requests

/-- The events of the decisions that are come to, each as if it stood alone. -/
def trail (requests : List (String × Action)) : List Event :=
  (e.asked actor requests).flatMap fun request =>
    (e.decide request.1 request.2 actor).finish.recorded

variable {e actor} {model : String} {action : Action}

theorem entry?_result (v : Verdict) :
    entry? (v.result model action) = some (v.ruling, v.rules) := by
  cases v with
  | decided d =>
    obtain ⟨outcome, rules⟩ := d
    cases outcome <;> rfl
  | timedOut rule budget => rfl

theorem recorded_conclude (v : Verdict) : (conclude actor model action v).finish.recorded =
    [actor.event model action v.ruling v.rules] := by
  cases v <;> rfl

theorem reports_event {ruling : Ruling} {rules : List String}
    (hentry : entry? (e.decide model action actor).result = some (ruling, rules))
    (hunruled : e.policies.lookup model action = none → rules = []) :
    e.Reports actor (model, action) (actor.event model action ruling rules) where
  model := rfl
  action := rfl
  session := rfl
  subjects := actor.recordedSubjects_perm
  sorted := actor.recordedSubjects_pairwise
  entry := hentry
  unruled := hunruled

theorem recorded_decide_of_unregistered (h : e.schema.contains model = false) :
    (e.decide model action actor).finish.recorded = [] := by
  simp [decide, decideAs, h]

theorem recorded_decide_of_rules {rules : List Rule}
    (registered : e.schema.contains model = true)
    (listed : e.policies.lookup model action = some rules) (actor : Actor) :
    ∃ v : Verdict, (e.decide model action actor).result = v.result model action ∧
      (e.decide model action actor).finish.recorded =
        [actor.event model action v.ruling v.rules] := by
  refine ⟨_, result_decideAs_of_rules registered listed, ?_⟩
  simp [decide, decideAs, registered, listed, recorded_conclude, -Run.finish_bind]

theorem recorded_decide_of_no_rules (registered : e.schema.contains model = true)
    (listed : e.policies.lookup model action = none) :
    (e.decide model action actor).finish.recorded = [actor.event model action
      (if e.policies.requires model action then .notImplemented else .allow) []] := by
  cases hrequired : e.policies.requires model action <;>
    simp [decide, decideAs, registered, listed, hrequired, recorded_conclude, Verdict.ruling,
      Verdict.rules, -Run.finish_bind]

theorem exists_report_of_decide (registered : e.schema.contains model = true) :
    ∃ event, (e.decide model action actor).finish.recorded = [event] ∧
      e.Reports actor (model, action) event := by
  cases listed : e.policies.lookup model action with
  | some rules =>
    obtain ⟨v, hresult, hrecorded⟩ := recorded_decide_of_rules registered listed actor
    refine ⟨_, hrecorded, reports_event ?_ ?_⟩
    · rw [hresult, entry?_result]
    · rw [listed]
      exact nofun
  | none =>
    refine ⟨_, recorded_decide_of_no_rules registered listed, reports_event ?_ fun _ => rfl⟩
    rw [decide, result_decideAs_of_no_rules registered listed]
    split <;> rfl

theorem reports_decide (request : String × Action) :
    List.Forall₂ (e.Reports actor) ([request].filter (e.schema.contains ·.1))
      (e.decide request.1 request.2 actor).finish.recorded := by
  cases registered : e.schema.contains request.1 with
  | true =>
    obtain ⟨event, hrecorded, hreports⟩ := exists_report_of_decide (e := e) registered
    rw [hrecorded, List.filter_singleton, registered]
    exact .cons hreports .nil
  | false =>
    rw [recorded_decide_of_unregistered registered, List.filter_singleton, registered]
    exact .nil

theorem reports_trail (requests : List (String × Action)) :
    List.Forall₂ (e.Reports actor) ((e.asked actor requests).filter (e.schema.contains ·.1))
      (e.trail actor requests) := by
  rw [trail]
  induction e.asked actor requests with
  | nil => exact .nil
  | cons request asked ih =>
    rw [← List.singleton_append, List.filter_append, List.flatMap_append, List.flatMap_singleton]
    exact List.rel_append (reports_decide request) ih

theorem asked_append (requests more : List (String × Action)) :
    e.asked actor (requests ++ more) = e.asked actor requests ++
      if (requests.findSome? (e.refusal? actor)).isNone then e.asked actor more else [] := by
  induction requests with
  | nil => simp [asked]
  | cons request requests ih =>
    cases hrefusal : e.refusal? actor request with
    | some error => simp [asked, hrefusal]
    | none =>
      rw [List.findSome?_cons, hrefusal]
      simp [asked, hrefusal, ih]

theorem recorded_bind_eq_trail {α β : Type} {x : Run α} {f : α → Run β}
    {requests more : List (String × Action)}
    (herror : Result.error? x.result = requests.findSome? (e.refusal? actor))
    (hx : x.finish.recorded = e.trail actor requests)
    (hf : ∀ a, (f a).finish.recorded = e.trail actor more) :
    (x >>= f).finish.recorded = e.trail actor (requests ++ more) := by
  rw [Run.recorded_bind, hx, trail, trail, asked_append, List.flatMap_append, ← herror]
  cases x.result with
  | ok a => simp [hf, trail]
  | error error => simp

theorem trail_singleton (request : String × Action) : e.trail actor [request] =
    (e.decide request.1 request.2 actor).finish.recorded := by
  have hasked : e.asked actor [request] = [request] := by
    rw [asked]
    split <;> rfl
  rw [trail, hasked, List.flatMap_singleton]

variable (e actor)

theorem recorded_restriction (model : String) (action : Action) :
    (e.restriction model action actor).finish.recorded = e.trail actor [(model, action)] := by
  rw [trail_singleton, restriction, Run.recorded_bind]
  cases (e.decide model action actor).result with
  | error error => simp
  | ok decision => cases houtcome : decision.outcome <;> simp [houtcome]

theorem recorded_compileJunction (r : Relation) : (e.compileJunction actor r).finish.recorded =
    e.trail actor (r.through.toList.map (·, .read)) := by
  rw [compileJunction]
  cases r.through with
  | none => rfl
  | some model => exact (Run.recorded_bind_pure _ _).trans (recorded_restriction e actor model .read)

mutual
theorem recorded_compileNode (action : Action) : (q : Query) →
    (e.compileNode actor action q).finish.recorded = e.trail actor (q.requests action)
  | ⟨model, filter, includes, sort, page⟩ => by
    have hincludes := recorded_compileIncludes includes
    rw [compileNode, Query.requests, ← List.singleton_append]
    refine recorded_bind_eq_trail ?_ (recorded_restriction e actor model action) fun security => ?_
    · rw [error?_restriction, List.findSome?_singleton]
    · rw [Run.recorded_bind_pure]
      exact hincludes

theorem recorded_compileIncludes : (includes : List (Include Query)) →
    (e.compileIncludes actor includes).finish.recorded = e.trail actor (includesRequests includes)
  | [] => rfl
  | ⟨relation, query⟩ :: includes => by
    have hquery := recorded_compileNode .read query
    have hincludes := recorded_compileIncludes includes
    rw [compileIncludes, includesRequests]
    refine recorded_bind_eq_trail (error?_compileJunction e actor relation)
      (recorded_compileJunction e actor relation) fun junction => ?_
    refine recorded_bind_eq_trail (error?_compileNode e actor .read query) hquery fun compiled => ?_
    rw [Run.recorded_bind_pure]
    exact hincludes
end

/-- The audit trail is complete and faithful: a compilation adds to what is on record one event for
each decision that it comes to on a registered model, in the order of the decisions, and each event
reports its decision. -/
theorem audited_compile (t : Trail) (action : Action) (q : Query) :
    ∃ events, ((e.compile action q actor).finish.recorded.foldl Trail.record t).events =
        t.events ++ events ∧
      List.Forall₂ (e.Reports actor)
        ((e.asked actor (q.requests action)).filter (e.schema.contains ·.1)) events := by
  refine ⟨_, t.events_foldl_record _, ?_⟩
  have hrecorded : (e.compile action q actor).finish.recorded = e.trail actor (q.requests action) :=
    recorded_compileNode e actor action q
  rw [hrecorded]
  exact reports_trail _

/-- Without rules the customers are open, and the orders, which need one, end the compilation. -/
example : (bareEngine.compile .update customersWithOrders .anonymous).finish.recorded =
    [⟨"customer", .update, none, [], .allow, []⟩,
      ⟨"order", .read, none, [], .notImplemented, []⟩] := by decide +kernel

end Engine
end RowPolicy
