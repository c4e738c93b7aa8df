import RowPolicy.Compilation
import RowPolicy.Proofs.Composition

/-!
When compilation refuses a query. Compiling asks for decisions in a fixed order: on the query
itself, then for each include on the junction it is routed through and on the query over its
target. Main statement: a query is compiled exactly when all these decisions let it through, and
otherwise the first that does not gives the error.
-/
namespace RowPolicy

mutual
/-- What has to be decided before a query may run, each a model and an action. -/
def Query.requests (action : Action) : Query → List (String × Action)
  | ⟨model, _, includes, _, _⟩ => (model, action) :: includesRequests includes

def includesRequests : List (Include Query) → List (String × Action)
  | [] => []
  | ⟨relation, query⟩ :: includes =>
    relation.through.toList.map (·, .read) ++ (query.requests .read ++ includesRequests includes)
end

namespace Engine

variable (e : Engine) (actor : Actor)

def Grants (request : String × Action) : Prop :=
  ∃ decision, (e.decide request.1 request.2 actor).result = .ok decision ∧ decision.outcome ≠ .deny

def refusal? (request : String × Action) : Option Error :=
  match (e.decide request.1 request.2 actor).result with
  | .error error => some error
  | .ok ⟨.deny, rules⟩ => some (.policyDenied request.1 request.2.name rules)
  | .ok ⟨.allow, _⟩ => none
  | .ok ⟨.restrict _, _⟩ => none

variable {e actor}

theorem refusal?_eq_none_iff {request : String × Action} :
    e.refusal? actor request = none ↔ e.Grants actor request := by
  unfold refusal? Grants
  split <;> simp_all

theorem refusal?_of_error {request : String × Action} {error : Error}
    (h : (e.decide request.1 request.2 actor).result = .error error) :
    e.refusal? actor request = some error := by
  simp [refusal?, h]

theorem refusal?_of_deny {request : String × Action} {rules : List String}
    (h : (e.decide request.1 request.2 actor).result = .ok ⟨.deny, rules⟩) :
    e.refusal? actor request = some (.policyDenied request.1 request.2.name rules) := by
  simp [refusal?, h]

variable (e actor)

theorem error?_restriction (model : String) (action : Action) :
    Result.error? (e.restriction model action actor).result = e.refusal? actor (model, action) := by
  simp only [restriction, Run.result_bind, refusal?]
  split <;> simp_all

theorem error?_compileJunction (r : Relation) :
    Result.error? (e.compileJunction actor r).result =
      (r.through.toList.map (·, Action.read)).findSome? (e.refusal? actor) := by
  unfold compileJunction
  cases r.through with
  | none => rfl
  | some model => simp [error?_restriction]

mutual
theorem error?_compileNode (action : Action) : (q : Query) →
    Result.error? (e.compileNode actor action q).result =
      (q.requests action).findSome? (e.refusal? actor)
  | ⟨model, filter, includes, sort, page⟩ => by
    have hincludes := error?_compileIncludes includes
    calc Result.error? (e.compileNode actor action ⟨model, filter, includes, sort, page⟩).result
      _ = (Result.error? (e.restriction model action actor).result).or
            (Result.error? (e.compileIncludes actor includes).result) := by
          simp only [compileNode, Run.result_bind, Run.result_pure]
          exact Result.error?_bind fun _ => Result.error?_bind_ok
      _ = ([(model, action)] ++ includesRequests includes).findSome? (e.refusal? actor) := by
          rw [error?_restriction, hincludes, List.findSome?_append, List.findSome?_singleton]

theorem error?_compileIncludes : (includes : List (Include Query)) →
    Result.error? (e.compileIncludes actor includes).result =
      (includesRequests includes).findSome? (e.refusal? actor)
  | [] => rfl
  | ⟨relation, query⟩ :: includes => by
    have hquery := error?_compileNode .read query
    have hincludes := error?_compileIncludes includes
    simp only [compileIncludes, includesRequests, Run.result_bind, Run.result_pure,
      List.findSome?_append, ← hquery, ← hincludes, ← error?_compileJunction]
    exact Result.error?_bind fun _ => Result.error?_bind fun _ => Result.error?_bind_ok
end

variable {e actor}

theorem compile_eq_ok_iff {action : Action} {q : Query} :
    (∃ c, (e.compile action q actor).result = .ok c) ↔
      ∀ request ∈ q.requests action, e.Grants actor request := by
  rw [← Result.error?_eq_none_iff, compile, Run.result_unlessCancelled, error?_compileNode,
    List.findSome?_eq_none_iff]
  simp only [refusal?_eq_none_iff]

theorem compile_eq_error_of_refusal {action : Action} {q : Query} {request : String × Action}
    {before after : List (String × Action)} {error : Error}
    (hrequests : q.requests action = before ++ request :: after)
    (hbefore : ∀ b ∈ before, e.Grants actor b)
    (hrefusal : e.refusal? actor request = some error) :
    (e.compile action q actor).result = .error error := by
  have hnone : before.findSome? (e.refusal? actor) = none :=
    List.findSome?_eq_none_iff.mpr fun b hb => refusal?_eq_none_iff.mpr (hbefore b hb)
  rw [← Result.error?_eq_some_iff, compile, Run.result_unlessCancelled, error?_compileNode,
    hrequests, List.findSome?_append, hnone, List.findSome?_cons, hrefusal]
  rfl

/-- What a decision fails with: an unknown model, a missing rule, or one that ran out of time. -/
theorem decide_eq_error {model : String} {action : Action} {error : Error}
    (h : (e.decide model action actor).result = .error error) :
    error = .unknownModel model ∨ error = .rlsNotImplemented model action.name ∨
      ∃ rule budget, error = .policyTimeout model action.name rule budget := by
  change (e.decideAs _ model action actor).result = _ at h
  cases registered : e.schema.contains model with
  | false =>
    rw [result_decideAs_of_unregistered registered] at h
    exact .inl (Except.error.inj h).symm
  | true =>
    cases listed : e.policies.lookup model action with
    | none =>
      rw [result_decideAs_of_no_rules registered listed] at h
      split at h
      · exact .inr (.inl (Except.error.inj h).symm)
      · cases h
    | some rules =>
      rw [result_decideAs_of_rules registered listed] at h
      revert h
      cases (takeIn _ _ _ _ _).2 with
      | decided d => exact nofun
      | timedOut rule budget => exact fun h => .inr (.inr ⟨rule, budget, (Except.error.inj h).symm⟩)

theorem not_grants_of_required {request : String × Action}
    (hrules : e.policies.lookup request.1 request.2 = none)
    (hrequired : e.policies.requires request.1 request.2 = true) :
    ¬e.Grants actor request := by
  rintro ⟨decision, hdecision, -⟩
  change (e.decideAs _ request.1 request.2 actor).result = _ at hdecision
  cases registered : e.schema.contains request.1 with
  | false => simp [result_decideAs_of_unregistered registered] at hdecision
  | true => simp [result_decideAs_of_no_rules registered hrules, hrequired] at hdecision

/-- A compilation either has every decision on its way let it through, or ends with what the first
that does not has to say. -/
theorem compile_fails_closed (e : Engine) (q : Query) (action : Action) (actor : Actor) :
    ((∃ c, (e.compile action q actor).result = .ok c) ↔
      ∀ request ∈ q.requests action, e.Grants actor request) ∧
    (∀ before request after, q.requests action = before ++ request :: after →
      (∀ b ∈ before, e.Grants actor b) →
        (∀ error, (e.decide request.1 request.2 actor).result = .error error →
          (e.compile action q actor).result = .error error ∧
            (error = .unknownModel request.1 ∨
              error = .rlsNotImplemented request.1 request.2.name ∨
              ∃ rule budget, error = .policyTimeout request.1 request.2.name rule budget)) ∧
        (∀ rules, (e.decide request.1 request.2 actor).result = .ok ⟨.deny, rules⟩ →
          (e.compile action q actor).result =
            .error (.policyDenied request.1 request.2.name rules))) ∧
    (∀ request ∈ q.requests action, e.policies.lookup request.1 request.2 = none →
      e.policies.requires request.1 request.2 = true →
        ∀ c, (e.compile action q actor).result ≠ .ok c) := by
  refine ⟨compile_eq_ok_iff, ?_, ?_⟩
  · intro before request after hrequests hbefore
    refine ⟨fun error herror => ⟨?_, decide_eq_error herror⟩, fun rules hdeny => ?_⟩
    · exact compile_eq_error_of_refusal hrequests hbefore (refusal?_of_error herror)
    · exact compile_eq_error_of_refusal hrequests hbefore (refusal?_of_deny hdeny)
  · intro request hmem hrules hrequired c hc
    exact not_grants_of_required hrules hrequired (compile_eq_ok_iff.mp ⟨c, hc⟩ request hmem)

/-- Orders must have a rule for reading, and have none; customers stay. -/
def bareEngine : Engine where
  schema := ⟨[⟨"customer", [], [⟨"orders", "order", .many, none⟩], none⟩, ⟨"order", [], [], none⟩],
    true⟩
  policies :=
    { rules := [("customer", [(.delete, [.ofOutcome "keep" fun _ => .deny])])]
      required := [("order", [.read])], isSealed := true }
  settings := {}

def customersWithOrders : Query :=
  ⟨"customer", .matchAll, [⟨⟨"orders", "order", .many, none⟩, .everything "order"⟩], [], {}⟩

/-- An include does not get around a missing rule, and a denial comes before it. -/
theorem bareEngine_compile :
    (customersWithOrders.requests .update = [("customer", .update)] ++ ("order", .read) :: [] ∧
      bareEngine.Grants .anonymous ("customer", .update) ∧
      (bareEngine.decide "order" .read .anonymous).result =
        .error (.rlsNotImplemented "order" "read") ∧
      (bareEngine.compile .update customersWithOrders .anonymous).result =
        .error (.rlsNotImplemented "order" "read")) ∧
    (customersWithOrders.requests .delete = [] ++ ("customer", .delete) :: [("order", .read)] ∧
      (bareEngine.decide "customer" .delete .anonymous).result = .ok ⟨.deny, ["keep"]⟩ ∧
      (bareEngine.compile .delete customersWithOrders .anonymous).result =
        .error (.policyDenied "customer" "delete" ["keep"])) ∧
    bareEngine.policies.lookup "order" .read = none ∧
      bareEngine.policies.requires "order" .read = true ∧
      ∀ c, (bareEngine.compile .update customersWithOrders .anonymous).result ≠ .ok c := by
  have hrequests : customersWithOrders.requests .update =
      [("customer", .update)] ++ ("order", .read) :: [] := rfl
  have hgrants : bareEngine.Grants .anonymous ("customer", .update) :=
    ⟨⟨.allow, []⟩, by rfl, by decide⟩
  have herror : (bareEngine.decide "order" .read .anonymous).result =
      .error (.rlsNotImplemented "order" "read") := by rfl
  have hdeny : (bareEngine.decide "customer" .delete .anonymous).result =
      .ok ⟨.deny, ["keep"]⟩ := by rfl
  obtain ⟨-, hfirst, hrequired⟩ :=
    compile_fails_closed bareEngine customersWithOrders .update .anonymous
  obtain ⟨-, hfirst', -⟩ := compile_fails_closed bareEngine customersWithOrders .delete .anonymous
  refine ⟨⟨hrequests, hgrants, herror, ?_⟩, ⟨rfl, hdeny, ?_⟩, rfl, rfl, ?_⟩
  · exact ((hfirst _ _ _ hrequests (by simpa using hgrants)).1 _ herror).1
  · exact (hfirst' [] ("customer", .delete) [("order", .read)] rfl nofun).2 _ hdeny
  · exact hrequired ("order", .read) (by simp [hrequests]) rfl rfl

end Engine
end RowPolicy
