import RowPolicy.Guard
import RowPolicy.Proofs.RoundTrip

/-!
Policies after they are sealed. Calls that would change them are checked once for each action they
name. Main statement: whatever is called, rules and requirements stay as they were, and every call
that names an action is refused; a call that names none passes and leaves its model behind.
-/
namespace RowPolicy

namespace Table

variable {α : Type} {t : Table α} {k name : String}

theorem mem_keys_update {start : α} {f : α → α} :
    name ∈ keys (update k start f t) ↔ name ∈ keys t ∨ name = k := by
  induction t with
  | nil => simp [update, keys]
  | cons p t ih =>
    obtain ⟨key, value⟩ := p
    by_cases h : key = k
    · simp only [update, h, if_true, keys, List.map_cons, List.mem_cons]
      grind
    · simp only [keys] at ih
      simp only [update, h, if_false, keys, List.map_cons, List.mem_cons, ih]
      grind

end Table

namespace Policies

inductive Call where
  | register (model : String) (action : Action) (rule : Rule)
  | compose (model : String) (action : Action) (rules : List Rule)
  | require (model : String) (actions : List Action)
  | exempt (model : String) (actions : List Action)

namespace Call

def model : Call → String
  | register model _ _ => model
  | compose model _ _ => model
  | require model _ => model
  | exempt model _ => model

def actions : Call → List Action
  | register _ action _ => [action]
  | compose _ action _ => [action]
  | require _ actions => actions
  | exempt _ actions => actions

def result (p : Policies) : Call → Except Error Policies
  | register model action rule => p.register model action rule
  | compose model action rules => p.compose model action rules
  | require model actions => p.require model actions
  | exempt model actions => p.exemptActions model actions

/-- The policies after a call, which are those before it if it is refused. -/
def after (p : Policies) (c : Call) : Policies :=
  match c.result p with
  | .ok q => q
  | .error _ => p

end Call

def run (p : Policies) (calls : List Call) : Policies := calls.foldl Call.after p

/-- The models of the calls that name no action. -/
def idleModels (calls : List Call) : List String :=
  (calls.filter fun c => c.actions.isEmpty).map Call.model

theorem idleModels_append (calls more : List Call) :
    idleModels (calls ++ more) = idleModels calls ++ idleModels more := by
  rw [idleModels, List.filter_append, List.map_append]
  rfl

variable {p q : Policies} {c : Call}

@[simp] theorem lists_update_nil (t : Table (List Action)) (name model : String)
    (action : Action) :
    lists (Table.update name [] (· ++ []) t) model action = lists t model action := by
  unfold lists
  rw [Table.get?_update]
  by_cases h : name = model
  · subst h
    cases Table.get? t name <;> simp
  · simp [h]

/-- Sealed policies that answer as others do and have models of their own besides. -/
structure AnswersAs (q p : Policies) (models : List String) : Prop where
  isSealed : q.isSealed = true
  lookup : ∀ model action, q.lookup model action = p.lookup model action
  requires : ∀ model action, q.requires model action = p.requires model action
  models : ∀ name, name ∈ q.models ↔ name ∈ p.models ∨ name ∈ models

theorem AnswersAs.refl (h : p.isSealed = true) : p.AnswersAs p [] where
  isSealed := h
  lookup _ _ := rfl
  requires _ _ := rfl
  models name := by simp

theorem AnswersAs.trans {r : Policies} {ms ns : List String} (hqr : r.AnswersAs q ns)
    (hpq : q.AnswersAs p ms) : r.AnswersAs p (ms ++ ns) where
  isSealed := hqr.isSealed
  lookup model action := (hqr.lookup model action).trans (hpq.lookup model action)
  requires model action := (hqr.requires model action).trans (hpq.requires model action)
  models name := by rw [hqr.models, hpq.models, List.mem_append, or_assoc]

theorem forM_checkOpen_of_sealed (h : p.isSealed = true) (model : String) (action : Action)
    (actions : List Action) : (action :: actions).forM (p.checkOpen model) =
      .error (.registrySealed ("cannot register policy for " ++ model ++ "." ++ action.name)) := by
  simp [checkOpen, h]

theorem result_of_actions (h : p.isSealed = true) {action : Action} {actions : List Action}
    (hactions : c.actions = action :: actions) : c.result p = .error
      (.registrySealed ("cannot register policy for " ++ c.model ++ "." ++ action.name)) := by
  cases c with
  | register model a rule =>
    cases hactions
    simp [Call.result, Call.model, register, compose, checkOpen, h]
  | compose model a rules =>
    cases hactions
    simp [Call.result, Call.model, compose, checkOpen, h]
  | require model as =>
    cases hactions
    rw [Call.result, require, forM_checkOpen_of_sealed h]
    rfl
  | exempt model as =>
    cases hactions
    rw [Call.result, exemptActions, forM_checkOpen_of_sealed h]
    rfl

/-- A call that names no action is not refused, and only its model stays behind. -/
theorem exists_of_no_actions (h : p.isSealed = true) (hactions : c.actions = []) :
    ∃ q, c.result p = .ok q ∧ q.AnswersAs p [c.model] := by
  cases c with
  | register | compose => cases hactions
  | require model actions | exempt model actions =>
    cases hactions
    refine ⟨_, rfl, h, fun _ _ => rfl, fun m a => ?_, fun name => ?_⟩
    · simp only [requires, lists_update_nil]
    · simp only [models, List.mem_append, Table.mem_keys_update, List.mem_singleton, Call.model]
      grind

theorem answersAs_after (h : p.isSealed = true) (c : Call) :
    (c.after p).AnswersAs p (idleModels [c]) := by
  cases hactions : c.actions with
  | nil =>
    obtain ⟨q, hq, hanswers⟩ := exists_of_no_actions h hactions
    simpa [Call.after, hq, idleModels, hactions] using hanswers
  | cons action actions =>
    have hresult := result_of_actions h hactions
    simpa [Call.after, hresult, idleModels, hactions] using AnswersAs.refl h

theorem answersAs_run (h : p.isSealed = true) (calls : List Call) :
    (run p calls).AnswersAs p (idleModels calls) := by
  induction calls generalizing p with
  | nil => exact AnswersAs.refl h
  | cons c calls ih =>
    have hafter := answersAs_after h c
    have hrun := (ih hafter.isSealed).trans hafter
    rwa [← idleModels_append] at hrun

theorem run_eq_self (h : p.isSealed = true) {calls : List Call}
    (hcalls : ∀ c ∈ calls, c.actions ≠ []) : run p calls = p := by
  induction calls with
  | nil => rfl
  | cons c calls ih =>
    obtain ⟨hc, hcalls⟩ := List.forall_mem_cons.mp hcalls
    obtain ⟨action, actions, hactions⟩ := List.exists_cons_of_ne_nil hc
    have hafter : c.after p = p := by
      rw [Call.after, result_of_actions h hactions]
    rw [run, List.foldl_cons, hafter]
    exact ih hcalls

/-- Sealed policies keep their rules and requirements whatever is called, and refuse every call that
names an action. Their models grow by those of the calls that name none; without such calls nothing
changes at all. -/
theorem run_sealUp (p : Policies) (calls : List Call) :
    (∀ model action, (run p.sealUp calls).lookup model action = p.lookup model action) ∧
      (∀ model action, (run p.sealUp calls).requires model action = p.requires model action) ∧
      (∀ c : Call, (∃ attempt, c.result (run p.sealUp calls) = .error (.registrySealed attempt)) ↔
        c.actions ≠ []) ∧
      (∀ name, name ∈ (run p.sealUp calls).models ↔
        name ∈ p.models ∨ name ∈ idleModels calls) ∧
      ((∀ c ∈ calls, c.actions ≠ []) → run p.sealUp calls = p.sealUp) := by
  have hsealed : p.sealUp.isSealed = true := rfl
  have hrun := answersAs_run hsealed calls
  refine ⟨hrun.lookup, hrun.requires, fun c => ⟨?_, fun hc => ?_⟩, hrun.models,
    run_eq_self hsealed⟩
  · rintro ⟨attempt, hresult⟩ hc
    obtain ⟨q, hq, -⟩ := exists_of_no_actions hrun.isSealed hc
    rw [hq] at hresult
    cases hresult
  · obtain ⟨action, actions, hactions⟩ := List.exists_cons_of_ne_nil hc
    exact ⟨_, result_of_actions hrun.isSealed hactions⟩

def customersOnly : Policies := { required := [("customer", [.read])] }

def loosening : List Call :=
  [.register "customer" .read (.ofOutcome "open" fun _ => .allow), .exempt "customer" [.read]]

theorem customersOnly_run : (∀ c ∈ loosening, c.actions ≠ []) ∧
    run customersOnly.sealUp loosening = customersOnly.sealUp := by
  have hcalls : ∀ c ∈ loosening, c.actions ≠ [] := by simp [loosening, Call.actions]
  exact ⟨hcalls, (run_sealUp customersOnly loosening).2.2.2.2 hcalls⟩

/-- A requirement of no action passes the seal. The model that it leaves behind is one that the
schema does not know, so no guard is built any more. -/
theorem sealed_require_nil : ∃ q, customersOnly.sealUp.require "ghost" [] = .ok q ∧
    customersOnly.sealUp.models = ["customer"] ∧ q.models = ["customer", "ghost"] ∧
    (∃ g, Builder.build ⟨{}, Schema.shop, customersOnly.sealUp⟩ = .ok g) ∧
    Builder.build ⟨{}, Schema.shop, q⟩ = .error (SchemaDefect.unregisteredModel "ghost").error :=
  ⟨_, rfl, rfl, rfl, ⟨_, rfl⟩, rfl⟩

end Policies

namespace Builder

theorem run_changePolicies (b : Builder) (change : Policies → Except Error Policies) :
    (changePolicies change).run.run b = match change b.policies with
      | .ok policies => (.ok (), { b with policies })
      | .error e => (.error e, b) := by
  have hlift : (changePolicies change).run.run b = (do
      let policies ← (ExceptT.mk (pure (change b.policies)) : Setup Policies)
      set { b with policies } : Setup Unit).run.run b := rfl
  rw [hlift]
  cases change b.policies <;> rfl

theorem changePolicies_call (b : Builder) (c : Policies.Call) :
    ((changePolicies fun p => c.result p).run.run b).2 =
      { b with policies := c.after b.policies } := by
  rw [run_changePolicies, Policies.Call.after]
  cases c.result b.policies <;> rfl

end Builder

end RowPolicy
