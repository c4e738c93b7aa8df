import RowPolicy.Proofs.SealedPolicies
import RowPolicy.Proofs.SealedSchema

/-!
How a guard comes about: by calls on a builder, some of which may fail, and by building at the end.
The schema of a builder goes the way of the calls that concern it, so a guard that is built has a
sealed schema with all that comes with it, and its policies are about models of this schema.
-/
namespace RowPolicy.Builder

inductive Call where
  | schema (c : Schema.Call)
  | policies (c : Policies.Call)
  | sealPolicies

def Call.setup : Call → Setup Unit
  | schema (.register d) => registerModel d
  | schema .sealUp => sealSchema
  | policies (.register model action rule) => registerPolicy model action rule
  | policies (.compose model action rules) => composePolicies model action rules
  | policies (.require model actions) => requirePolicies model actions
  | policies (.exempt model actions) => exemptActions model actions
  | sealPolicies => Builder.sealPolicies

/-- The builder after a call, whether the call fails or not. -/
def Call.after (b : Builder) (c : Call) : Builder := (c.setup.run.run b).2

def run (b : Builder) (calls : List Call) : Builder := calls.foldl Call.after b

def schemaCalls : List Call → List Schema.Call
  | [] => []
  | .schema c :: calls => c :: schemaCalls calls
  | .policies _ :: calls => schemaCalls calls
  | .sealPolicies :: calls => schemaCalls calls

theorem run_registerModel (b : Builder) (d : ModelDecl) :
    (registerModel d).run.run b = match b.schema.register d with
      | .ok schema => (.ok (), { b with schema })
      | .error e => (.error e, b) := by
  have hlift : (registerModel d).run.run b = (do
      let schema ← (ExceptT.mk (pure (b.schema.register d)) : Setup Schema)
      set { b with schema } : Setup Unit).run.run b := rfl
  rw [hlift]
  cases b.schema.register d <;> rfl

theorem run_sealSchema (b : Builder) :
    sealSchema.run.run b = (b.schema.sealUp.1, { b with schema := b.schema.sealUp.2 }) := by
  have hlift : sealSchema.run.run b = (do
      set { b with schema := b.schema.sealUp.2 }
      (ExceptT.mk (pure b.schema.sealUp.1) : Setup Unit) : Setup Unit).run.run b := rfl
  rw [hlift]
  cases b.schema.sealUp.1 <;> rfl

theorem after_schema (b : Builder) (c : Schema.Call) :
    (Call.schema c).after b = { b with schema := c.after b.schema } := by
  cases c with
  | register d =>
    have hrun := run_registerModel b d
    rw [Call.after, Call.setup, hrun, Schema.Call.after]
    cases b.schema.register d <;> rfl
  | sealUp =>
    rw [Call.after, Call.setup, run_sealSchema]
    rfl

theorem after_policies (b : Builder) (c : Policies.Call) :
    (Call.policies c).after b = { b with policies := c.after b.policies } := by
  rw [← changePolicies_call]
  cases c <;> rfl

theorem after_sealPolicies (b : Builder) :
    Call.sealPolicies.after b = { b with policies := b.policies.sealUp } := by
  rw [Call.after, Call.setup, Builder.sealPolicies, run_changePolicies]

theorem schema_run (b : Builder) (calls : List Call) :
    (run b calls).schema = Schema.run b.schema (schemaCalls calls) := by
  induction calls generalizing b with
  | nil => rfl
  | cons c calls ih =>
    have hrun : (run b (c :: calls)).schema = Schema.run (c.after b).schema (schemaCalls calls) :=
      ih (c.after b)
    rw [hrun]
    cases c with
    | schema c => rw [after_schema]; rfl
    | policies c => rw [after_policies]; rfl
    | sealPolicies => rw [after_sealPolicies]; rfl

/-- Building succeeds when the schema can be sealed and every policy is about one of its models. -/
theorem build_eq_ok_iff {b : Builder} {g : Guard} : b.build = .ok g ↔
    b.schema.sealUp.1 = .ok () ∧
      (∀ model ∈ b.policies.models, b.schema.sealUp.2.contains model = true) ∧
      ⟨⟨b.schema.sealUp.2, b.policies.sealUp, b.settings⟩⟩ = g := by
  have hmodels : b.policies.models.find? (fun model => !b.schema.sealUp.2.contains model) = none ↔
      ∀ model ∈ b.policies.models, b.schema.sealUp.2.contains model = true := by
    simp
  rw [← hmodels, build]
  rcases b.schema.sealUp with ⟨result, schema⟩
  cases result with
  | error e => simp
  | ok u =>
    cases hfind : b.policies.models.find? (fun model => !schema.contains model) with
    | some model => simp [hfind]
    | none => simp [hfind]

variable {settings : Settings} {calls : List Call} {g : Guard}

theorem schema_of_build (h : (run (.ofSettings settings) calls).build = .ok g) :
    g.schema = Schema.run {} (schemaCalls calls ++ [.sealUp]) ∧ g.schema.isSealed = true := by
  obtain ⟨hsealed, -, rfl⟩ := build_eq_ok_iff.mp h
  have hschema : (run (.ofSettings settings) calls).schema = Schema.run {} (schemaCalls calls) :=
    schema_run _ calls
  refine ⟨?_, Schema.isSealed_of_sealUp hsealed⟩
  rw [Schema.run, List.foldl_append]
  exact congrArg (fun s => s.sealUp.2) hschema

theorem settled_of_build (h : (run (.ofSettings settings) calls).build = .ok g) :
    g.schema.Settled := by
  rw [(schema_of_build h).1]
  exact Schema.settled_run (Schema.settled_of_open rfl) _

theorem soundIn_of_build (h : (run (.ofSettings settings) calls).build = .ok g) {m : Model}
    (hm : m ∈ g.schema.models) : m.SoundIn g.schema := by
  have hwellFormed : g.schema.WellFormed := by
    rw [(schema_of_build h).1]
    exact Schema.wellFormed_run Schema.wellFormed_empty _
  exact Schema.soundIn_of_isSealed hwellFormed (settled_of_build h) (schema_of_build h).2 hm

end RowPolicy.Builder
