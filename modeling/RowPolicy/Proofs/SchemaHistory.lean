import RowPolicy.Schema

/-!
How a schema comes about: by registering models and sealing, in any order, where some calls fail.
Main statement: once a schema is sealed, every field permits exactly the operators of its own list,
all of which its type has, or those of its type if it has no list.
-/
namespace RowPolicy

/-- The operators that a declaration asks for: those of its own list, or else those of its type. -/
def FieldDecl.ownOperators (d : FieldDecl) : List Operator := d.operators.getD d.type.operators

/-- A list of operators, if there is one, goes no further than the type. -/
def FieldDecl.Narrows (d : FieldDecl) : Prop := ∀ op ∈ d.ownOperators, op ∈ d.type.operators

instance (d : FieldDecl) : Decidable d.Narrows :=
  inferInstanceAs (Decidable (∀ op ∈ d.ownOperators, op ∈ d.type.operators))

def Field.settle (f : Field) : Field := { f with permitted := .ofList f.decl.ownOperators }

def Model.settle (m : Model) : Model := { m with fields := m.fields.map Field.settle }

def Model.Narrows (m : Model) : Prop := ∀ f ∈ m.fields, f.decl.Narrows

namespace Schema

theorem settleField_eq (f : Field) :
    settleField f = if f.decl.Narrows then some f.settle else none := by
  unfold settleField
  cases hown : f.decl.operators with
  | none =>
    have hnarrows : f.decl.Narrows := by
      intro op hop
      simpa [FieldDecl.ownOperators, hown] using hop
    rw [if_pos hnarrows]
    simp [Field.settle, FieldDecl.ownOperators, hown]
  | some narrowed =>
    have hsubset : (OperatorSet.ofList narrowed).isSubset (.ofList f.decl.type.operators) = true ↔
        f.decl.Narrows := by
      simp [OperatorSet.isSubset_iff, FieldDecl.Narrows, FieldDecl.ownOperators, hown]
    simp only [hsubset]
    simp [Field.settle, FieldDecl.ownOperators, hown]

theorem settleFields_of_narrows {fields : List Field} (h : ∀ f ∈ fields, f.decl.Narrows)
    (model : String) : settleFields model fields = (fields.map Field.settle, none) := by
  induction fields with
  | nil => rfl
  | cons f fields ih =>
    have hf : f.decl.Narrows := h f (by simp)
    have hrest := ih fun g hg => h g (by simp [hg])
    simp [settleFields, settleField_eq, hf, hrest]

theorem narrows_of_settleFields {model : String} {fields : List Field}
    (h : (settleFields model fields).2 = none) : ∀ f ∈ fields, f.decl.Narrows := by
  induction fields with
  | nil => exact nofun
  | cons f fields ih =>
    by_cases hf : f.decl.Narrows
    · simp only [settleFields, settleField_eq, hf, if_true] at h
      exact List.forall_mem_cons.mpr ⟨hf, ih h⟩
    · simp [settleFields, settleField_eq, hf] at h

theorem settleModels_of_narrows {models : List Model} (h : ∀ m ∈ models, m.Narrows) :
    settleModels models = (models.map Model.settle, none) := by
  induction models with
  | nil => rfl
  | cons m models ih =>
    have hm := settleFields_of_narrows (h m (by simp)) m.name
    have hrest := ih fun n hn => h n (by simp [hn])
    simp [settleModels, hm, hrest, Model.settle]

theorem narrows_of_settleModels {models : List Model} (h : (settleModels models).2 = none) :
    ∀ m ∈ models, m.Narrows := by
  induction models with
  | nil => exact nofun
  | cons m models ih =>
    rw [settleModels] at h
    split at h
    · cases h
    · rename_i fields hfields
      have hm : m.Narrows := narrows_of_settleFields (congrArg Prod.snd hfields)
      exact List.forall_mem_cons.mpr ⟨hm, ih h⟩

/-- What sealing makes of an open schema: nothing is sealed if a model is at odds with another or a
field asks for operators that its type does not have, and otherwise every field is settled. -/
theorem sealUp_cases {s : Schema} (hopen : s.isSealed = false) :
    ((∃ e, s.sealUp.1 = .error e) ∧ s.sealUp.2.isSealed = false) ∨
      (∀ m ∈ s.models, s.modelDefect? m = none ∧ m.Narrows) ∧
        s.sealUp = (.ok (), ⟨s.models.map Model.settle, true⟩) := by
  unfold sealUp
  simp only [hopen, Bool.false_eq_true, if_false]
  split
  · exact .inl ⟨⟨_, rfl⟩, hopen⟩
  · rename_i hdefect
    split
    · exact .inl ⟨⟨_, rfl⟩, rfl⟩
    · rename_i models hmodels
      have hnarrows := narrows_of_settleModels (congrArg Prod.snd hmodels)
      have hsettled := hmodels.symm.trans (settleModels_of_narrows hnarrows)
      obtain rfl : models = s.models.map Model.settle := congrArg Prod.fst hsettled
      have hsound := List.findSome?_eq_none_iff.mp hdefect
      exact .inr ⟨fun m hm => ⟨hsound m hm, hnarrows m hm⟩, rfl⟩

theorem sealUp_of_isSealed {s : Schema} (h : s.isSealed = true) : s.sealUp = (.ok (), s) := by
  simp [sealUp, h]

theorem isSealed_of_register {s t : Schema} {d : ModelDecl} (h : s.register d = .ok t) :
    t.isSealed = false := by
  unfold register at h
  split at h
  · cases h
  · rename_i hopen
    split at h
    · cases h
    · split at h
      · cases h
      · cases h
        simpa using hopen

inductive Call where
  | register (d : ModelDecl)
  | sealUp

/-- The schema after a call. A call that fails leaves nothing behind but operators that were
settled on the way. -/
def Call.after (s : Schema) : Call → Schema
  | register d =>
    match s.register d with
    | .ok t => t
    | .error _ => s
  | sealUp => s.sealUp.2

def run (s : Schema) (calls : List Call) : Schema := calls.foldl Call.after s

/-- If the schema is sealed, every field permits what its declaration asks for, and may do so. -/
def Settled (s : Schema) : Prop :=
  s.isSealed = true → ∀ m ∈ s.models, ∀ f ∈ m.fields,
    f.decl.Narrows ∧ f.permitted = .ofList f.decl.ownOperators

theorem settled_of_open {s : Schema} (h : s.isSealed = false) : s.Settled := by
  intro hsealed
  rw [h] at hsealed
  cases hsealed

theorem settled_settle {models : List Model} (h : ∀ m ∈ models, m.Narrows) :
    Settled ⟨models.map Model.settle, true⟩ := by
  intro _ m hm f hf
  obtain ⟨n, hn, rfl⟩ := List.mem_map.mp hm
  obtain ⟨g, hg, rfl⟩ := List.mem_map.mp hf
  exact ⟨h n hn g hg, rfl⟩

theorem settled_after {s : Schema} (h : s.Settled) (c : Call) : (c.after s).Settled := by
  cases c with
  | register d =>
    cases hregister : s.register d with
    | ok t =>
      have hopen : t.Settled := settled_of_open (isSealed_of_register hregister)
      simpa [Call.after, hregister] using hopen
    | error e => simpa [Call.after, hregister] using h
  | sealUp =>
    show s.sealUp.2.Settled
    by_cases hsealed : s.isSealed = true
    · rwa [sealUp_of_isSealed hsealed]
    · rcases sealUp_cases (Bool.eq_false_iff.mpr hsealed) with ⟨-, hopen⟩ | ⟨hsound, hsealed⟩
      · exact settled_of_open hopen
      · rw [hsealed]
        exact settled_settle fun m hm => (hsound m hm).2

theorem settled_run {s : Schema} (h : s.Settled) (calls : List Call) : (s.run calls).Settled := by
  induction calls generalizing s with
  | nil => exact h
  | cons c calls ih => exact ih (settled_after h c)

end Schema
end RowPolicy
