import Mathlib.Data.List.Nodup
import RowPolicy.Proofs.RoundTrip
import RowPolicy.Proofs.SchemaHistory

/-!
What a sealed schema can be relied on for. Main statement: whatever calls have come before, the
models of a sealed schema are those that were registered, everything that one of them says about
another holds, what is looked up under a name is what was declared under it, and no call changes any
of this.
-/
namespace RowPolicy

def ModelDecl.names (d : ModelDecl) : List String :=
  d.fields.map (·.name) ++ d.relations.map (·.name)

def Model.decl (m : Model) : ModelDecl := ⟨m.name, m.fields.map (·.decl), m.relations, m.junction⟩

@[simp] theorem Model.decl_ofDecl (d : ModelDecl) : (Model.ofDecl d).decl = d := by
  simp [Model.decl, Model.ofDecl, Function.comp_def]

theorem find?_name_eq_some_iff {α : Type} {name : α → String} {xs : List α}
    (h : (xs.map name).Nodup) {n : String} {x : α} :
    xs.find? (name · == n) = some x ↔ x ∈ xs ∧ name x = n := by
  constructor
  · intro hx
    exact ⟨List.mem_of_find?_eq_some hx, by simpa using List.find?_some hx⟩
  · intro hx
    have hsome : (xs.find? (name · == n)).isSome = true :=
      List.find?_isSome.mpr ⟨x, hx.1, by simp [hx.2]⟩
    obtain ⟨y, hy⟩ := Option.isSome_iff_exists.mp hsome
    have hname : name y = n := by simpa using List.find?_some hy
    have hyx : y = x := List.inj_on_of_nodup_map h (List.mem_of_find?_eq_some hy) hx.1
      (hname.trans hx.2.symm)
    rw [hy, hyx]

/-- What a model says about other models holds in the schema. -/
structure Model.Linked (m : Model) (s : Schema) : Prop where
  target : ∀ r ∈ m.relations, s.contains r.target = true
  through : ∀ r ∈ m.relations, ∀ through, r.through = some through →
    ∃ n j, s.model? through = some n ∧ n.junction = some j ∧
      (j.left = m.name ∧ j.right = r.target ∨ j.left = r.target ∧ j.right = m.name)
  sides : ∀ j, m.junction = some j → s.contains j.left = true ∧ s.contains j.right = true

/-- A model on which a sealed schema can be relied: it is found under its name, is linked to others
as it says, and is itself as it was declared. -/
structure Model.SoundIn (m : Model) (s : Schema) : Prop where
  found : s.model? m.name = some m
  linked : m.Linked s
  distinct : m.decl.names.Nodup
  field : ∀ name f, m.field? name = some f ↔ f ∈ m.fields ∧ f.decl.name = name
  relation : ∀ name r, m.relation? name = some r ↔ r ∈ m.relations ∧ r.name = name
  permitted : ∀ f ∈ m.fields, ∀ op, f.permitted.contains op = true ↔ op ∈ f.decl.ownOperators
  narrows : ∀ f ∈ m.fields, f.decl.Narrows

namespace Schema

variable {s t : Schema} {m : Model} {d : ModelDecl}

theorem firstClash_eq_none_iff {taken names : List String} :
    firstClash taken names = none ↔ names.Nodup ∧ ∀ n ∈ names, n ∉ taken := by
  induction names generalizing taken with
  | nil => simp [firstClash]
  | cons name names ih =>
    rw [firstClash]
    by_cases h : name ∈ taken
    · simp [h]
    · simp only [List.contains_iff_mem, h, if_false, ih, List.nodup_cons, List.forall_mem_cons]
      grind

theorem declDefect?_eq_none_iff : declDefect? d = none ↔ d.names.Nodup := by
  have hfields : firstClash [] (d.fields.map (·.name)) = none ↔
      (d.fields.map (·.name)).Nodup := by
    simp [firstClash_eq_none_iff]
  rw [ModelDecl.names, List.nodup_append, ← hfields, declDefect?]
  cases firstClash [] (d.fields.map (·.name)) with
  | some field => simp
  | none =>
    simp only [Option.map_eq_none_iff, firstClash_eq_none_iff]
    grind

theorem register_eq_ok_iff : s.register d = .ok t ↔
    s.isSealed = false ∧ s.contains d.name = false ∧ d.names.Nodup ∧
      { s with models := s.models ++ [.ofDecl d] } = t := by
  rw [← declDefect?_eq_none_iff, register]
  cases s.isSealed <;> cases s.contains d.name <;> cases declDefect? d <;> simp

section Linked

theorem joins_iff {j : Junction} {a b : String} :
    j.joins a b = true ↔ j.left = a ∧ j.right = b ∨ j.left = b ∧ j.right = a := by
  simp [Junction.joins]

theorem relationDefect?_eq_none_iff {model : String} {r : Relation} :
    s.relationDefect? model r = none ↔ s.contains r.target = true ∧
      ∀ through, r.through = some through → ∃ n j, s.model? through = some n ∧
        n.junction = some j ∧
          (j.left = model ∧ j.right = r.target ∨ j.left = r.target ∧ j.right = model) := by
  rw [relationDefect?]
  cases htarget : s.contains r.target with
  | false => simp
  | true =>
    cases hthrough : r.through with
    | none => simp
    | some through =>
      cases hmodel : s.model? through with
      | none => simp [hmodel]
      | some n =>
        cases hjunction : n.junction with
        | none => simp [hmodel, hjunction]
        | some j => simp [hmodel, hjunction, ← joins_iff]

theorem junctionDefect?_eq_none_iff {model : String} {j : Junction} :
    s.junctionDefect? model j = none ↔ s.contains j.left = true ∧ s.contains j.right = true := by
  simp [junctionDefect?]

theorem modelDefect?_eq_none_iff : s.modelDefect? m = none ↔ m.Linked s := by
  have hrelations : m.relations.findSome? (s.relationDefect? m.name) = none ↔
      ∀ r ∈ m.relations, s.relationDefect? m.name r = none := List.findSome?_eq_none_iff
  have hjunction : m.junction.bind (s.junctionDefect? m.name) = none ↔
      ∀ j, m.junction = some j → s.junctionDefect? m.name j = none := Option.bind_eq_none_iff
  simp only [relationDefect?_eq_none_iff] at hrelations
  simp only [junctionDefect?_eq_none_iff] at hjunction
  rw [modelDefect?]
  cases hfirst : m.relations.findSome? (s.relationDefect? m.name) with
  | some defect =>
    have hunsound : ¬m.Linked s := by
      intro hlinked
      have hnone := hrelations.mpr fun r hr => ⟨hlinked.target r hr, hlinked.through r hr⟩
      rw [hfirst] at hnone
      cases hnone
    simp [hunsound]
  | none =>
    have hsound := hrelations.mp hfirst
    show m.junction.bind (s.junctionDefect? m.name) = none ↔ m.Linked s
    rw [hjunction]
    constructor
    · intro hsides
      exact ⟨fun r hr => (hsound r hr).1, fun r hr => (hsound r hr).2, hsides⟩
    · exact Model.Linked.sides

theorem model?_settle (s : Schema) (name : String) :
    model? ⟨s.models.map Model.settle, true⟩ name = (s.model? name).map Model.settle := by
  rw [model?, List.find?_map]
  rfl

theorem linked_settle (h : m.Linked s) :
    m.settle.Linked ⟨s.models.map Model.settle, true⟩ := by
  have hcontains : ∀ name, contains ⟨s.models.map Model.settle, true⟩ name = s.contains name := by
    intro name
    simp [contains, model?_settle]
  refine ⟨?_, ?_, ?_⟩
  · intro r hr
    rw [hcontains]
    exact h.target r hr
  · intro r hr through hthrough
    obtain ⟨n, j, hn, hj, hjoins⟩ := h.through r hr through hthrough
    exact ⟨n.settle, j, by rw [model?_settle, hn]; rfl, hj, hjoins⟩
  · intro j hj
    rw [hcontains, hcontains]
    exact h.sides j hj

end Linked

section Declared

def declared (s : Schema) : List ModelDecl := s.models.map Model.decl

theorem name_mem_declared_iff {name : String} :
    name ∈ s.declared.map (·.name) ↔ s.contains name = true := by
  simp [declared, contains, model?, Model.decl]

theorem decl_settleFields (model : String) (fields : List Field) :
    (settleFields model fields).1.map (·.decl) = fields.map (·.decl) := by
  induction fields with
  | nil => rfl
  | cons f fields ih =>
    by_cases h : f.decl.Narrows
    · simpa [settleFields, settleField_eq, h, Field.settle] using ih
    · simp [settleFields, settleField_eq, h]

theorem decl_settleModels (models : List Model) :
    (settleModels models).1.map Model.decl = models.map Model.decl := by
  induction models with
  | nil => rfl
  | cons m models ih =>
    have hfields := decl_settleFields m.name m.fields
    rw [settleModels]
    split
    · rename_i fields defect hsettle
      rw [hsettle] at hfields
      simp [Model.decl, hfields]
    · rename_i fields hsettle
      rw [hsettle] at hfields
      simp [Model.decl, hfields, ih]

theorem declared_sealUp (s : Schema) : s.sealUp.2.declared = s.declared := by
  have hsettle := decl_settleModels s.models
  rw [sealUp]
  split
  · rfl
  · split
    · rfl
    · split
      · rename_i models defect hmodels
        rwa [hmodels] at hsettle
      · rename_i models hmodels
        rwa [hmodels] at hsettle

def Call.accepted? (s : Schema) : Call → Option ModelDecl
  | register d => (s.register d).toOption.map fun _ => d
  | sealUp => none

def accepted (s : Schema) : List Call → List ModelDecl
  | [] => []
  | c :: calls => (c.accepted? s).toList ++ accepted (c.after s) calls

theorem declared_after (s : Schema) (c : Call) :
    (c.after s).declared = s.declared ++ (c.accepted? s).toList := by
  cases c with
  | register d =>
    cases h : s.register d with
    | error e => simp [Call.after, Call.accepted?, h, Except.toOption]
    | ok t =>
      obtain ⟨-, -, -, rfl⟩ := register_eq_ok_iff.mp h
      simp [Call.after, Call.accepted?, h, Except.toOption, declared]
  | sealUp =>
    rw [Call.accepted?, Option.toList_none, List.append_nil]
    exact declared_sealUp s

/-- No model that was registered is lost, and there is no other. -/
theorem declared_run (s : Schema) (calls : List Call) :
    (run s calls).declared = s.declared ++ accepted s calls := by
  induction calls generalizing s with
  | nil => simp [run, accepted]
  | cons c calls ih =>
    have hafter := declared_after s c
    have hrun := ih (c.after s)
    rw [hafter, List.append_assoc] at hrun
    exact hrun

end Declared

/-- What every call keeps: models have different names, a model uses each name once, and once the
schema is sealed the models are linked as they say. -/
structure WellFormed (s : Schema) : Prop where
  unique : (s.declared.map (·.name)).Nodup
  distinct : ∀ d ∈ s.declared, d.names.Nodup
  linked : s.isSealed = true → ∀ m ∈ s.models, m.Linked s

theorem wellFormed_empty : WellFormed {} := ⟨List.nodup_nil, nofun, nofun⟩

theorem wellFormed_register (h : s.WellFormed) (hregister : s.register d = .ok t) :
    t.WellFormed := by
  have hopen := isSealed_of_register hregister
  obtain ⟨-, hfresh, hnames, rfl⟩ := register_eq_ok_iff.mp hregister
  have hdeclared : declared { s with models := s.models ++ [.ofDecl d] } = s.declared ++ [d] := by
    simp [declared]
  have hnew : d.name ∉ s.declared.map (·.name) := by
    rw [name_mem_declared_iff, hfresh]
    exact Bool.false_ne_true
  refine ⟨?_, ?_, ?_⟩
  · rw [hdeclared, List.map_append]
    exact List.nodup_append.mpr ⟨h.unique, List.nodup_singleton _, by grind⟩
  · rw [hdeclared]
    exact List.forall_mem_append.mpr ⟨h.distinct, by simpa using hnames⟩
  · intro hsealed
    rw [hopen] at hsealed
    cases hsealed

theorem wellFormed_sealUp (h : s.WellFormed) : s.sealUp.2.WellFormed := by
  have hdeclared := declared_sealUp s
  refine ⟨?_, ?_, ?_⟩
  · rw [hdeclared]
    exact h.unique
  · rw [hdeclared]
    exact h.distinct
  · by_cases hsealed : s.isSealed = true
    · rw [sealUp_of_isSealed hsealed]
      exact h.linked
    · rcases sealUp_cases (Bool.eq_false_iff.mpr hsealed) with ⟨-, hopen⟩ | ⟨hsound, hseal⟩
      · rw [hopen]
        exact nofun
      · rw [hseal]
        intro _ n hn
        obtain ⟨m, hm, rfl⟩ := List.mem_map.mp hn
        exact linked_settle (modelDefect?_eq_none_iff.mp (hsound m hm).1)

theorem wellFormed_after (h : s.WellFormed) (c : Call) : (c.after s).WellFormed := by
  cases c with
  | register d =>
    cases hregister : s.register d with
    | ok t => simpa [Call.after, hregister] using wellFormed_register h hregister
    | error e => simpa [Call.after, hregister] using h
  | sealUp => exact wellFormed_sealUp h

theorem wellFormed_run (h : s.WellFormed) (calls : List Call) : (s.run calls).WellFormed := by
  induction calls generalizing s with
  | nil => exact h
  | cons c calls ih => exact ih (wellFormed_after h c)

theorem soundIn_of_isSealed (h : s.WellFormed) (hsettled : s.Settled) (hsealed : s.isSealed = true)
    (hm : m ∈ s.models) : m.SoundIn s := by
  have hnames : m.decl.names.Nodup := h.distinct _ (List.mem_map_of_mem hm)
  have hunique : (s.models.map (·.name)).Nodup := by
    have hdeclared := h.unique
    rwa [declared, List.map_map] at hdeclared
  rw [ModelDecl.names, List.nodup_append] at hnames
  have hfields : (m.fields.map (·.decl.name)).Nodup := by
    have hdeclared := hnames.1
    rwa [Model.decl, List.map_map] at hdeclared
  refine ⟨?_, h.linked hsealed m hm, ?_, ?_, ?_, ?_, ?_⟩
  · exact (find?_name_eq_some_iff hunique).mpr ⟨hm, rfl⟩
  · exact h.distinct _ (List.mem_map_of_mem hm)
  · intro name f
    exact find?_name_eq_some_iff hfields
  · intro name r
    exact find?_name_eq_some_iff hnames.2.1
  · intro f hf op
    rw [(hsettled hsealed m hm f hf).2, OperatorSet.contains_ofList]
    exact List.contains_iff_mem
  · intro f hf
    exact (hsettled hsealed m hm f hf).1

theorem register_of_isSealed (h : s.isSealed = true) (d : ModelDecl) : s.register d =
    .error (.registrySealed ("cannot register model '" ++ d.name ++ "'")) := by
  simp [register, h]

theorem isSealed_of_sealUp (h : s.sealUp.1 = .ok ()) : s.sealUp.2.isSealed = true := by
  by_cases hsealed : s.isSealed = true
  · rwa [sealUp_of_isSealed hsealed]
  · rcases sealUp_cases (Bool.eq_false_iff.mpr hsealed) with ⟨⟨e, he⟩, -⟩ | ⟨-, hseal⟩
    · rw [he] at h
      cases h
    · rw [hseal]

theorem run_of_isSealed (h : s.isSealed = true) (calls : List Call) : run s calls = s := by
  induction calls with
  | nil => rfl
  | cons c calls ih =>
    have hafter : c.after s = s := by
      cases c with
      | register d => simp [Call.after, register_of_isSealed h]
      | sealUp => simp [Call.after, sealUp_of_isSealed h]
    rw [run, List.foldl_cons, hafter]
    exact ih

/-- Whatever calls a schema has come from, once it is sealed its models are those that were
registered and are sound. Every later call leaves the schema as it is: a registration is refused,
sealing succeeds. -/
theorem sealed_run {calls : List Call} (hsealed : (run {} calls).isSealed = true) :
    (run {} calls).declared = accepted {} calls ∧
      (∀ m ∈ (run {} calls).models, m.SoundIn (run {} calls)) ∧
      ∀ more, run {} (calls ++ more) = run {} calls ∧
        (run {} (calls ++ more)).sealUp = (.ok (), run {} calls) ∧
        ∀ d, (run {} (calls ++ more)).register d =
          .error (.registrySealed ("cannot register model '" ++ d.name ++ "'")) := by
  have hsettled : (run {} calls).Settled := settled_run (settled_of_open rfl) calls
  have hwellFormed : (run {} calls).WellFormed := wellFormed_run wellFormed_empty calls
  refine ⟨declared_run {} calls, ?_, ?_⟩
  · intro m hm
    exact soundIn_of_isSealed hwellFormed hsettled hsealed hm
  · intro more
    have hmore : run {} (calls ++ more) = run {} calls := by
      rw [run, List.foldl_append]
      exact run_of_isSealed hsealed more
    rw [hmore]
    exact ⟨rfl, sealUp_of_isSealed hsealed, register_of_isSealed hsealed⟩

/-- Every model of the shop is registered twice, and in between the schema is sealed. -/
def hastyCalls : List Call := shopModels.flatMap fun d => [.register d, .sealUp, .register d]

/-- The shop cannot be sealed before its last model is registered; then tags are reached through a
junction of orders and tags. -/
theorem hastyCalls_sealed : (run {} (hastyCalls.dropLast.dropLast)).isSealed = false ∧
    (run {} hastyCalls).isSealed = true ∧ (run {} hastyCalls).declared = shopModels ∧
    ∃ m r n j, (run {} hastyCalls).model? "order" = some m ∧ m.relation? "tags" = some r ∧
      r.through = some "order_tag" ∧ (run {} hastyCalls).model? "order_tag" = some n ∧
        n.junction = some j ∧
          (j.left = m.name ∧ j.right = r.target ∨ j.left = r.target ∧ j.right = m.name) := by
  have hsealed : (run {} hastyCalls).isSealed = true := by rfl
  obtain ⟨hdeclared, hsound, -⟩ := sealed_run hsealed
  obtain ⟨m, hm⟩ : ∃ m, (run {} hastyCalls).model? "order" = some m := ⟨_, rfl⟩
  have horder := hsound m (List.mem_of_find?_eq_some hm)
  obtain ⟨r, hr, hthrough⟩ : ∃ r, m.relation? "tags" = some r ∧ r.through = some "order_tag" := by
    cases hm
    exact ⟨_, rfl, rfl⟩
  have hrelation : r ∈ m.relations := ((horder.relation "tags" r).mp hr).1
  obtain ⟨n, j, hn, hj, hjoins⟩ := horder.linked.through r hrelation "order_tag" hthrough
  exact ⟨rfl, hsealed, hdeclared, m, r, n, j, hm, hr, hthrough, hn, hj, hjoins⟩

end Schema
end RowPolicy
