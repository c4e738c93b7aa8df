import RowPolicy.Declarations
import RowPolicy.Proofs.BuilderHistory
import RowPolicy.Proofs.PolicyHistory

/-!
What declarations leave on a new builder. Main statement: they are taken in exactly when the models
and the names within each model differ, and otherwise it is a model that is refused; then every
model is registered as it is declared, a model and an action have the rules of all policies that are
declared for them, in their order, and rules are required where a model says so.
-/
namespace RowPolicy

namespace Schema

variable {s t : Schema} {d : ModelDecl} {ds : List ModelDecl} {e : Error}

def registerAll (s : Schema) (ds : List ModelDecl) : Except Error Schema :=
  ds.foldlM Schema.register s

theorem register_eq_error (hopen : s.isSealed = false) (h : s.register d = .error e) :
    e = .schemaConflict d.name ∨ ∃ defect : SchemaDefect, e = defect.error := by
  rw [register, hopen] at h
  cases hname : s.contains d.name with
  | true =>
    simp only [hname, Bool.false_eq_true, if_false, if_true, Except.error.injEq] at h
    exact .inl h.symm
  | false =>
    simp only [hname, Bool.false_eq_true, if_false] at h
    cases hdefect : declDefect? d with
    | none => simp [hdefect] at h
    | some defect =>
      simp only [hdefect, Except.error.injEq] at h
      exact .inr ⟨defect, h.symm⟩

theorem registerAll_eq_error (hopen : s.isSealed = false) (h : s.registerAll ds = .error e) :
    (∃ d ∈ ds, e = .schemaConflict d.name) ∨ ∃ defect : SchemaDefect, e = defect.error := by
  induction ds generalizing s with
  | nil => cases h
  | cons d ds ih =>
    rw [registerAll, List.foldlM_cons] at h
    cases hd : s.register d with
    | error cause =>
      rw [hd] at h
      cases h
      rcases register_eq_error hopen hd with hname | hdefect
      · exact .inl ⟨d, List.mem_cons_self, hname⟩
      · exact .inr hdefect
    | ok t =>
      rw [hd] at h
      rcases ih (isSealed_of_register hd) h with ⟨d', hd', hname⟩ | hdefect
      · exact .inl ⟨d', List.mem_cons_of_mem d hd', hname⟩
      · exact .inr hdefect

theorem registerAll_eq_ok_iff (hopen : s.isSealed = false) : s.registerAll ds = .ok t ↔
    (ds.map (·.name)).Nodup ∧ (∀ d ∈ ds, s.contains d.name = false ∧ d.names.Nodup) ∧
      { s with models := s.models ++ ds.map .ofDecl } = t := by
  induction ds generalizing s with
  | nil => simp [registerAll]
  | cons d ds ih =>
    have hcontains (name : String) :
        contains { s with models := s.models ++ [.ofDecl d] } name = true ↔
          s.contains name = true ∨ d.name = name := by
      simp [contains, model?, Model.ofDecl]
    have hstep : s.registerAll (d :: ds) = .ok t ↔
        ∃ u, s.register d = .ok u ∧ u.registerAll ds = .ok t := by
      rw [registerAll, List.foldlM_cons]
      exact Result.bind_eq_ok_iff
    have hrest := ih (s := { s with models := s.models ++ [.ofDecl d] }) hopen
    simp only [← Bool.not_eq_true, hcontains, not_or, List.append_assoc, List.singleton_append]
      at hrest
    rw [hstep, List.map_cons, List.nodup_cons, List.forall_mem_cons, List.map_cons]
    constructor
    · rintro ⟨u, hu, ht⟩
      obtain ⟨-, hname, hnames, rfl⟩ := register_eq_ok_iff.mp hu
      obtain ⟨hdistinct, hds, heq⟩ := hrest.mp ht
      refine ⟨⟨?_, hdistinct⟩, ⟨⟨hname, hnames⟩, fun c hc => ?_⟩, heq⟩
      · intro hmem
        obtain ⟨c, hc, hcd⟩ := List.mem_map.mp hmem
        exact (hds c hc).1.2 hcd.symm
      · exact ⟨Bool.eq_false_iff.mpr (hds c hc).1.1, (hds c hc).2⟩
    · rintro ⟨⟨hnew, hdistinct⟩, ⟨⟨hname, hnames⟩, hds⟩, heq⟩
      refine ⟨_, register_eq_ok_iff.mpr ⟨hopen, hname, hnames, rfl⟩, ?_⟩
      refine hrest.mpr ⟨hdistinct, fun c hc => ⟨⟨?_, fun hdc => hnew ?_⟩, (hds c hc).2⟩, heq⟩
      · exact Bool.eq_false_iff.mp (hds c hc).1
      · rw [hdc]
        exact List.mem_map_of_mem hc

end Schema

namespace Policies

variable {p : Policies} {model : String} {action : Action}

theorem forM_checkOpen_of_open (h : p.isSealed = false) (model : String) (actions : List Action) :
    actions.forM (p.checkOpen model) = .ok () := by
  induction actions with
  | nil => rfl
  | cons action actions ih =>
    have hcheck : p.checkOpen model action = .ok () := by simp [checkOpen, h]
    show (p.checkOpen model action >>= fun _ => actions.forM (p.checkOpen model)) = .ok ()
    rw [hcheck]
    exact ih

end Policies

section Groups

def groupFor? (key : String × Action) :
    List ((String × Action) × List Template) → Option (List Template)
  | [] => none
  | (k, templates) :: groups => if k = key then some templates else groupFor? key groups

def templatesFor (key : String × Action) (policies : List PolicyEntry) : List Template :=
  (policies.filter fun p => (p.model, p.action) = key).map (·.template)

variable {key : String × Action} {p : PolicyEntry} {policies : List PolicyEntry}
  {groups : List ((String × Action) × List Template)}

theorem groupFor?_insertPolicy (key : String × Action) (p : PolicyEntry)
    (groups : List ((String × Action) × List Template)) :
    groupFor? key (insertPolicy p groups) =
      if (p.model, p.action) = key then some ((groupFor? key groups).getD [] ++ [p.template])
      else groupFor? key groups := by
  induction groups with
  | nil => rfl
  | cons group groups ih =>
    obtain ⟨k, templates⟩ := group
    by_cases hk : k = (p.model, p.action)
    · subst hk
      by_cases hkey : (p.model, p.action) = key <;> simp [insertPolicy, groupFor?, hkey]
    · by_cases hkey : k = key
      · subst hkey
        simp [insertPolicy, groupFor?, hk, Ne.symm hk]
      · simp [insertPolicy, groupFor?, hk, hkey, ih]

theorem mem_keys_insertPolicy :
    key ∈ (insertPolicy p groups).map (·.1) ↔
      key ∈ groups.map (·.1) ∨ key = (p.model, p.action) := by
  induction groups with
  | nil => simp [insertPolicy]
  | cons group groups ih =>
    obtain ⟨k, templates⟩ := group
    by_cases hk : k = (p.model, p.action)
    · simp only [insertPolicy, hk, if_true, List.map_cons, List.mem_cons]
      grind
    · simp only [insertPolicy, hk, if_false, List.map_cons, List.mem_cons, ih, or_assoc]

/-- No two groups are under one model and action, and none is empty. -/
structure Grouped (groups : List ((String × Action) × List Template)) : Prop where
  distinct : (groups.map (·.1)).Nodup
  nonempty : ∀ g ∈ groups, g.2 ≠ []

theorem grouped_insertPolicy (h : Grouped groups) : Grouped (insertPolicy p groups) := by
  induction groups with
  | nil => exact ⟨by simp [insertPolicy], by simp [insertPolicy]⟩
  | cons group groups ih =>
    obtain ⟨k, templates⟩ := group
    obtain ⟨hk, hdistinct⟩ := List.nodup_cons.mp h.distinct
    obtain ⟨htemplates, hnonempty⟩ := List.forall_mem_cons.mp h.nonempty
    by_cases hp : k = (p.model, p.action)
    · rw [insertPolicy, if_pos hp]
      exact ⟨h.distinct, List.forall_mem_cons.mpr ⟨by simp, hnonempty⟩⟩
    · have hrest := ih ⟨hdistinct, hnonempty⟩
      rw [insertPolicy, if_neg hp]
      refine ⟨List.nodup_cons.mpr ⟨?_, hrest.distinct⟩,
        List.forall_mem_cons.mpr ⟨htemplates, hrest.nonempty⟩⟩
      rw [mem_keys_insertPolicy]
      exact not_or.mpr ⟨hk, hp⟩

theorem grouped_groupPolicies (policies : List PolicyEntry) :
    Grouped (groupPolicies policies) := by
  have hfold (groups : List ((String × Action) × List Template)) (h : Grouped groups) :
      Grouped (policies.foldl (fun groups p => insertPolicy p groups) groups) := by
    induction policies generalizing groups with
    | nil => exact h
    | cons p policies ih => exact ih _ (grouped_insertPolicy h)
  exact hfold [] ⟨List.nodup_nil, nofun⟩

theorem templatesFor_ne_nil_iff :
    templatesFor key policies ≠ [] ↔ ∃ p ∈ policies, (p.model, p.action) = key := by
  simp [templatesFor]

theorem mem_templatesFor (h : p ∈ policies) :
    p.template ∈ templatesFor (p.model, p.action) policies := by
  apply List.mem_map_of_mem
  simpa using h

/-- The group of a model and an action holds the templates of all policies that are declared for
them. -/
theorem groupFor?_groupPolicies (key : String × Action) (policies : List PolicyEntry) :
    groupFor? key (groupPolicies policies) =
      if templatesFor key policies = [] then none else some (templatesFor key policies) := by
  -- Groups that are there already keep what they hold in front.
  have hfold (groups : List ((String × Action) × List Template)) :
      groupFor? key (policies.foldl (fun groups p => insertPolicy p groups) groups) =
        if templatesFor key policies = [] then groupFor? key groups
        else some ((groupFor? key groups).getD [] ++ templatesFor key policies) := by
    induction policies generalizing groups with
    | nil => simp [templatesFor]
    | cons p policies ih =>
      rw [List.foldl_cons, ih, groupFor?_insertPolicy]
      by_cases hp : (p.model, p.action) = key
      · have htemplates : templatesFor key (p :: policies) =
            p.template :: templatesFor key policies := by simp [templatesFor, hp]
        rw [htemplates]
        by_cases hrest : templatesFor key policies = []
        · simp [hp, hrest]
        · simp [hp, hrest]
      · have htemplates : templatesFor key (p :: policies) = templatesFor key policies := by
          simp [templatesFor, hp]
        simp [htemplates, hp]
  rw [groupPolicies, hfold []]
  simp [groupFor?]

end Groups

namespace Builder

variable {α β : Type} {b c : Builder} {x : Setup α} {f : α → Setup β} {a : α} {e : Error}

theorem run_bind_of_ok (h : x.run.run b = (.ok a, c)) :
    (x >>= f).run.run b = (f a).run.run c := by
  have hbind : (x >>= f).run.run b = ExceptT.bindCont f (x.run.run b).1 (x.run.run b).2 := rfl
  rw [hbind, h]
  rfl

theorem run_bind_of_error (h : x.run.run b = (.error e, c)) :
    (x >>= f).run.run b = (.error e, c) := by
  have hbind : (x >>= f).run.run b = ExceptT.bindCont f (x.run.run b).1 (x.run.run b).2 := rfl
  rw [hbind, h]
  rfl

end Builder

namespace ModelEntry

def calls (e : ModelEntry) : List Policies.Call :=
  (if e.require.isEmpty then [] else [.require e.model.name e.require]) ++
    if e.exempt.isEmpty then [] else [.exempt e.model.name e.exempt]

/-- A model is registered first, then what it says of its actions, so far as it says anything. -/
theorem apply_eq (e : ModelEntry) : e.apply = (do
    Builder.registerModel e.model
    (unless e.require.isEmpty do Builder.requirePolicies e.model.name e.require) >>= fun _ =>
      unless e.exempt.isEmpty do Builder.exemptActions e.model.name e.exempt) := by
  rw [apply]
  cases e.require.isEmpty <;> rfl

end ModelEntry

namespace Builder

variable {b : Builder} {c : Policies.Call} {q : Policies} {e : ModelEntry}
  {entries : List ModelEntry} {t : Schema} {error : Error}

theorem run_changePolicies_of_ok {f : Policies → Except Error Policies} (h : f b.policies = .ok q) :
    (changePolicies f).run.run b = (.ok (), { b with policies := q }) := by
  rw [run_changePolicies, h]

theorem run_unless (skip : Bool) (h : c.result b.policies = .ok q) :
    ∃ p, (unless skip do changePolicies fun p => c.result p : Setup Unit).run.run b =
        (.ok (), { b with policies := p }) ∧ p.isSealed = b.policies.isSealed ∧
      b.policies.Records (if skip then [] else [c]) p := by
  cases skip with
  | true => exact ⟨b.policies, rfl, rfl, Policies.Records.refl b.policies⟩
  | false =>
    have hrun := run_changePolicies_of_ok (f := fun p => c.result p) h
    exact ⟨q, hrun, Policies.isSealed_of_result h, Policies.records_of_result h⟩

theorem run_entry (hopen : b.policies.isSealed = false) (h : b.schema.register e.model = .ok t) :
    ∃ q, e.apply.run.run b = (.ok (), ⟨b.settings, t, q⟩) ∧ q.isSealed = false ∧
      b.policies.Records e.calls q := by
  have hmodel : (registerModel e.model).run.run b = (.ok (), { b with schema := t }) := by
    rw [run_registerModel, h]
  obtain ⟨p, hrequire⟩ : ∃ p, (Policies.Call.require e.model.name e.require).result b.policies =
      .ok p := by
    simp [Policies.Call.result, Policies.require, Policies.forM_checkOpen_of_open hopen]
  obtain ⟨q, hq, hqopen, hqrecords⟩ :=
    run_unless (b := { b with schema := t }) e.require.isEmpty hrequire
  rw [hopen] at hqopen
  obtain ⟨p, hexempt⟩ : ∃ p, (Policies.Call.exempt e.model.name e.exempt).result q = .ok p := by
    simp [Policies.Call.result, Policies.exemptActions, Policies.forM_checkOpen_of_open hqopen]
  obtain ⟨r, hr, hropen, hrrecords⟩ :=
    run_unless (b := ⟨b.settings, t, q⟩) e.exempt.isEmpty hexempt
  refine ⟨r, ?_, hropen.trans hqopen, hqrecords.trans hrrecords⟩
  rw [ModelEntry.apply_eq, run_bind_of_ok hmodel]
  exact (run_bind_of_ok hq).trans hr

theorem run_entry_of_error (h : b.schema.register e.model = .error error) :
    e.apply.run.run b = (.error error, b) := by
  have hmodel : (registerModel e.model).run.run b = (.error error, b) := by
    rw [run_registerModel, h]
  exact run_bind_of_error hmodel

/-- All models are taken in, each with what it says of its actions, if they can be registered one
after the other. -/
theorem run_entries (hopen : b.policies.isSealed = false)
    (h : b.schema.registerAll (entries.map (·.model)) = .ok t) :
    ∃ q, (entries.forM ModelEntry.apply).run.run b = (.ok (), ⟨b.settings, t, q⟩) ∧
      q.isSealed = false ∧ b.policies.Records (entries.flatMap ModelEntry.calls) q := by
  induction entries generalizing b with
  | nil =>
    cases h
    exact ⟨b.policies, rfl, hopen, Policies.Records.refl b.policies⟩
  | cons e entries ih =>
    rw [List.map_cons, Schema.registerAll, List.foldlM_cons] at h
    obtain ⟨u, hu, hrest⟩ := Result.bind_eq_ok_iff.mp h
    obtain ⟨p, hp, hpopen, hprecords⟩ := run_entry hopen hu
    obtain ⟨q, hq, hqopen, hqrecords⟩ := ih (b := ⟨b.settings, u, p⟩) hpopen hrest
    refine ⟨q, ?_, hqopen, hprecords.trans hqrecords⟩
    exact (run_bind_of_ok hp).trans hq

theorem run_entries_of_error (hopen : b.policies.isSealed = false)
    (h : b.schema.registerAll (entries.map (·.model)) = .error error) :
    ((entries.forM ModelEntry.apply).run.run b).1 = .error error := by
  induction entries generalizing b with
  | nil => cases h
  | cons e entries ih =>
    rw [List.map_cons, Schema.registerAll, List.foldlM_cons] at h
    cases hregister : b.schema.register e.model with
    | error cause =>
      rw [hregister] at h
      cases h
      exact congrArg Prod.fst (run_bind_of_error (run_entry_of_error hregister))
    | ok u =>
      rw [hregister] at h
      obtain ⟨p, hp, hpopen, -⟩ := run_entry hopen hregister
      have hrest := ih (b := ⟨b.settings, u, p⟩) hpopen h
      exact (congrArg Prod.fst (run_bind_of_ok hp)).trans hrest

def groupCall (group : (String × Action) × List Template) : Policies.Call :=
  .compose group.1.1 group.1.2 (group.2.map Template.rule)

def composeGroup : (String × Action) × List Template → Setup Unit :=
  fun ((model, action), templates) => composePolicies model action (templates.map Template.rule)

/-- Groups under different models and actions are registered one after the other, whatever is to be
done with duplicates, if nothing is registered under them. -/
theorem run_groups {groups : List ((String × Action) × List Template)}
    (hopen : b.policies.isSealed = false) (hgrouped : Grouped groups)
    (hnew : ∀ g ∈ groups, b.policies.lookup g.1.1 g.1.2 = none) :
    ∃ q, (groups.forM composeGroup).run.run b = (.ok (), { b with policies := q }) ∧
      b.policies.Records (groups.map groupCall) q := by
  induction groups generalizing b with
  | nil => exact ⟨b.policies, rfl, Policies.Records.refl b.policies⟩
  | cons g groups ih =>
    obtain ⟨⟨model, action⟩, templates⟩ := g
    obtain ⟨hg, hdistinct⟩ := List.nodup_cons.mp hgrouped.distinct
    obtain ⟨hne, hnonempty⟩ := List.forall_mem_cons.mp hgrouped.nonempty
    obtain ⟨hnone, hnew⟩ := List.forall_mem_cons.mp hnew
    have hrules : templates.map Template.rule ≠ [] := by simpa using hne
    obtain ⟨p, hp⟩ := Policies.exists_of_compose hopen hrules (.inr hnone)
    have hcall : (groupCall ((model, action), templates)).result b.policies = .ok p := hp
    have hrun : (composeGroup ((model, action), templates)).run.run b =
        (.ok (), { b with policies := p }) :=
      run_changePolicies_of_ok (f := fun p => p.compose model action _) hp
    have hpopen : p.isSealed = false := (Policies.isSealed_of_result hcall).trans hopen
    have hpnew : ∀ g ∈ groups, p.lookup g.1.1 g.1.2 = none := by
      intro g hmem
      have hother : ¬(model = g.1.1 ∧ action = g.1.2) := by
        intro hsame
        have hkey : g.1 = (model, action) := Prod.ext hsame.1.symm hsame.2.symm
        have hkeys : g.1 ∈ groups.map (·.1) := List.mem_map_of_mem hmem
        rw [hkey] at hkeys
        exact hg hkeys
      rw [Policies.lookup_of_compose hp, if_neg hother]
      exact hnew g hmem
    obtain ⟨q, hq, hqrecords⟩ := ih (b := { b with policies := p }) hpopen
      ⟨hdistinct, hnonempty⟩ hpnew
    refine ⟨q, (run_bind_of_ok hrun).trans hq, ?_⟩
    exact (Policies.records_of_result hcall).trans hqrecords

end Builder

section Calls

open Policies

variable {model : String} {action : Action} {entries : List ModelEntry}
  {groups : List ((String × Action) × List Template)}

theorem mem_calls_iff {e : ModelEntry} {c : Call} : c ∈ e.calls ↔
    c = .require e.model.name e.require ∧ e.require ≠ [] ∨
      c = .exempt e.model.name e.exempt ∧ e.exempt ≠ [] := by
  unfold ModelEntry.calls
  cases e.require <;> cases e.exempt <;> simp

def declaredCalls (entries : List ModelEntry)
    (groups : List ((String × Action) × List Template)) : List Call :=
  entries.flatMap ModelEntry.calls ++ groups.map Builder.groupCall

theorem names_require_iff : Names .require (declaredCalls entries groups) model action ↔
    ∃ e ∈ entries, e.model.name = model ∧ action ∈ e.require := by
  simp only [Names, declaredCalls, List.mem_append, List.mem_flatMap, mem_calls_iff, List.mem_map,
    Builder.groupCall, reduceCtorEq, false_and, and_false, exists_false, or_false,
    Call.require.injEq]
  constructor
  · rintro ⟨actions, ⟨e, he, ⟨rfl, rfl⟩, -⟩, haction⟩
    exact ⟨e, he, rfl, haction⟩
  · rintro ⟨e, he, rfl, haction⟩
    exact ⟨e.require, ⟨e, he, ⟨rfl, rfl⟩, List.ne_nil_of_mem haction⟩, haction⟩

theorem names_exempt_iff : Names .exempt (declaredCalls entries groups) model action ↔
    ∃ e ∈ entries, e.model.name = model ∧ action ∈ e.exempt := by
  simp only [Names, declaredCalls, List.mem_append, List.mem_flatMap, mem_calls_iff, List.mem_map,
    Builder.groupCall, reduceCtorEq, false_and, and_false, exists_false, or_false, false_or,
    Call.exempt.injEq]
  constructor
  · rintro ⟨actions, ⟨e, he, ⟨rfl, rfl⟩, -⟩, haction⟩
    exact ⟨e, he, rfl, haction⟩
  · rintro ⟨e, he, rfl, haction⟩
    exact ⟨e.exempt, ⟨e, he, ⟨rfl, rfl⟩, List.ne_nil_of_mem haction⟩, haction⟩

theorem lastRules?_calls (entries : List ModelEntry) (model : String) (action : Action) :
    lastRules? (entries.flatMap ModelEntry.calls) model action = none := by
  have hrules : ∀ c ∈ entries.flatMap ModelEntry.calls, c.rules? model action = none := by
    intro c hc
    obtain ⟨e, -, hc⟩ := List.mem_flatMap.mp hc
    rcases mem_calls_iff.mp hc with ⟨rfl, -⟩ | ⟨rfl, -⟩
    · rfl
    · rfl
  rw [lastRules?, List.filterMap_eq_nil_iff.mpr hrules]
  rfl

theorem groupFor?_eq_none_iff {key : String × Action} :
    groupFor? key groups = none ↔ key ∉ groups.map (·.1) := by
  induction groups with
  | nil => simp [groupFor?]
  | cons g groups ih =>
    obtain ⟨k, templates⟩ := g
    by_cases h : k = key
    · simp [groupFor?, h]
    · simp only [groupFor?, h, if_false, ih, List.map_cons, List.mem_cons, Ne.symm h, false_or]

/-- The rules that are registered last for a model and an action are those of their group, since
there is no second group of theirs. -/
theorem lastRules?_groups (hdistinct : (groups.map (·.1)).Nodup) (model : String)
    (action : Action) : lastRules? (groups.map Builder.groupCall) model action =
      (groupFor? (model, action) groups).map (·.map Template.rule) := by
  induction groups with
  | nil => rfl
  | cons g groups ih =>
    obtain ⟨key, templates⟩ := g
    obtain ⟨hkey, hdistinct⟩ := List.nodup_cons.mp hdistinct
    have hsplit : lastRules? ((key, templates) :: groups |>.map Builder.groupCall) model action =
        (lastRules? (groups.map Builder.groupCall) model action).or
          (lastRules? [Builder.groupCall (key, templates)] model action) :=
      lastRules?_append [Builder.groupCall (key, templates)] _ model action
    rw [hsplit, ih hdistinct]
    by_cases h : key = (model, action)
    · subst h
      have hnone : groupFor? (model, action) groups = none := groupFor?_eq_none_iff.mpr hkey
      simp [hnone, groupFor?, lastRules?, Builder.groupCall, Call.rules?]
    · have hother : ¬(key.1 = model ∧ key.2 = action) := fun hsame =>
        h (Prod.ext hsame.1 hsame.2)
      simp [groupFor?, h, lastRules?, Builder.groupCall, Call.rules?, hother]

end Calls

section Reading

variable {α β : Type} {read read' : Record} {members : Table Json}

theorem Fields.read?_map_eq_some_iff {f : α → β} {x : Fields α} {b : β} :
    (f <$> x).read? read = some (b, read') ↔ ∃ a, x.read? read = some (a, read') ∧ f a = b := by
  have hmap : (f <$> x).read? read = (x.read? read).map fun p => (f p.1, p.2) := rfl
  rw [hmap]
  simp

theorem Fields.read?_seq_eq_some_iff {f : Fields (α → β)} {x : Fields α} {b : β} :
    (f <*> x).read? read = some (b, read') ↔ ∃ g rest a,
      f.read? read = some (g, rest) ∧ x.read? rest = some (a, read') ∧ g a = b := by
  have hseq : (f <*> x).read? read = (f.read? read).bind fun p =>
      (x.read? p.2).map fun q => (p.1 q.1, q.2) := rfl
  rw [hseq, Option.bind_eq_some_iff]
  simp

theorem Fields.read?_required_eq_some_iff {name : String} {form : Form α} {a : α} :
    (required name form).read? (.named members) = some (a, read) ↔
      ∃ j, Table.getAll members name = [j] ∧ form.ofJson? j = some a ∧ .named members = read := by
  rcases hall : Table.getAll members name with - | ⟨j, - | ⟨k, rest⟩⟩
  · have hread : (required name form).read? (.named members) = none := by
      simp [required, field, hall]
    simp [hread]
  · have hread : (required name form).read? (.named members) =
        (form.ofJson? j).map (·, .named members) := by
      simp [required, field, hall]
    simp [hread]
  · have hread : (required name form).read? (.named members) = none := by
      simp [required, field, hall]
    simp [hread]

theorem PolicyEntry.action_of_form {raw : Json} {p : PolicyEntry}
    (h : PolicyEntry.form.ofJson? raw = some p) : ∃ members spelling, raw = .obj members ∧
      Table.getAll members "action" = [.str spelling] ∧ p.action = .ofName spelling := by
  cases raw with
  | obj members =>
    obtain ⟨⟨p, rest⟩, hp, rfl⟩ := Option.map_eq_some_iff.mp h
    obtain ⟨withTemplate, _, template, hfront, -, rfl⟩ := Fields.read?_seq_eq_some_iff.mp hp
    obtain ⟨withAction, _, action, hmap, haction, rfl⟩ :=
      Fields.read?_seq_eq_some_iff.mp hfront
    obtain ⟨model, hmodel, rfl⟩ := Fields.read?_map_eq_some_iff.mp hmap
    obtain ⟨-, -, -, rfl⟩ := Fields.read?_required_eq_some_iff.mp hmodel
    obtain ⟨written, hwritten, haction, -⟩ := Fields.read?_required_eq_some_iff.mp haction
    obtain ⟨spelling, hspelling, rfl⟩ := Option.map_eq_some_iff.mp haction
    cases written with
    | str text =>
      cases hspelling
      exact ⟨members, _, rfl, hwritten, rfl⟩
    | _ => cases hspelling
  | _ => cases h

end Reading

namespace Declarations

variable {d : Declarations} {s : Settings} {t : Schema} {error : Error}

/-- Where all models can be registered, everything that is declared is taken in: what the models say
first, then the policies group by group. -/
theorem run_apply (h : Schema.registerAll {} (d.models.map (·.model)) = .ok t) :
    ∃ q, d.apply.run.run (.ofSettings s) = (.ok (), ⟨s, t, q⟩) ∧
      (Policies.ofSettings s.policy).Records
        (declaredCalls d.models (groupPolicies d.policies)) q := by
  obtain ⟨p, hp, hopen, hmodels⟩ := Builder.run_entries (b := .ofSettings s) rfl h
  have hnew : ∀ g ∈ groupPolicies d.policies, p.lookup g.1.1 g.1.2 = none := by
    intro g hg
    rw [hmodels.lookup_fresh, lastRules?_calls]
  obtain ⟨q, hq, hgroups⟩ :=
    Builder.run_groups (b := ⟨s, t, p⟩) hopen (grouped_groupPolicies d.policies) hnew
  exact ⟨q, (Builder.run_bind_of_ok hp).trans hq, hmodels.trans hgroups⟩

theorem run_apply_of_error (h : Schema.registerAll {} (d.models.map (·.model)) = .error error) :
    (d.apply.run.run (.ofSettings s)).1 = .error error := by
  have hmodels := Builder.run_entries_of_error (b := .ofSettings s) rfl h
  exact congrArg Prod.fst (Builder.run_bind_of_error (Prod.ext hmodels rfl))

theorem registerAll_models_eq_ok_iff : Schema.registerAll {} (d.models.map (·.model)) = .ok t ↔
    ((d.models.map (·.model.name)).Nodup ∧ ∀ e ∈ d.models, e.model.names.Nodup) ∧
      ⟨d.models.map (.ofDecl ·.model), false⟩ = t := by
  have hfresh (name : String) : Schema.contains {} name = false := rfl
  rw [Schema.registerAll_eq_ok_iff rfl]
  simp [hfresh, and_assoc, Function.comp_def]

theorem registerAll_models_eq_error
    (h : Schema.registerAll {} (d.models.map (·.model)) = .error error) :
    (∃ e ∈ d.models, error = .schemaConflict e.model.name) ∨
      ∃ defect : SchemaDefect, error = defect.error := by
  rcases Schema.registerAll_eq_error rfl h with ⟨m, hm, hname⟩ | hdefect
  · obtain ⟨e, he, rfl⟩ := List.mem_map.mp hm
    exact .inl ⟨e, he, hname⟩
  · exact .inr hdefect

theorem lookup_of_records {q : Policies} (h : (Policies.ofSettings s.policy).Records
    (declaredCalls d.models (groupPolicies d.policies)) q) (model : String) (action : Action) :
    q.lookup model action = if templatesFor (model, action) d.policies = [] then none
      else some ((templatesFor (model, action) d.policies).map Template.rule) := by
  rw [h.lookup_fresh, declaredCalls, Policies.lastRules?_append, lastRules?_calls, Option.or_none,
    lastRules?_groups (grouped_groupPolicies d.policies).distinct, groupFor?_groupPolicies]
  split <;> rfl

/-- Declarations are taken in by a new builder when their models and the names within each model
differ; if not, a model is refused, and never a policy. Then every model is registered as it is
declared, the rules of a model and an action are those of all policies declared for them, in their
order, and rules are required where a declaration of the model says so, or by default unless one
exempts the action. -/
theorem apply_ofSettings (d : Declarations) (s : Settings) :
    let taken := d.apply.run.run (.ofSettings s)
    (taken.1 = .ok () ↔
      (d.models.map (·.model.name)).Nodup ∧ ∀ e ∈ d.models, e.model.names.Nodup) ∧
    (∀ error, taken.1 = .error error → (∃ e ∈ d.models, error = .schemaConflict e.model.name) ∨
      ∃ defect : SchemaDefect, error = defect.error) ∧
    (∀ model action, taken.1 ≠ .error (.policyConflict model action)) ∧
    (taken.1 = .ok () → taken.2.schema = ⟨d.models.map (.ofDecl ·.model), false⟩ ∧
      (∀ model action,
        ((∀ p ∈ d.policies, (p.model, p.action) ≠ (model, action)) →
          taken.2.policies.lookup model action = none) ∧
        ((∃ p ∈ d.policies, (p.model, p.action) = (model, action)) →
          taken.2.policies.lookup model action =
            some ((templatesFor (model, action) d.policies).map Template.rule)) ∧
        (taken.2.policies.requires model action = true ↔
          (∃ e ∈ d.models, e.model.name = model ∧ action ∈ e.require) ∨
            s.policy.requireByDefault = true ∧
              ¬∃ e ∈ d.models, e.model.name = model ∧ action ∈ e.exempt)) ∧
      ∀ raw, ∀ p ∈ d.policies, PolicyEntry.form.ofJson? raw = some p →
        ∃ members spelling rules, raw = .obj members ∧
          Table.getAll members "action" = [.str spelling] ∧
          taken.2.policies.lookup p.model (.ofName spelling) = some rules ∧
          p.template.rule ∈ rules) := by
  intro taken
  cases hall : Schema.registerAll {} (d.models.map (·.model)) with
  | error cause =>
    have herror : taken.1 = .error cause := run_apply_of_error hall
    have hunregistrable :
        ¬((d.models.map (·.model.name)).Nodup ∧ ∀ e ∈ d.models, e.model.names.Nodup) := by
      intro hdistinct
      have hok := registerAll_models_eq_ok_iff.mpr ⟨hdistinct, rfl⟩
      rw [hall] at hok
      cases hok
    have hcause := registerAll_models_eq_error hall
    rw [herror]
    refine ⟨by simpa using hunregistrable, fun error h => ?_, fun model action h => ?_, nofun⟩
    · cases h
      exact hcause
    · cases h
      rcases hcause with ⟨e, -, hname⟩ | ⟨defect, hdefect⟩
      · cases hname
      · cases hdefect
  | ok t =>
    obtain ⟨hdistinct, rfl⟩ := registerAll_models_eq_ok_iff.mp hall
    obtain ⟨q, hq, hrecords⟩ := run_apply (s := s) hall
    have htaken : taken = (.ok (), ⟨s, ⟨d.models.map (.ofDecl ·.model), false⟩, q⟩) := hq
    have hdeclared (model : String) (action : Action)
        (h : ∃ p ∈ d.policies, (p.model, p.action) = (model, action)) : q.lookup model action =
          some ((templatesFor (model, action) d.policies).map Template.rule) := by
      rw [lookup_of_records hrecords, if_neg (templatesFor_ne_nil_iff.mpr h)]
    rw [htaken]
    refine ⟨by simpa using hdistinct, nofun, nofun, fun _ => ⟨rfl, fun model action => ?_, ?_⟩⟩
    · refine ⟨fun hnone => ?_, hdeclared model action, ?_⟩
      · have hempty : templatesFor (model, action) d.policies = [] := by
          by_contra hne
          obtain ⟨p, hp, hkey⟩ := templatesFor_ne_nil_iff.mp hne
          exact hnone p hp hkey
        exact (lookup_of_records hrecords model action).trans (if_pos hempty)
      · rw [hrecords.requires_fresh, names_require_iff, names_exempt_iff]
    · intro raw p hp hread
      obtain ⟨members, spelling, rfl, hspelling, haction⟩ := PolicyEntry.action_of_form hread
      have hrules := hdeclared p.model p.action ⟨p, hp, rfl⟩
      rw [haction] at hrules
      refine ⟨members, spelling, _, rfl, hspelling, hrules, ?_⟩
      rw [← haction]
      exact List.mem_map_of_mem (mem_templatesFor hp)

def everyone : Template := { name := "everyone", effect := .allow }

def frozen : Template := { name := "frozen", effect := .deny }

def mixedDeclarations : Declarations where
  models := [{ model := { name := "customer" }, require := [.read] },
    { model := { name := "order" }, exempt := [.update] }]
  policies := [⟨"order", .read, everyone⟩, ⟨"customer", .read, frozen⟩, ⟨"order", .read, frozen⟩]

/-- The last policy on orders as it is written, with another name of the action. -/
def frozenOrders : Json := .obj [("action", .str "SELECT"), ("effect", .str "deny"),
  ("model", .str "order"), ("name", .str "frozen")]

/-- Both policies on orders hold although duplicates are errors, and the order in which they are
declared is kept. -/
theorem mixedDeclarations_apply :
    let s : Settings := { policy := Policies.strictSettings }
    let taken := mixedDeclarations.apply.run.run (.ofSettings s)
    taken.1 = .ok () ∧ taken.2.schema.model? "order" = some (.ofDecl { name := "order" }) ∧
      taken.2.policies.lookup "order" .read = some [everyone.rule, frozen.rule] ∧
      taken.2.policies.lookup "order" .update = none ∧
      taken.2.policies.requires "customer" .read = true ∧
      taken.2.policies.requires "order" .update = false ∧
      ∃ rules, taken.2.policies.lookup "order" (.ofName "SELECT") = some rules ∧
        frozen.rule ∈ rules := by
  intro s taken
  obtain ⟨hok, -, -, hall⟩ := apply_ofSettings mixedDeclarations s
  have htaken : taken.1 = .ok () := hok.mpr (by decide)
  obtain ⟨hschema, hkeys, hspelled⟩ := hall htaken
  have hselect : Action.ofName "SELECT" = .read := by decide +kernel
  have hspelling : PolicyEntry.form.ofJson? frozenOrders = some ⟨"order", .read, frozen⟩ := by
    have hform : PolicyEntry.form.ofJson? frozenOrders =
        some ⟨"order", .ofName "SELECT", frozen⟩ := rfl
    rw [hform, hselect]
  refine ⟨htaken, ?_, ?_, ?_, ?_, ?_, ?_⟩
  · rw [hschema]
    rfl
  · exact (hkeys "order" .read).2.1 ⟨⟨"order", .read, everyone⟩, by simp [mixedDeclarations], rfl⟩
  · exact (hkeys "order" .update).1 (by simp [mixedDeclarations])
  · exact (hkeys "customer" .read).2.2.mpr (.inl (by simp [mixedDeclarations]))
  · rw [← Bool.not_eq_true, (hkeys "order" .update).2.2]
    simp [mixedDeclarations]
  · obtain ⟨members, spelling, rules, hmembers, hwritten, hlookup, hrule⟩ :=
      hspelled frozenOrders ⟨"order", .read, frozen⟩ (by simp [mixedDeclarations]) hspelling
    cases hmembers
    cases hwritten
    exact ⟨rules, hlookup, hrule⟩

end Declarations

end RowPolicy
