import RowPolicy.Proofs.Registration
import RowPolicy.Proofs.SealedPolicies

/-!
Policies over their whole history, from the settings they start with through any calls and sealings.
Main statement: at every point the rules that are listed are those that the last successful call for
them registered, an action must have a rule if a successful call required it, or by default if none
exempted it, and what a call comes to depends on this history alone. A call that fails leaves
nothing behind, although a model is entered before its rules are found to be taken.
-/
namespace RowPolicy

namespace Table

variable {α : Type} {t : Table α} {k : String} {start : α}

theorem update_update (k : String) (start : α) (f g : α → α) (t : Table α) :
    update k start g (update k start f t) = update k start (g ∘ f) t := by
  induction t with
  | nil => simp [update]
  | cons p t ih =>
    obtain ⟨key, value⟩ := p
    by_cases h : key = k
    · simp [update, h]
    · simp [update, h, ih]

theorem update_id_of_get? {v : α} (h : get? t k = some v) : update k start id t = t := by
  induction t with
  | nil => cases h
  | cons p t ih =>
    obtain ⟨key, value⟩ := p
    by_cases hkey : key = k
    · simp [update, hkey]
    · have hrest : get? t k = some v := by simpa [hkey] using h
      simp [update, hkey, ih hrest]

end Table

namespace Policies

variable {p q : Policies} {c : Call} {model : String} {action : Action}

theorem compose_of_open (h : p.isSealed = false) (model : String) (action : Action)
    (rules : List Rule) : p.compose model action rules =
      if rules = [] then
        .error (.configuration ("empty rule composition for " ++ model ++ "." ++ action.name))
      else if p.duplicates = .error ∧ (p.lookup model action).isSome = true then
        .error (.policyConflict model action.name)
      else .ok { p with rules := Table.update model [] (setRules action rules) p.rules } := by
  by_cases hrules : rules = []
  · simp [compose, checkOpen, h, hrules]
  · by_cases htaken : p.duplicates = .error ∧ (p.lookup model action).isSome = true
    · simp [compose, checkOpen, h, hrules, htaken]
    · simp [compose, checkOpen, h, hrules, htaken]

theorem compose_of_sealed (h : p.isSealed = true) (model : String) (action : Action)
    (rules : List Rule) : p.compose model action rules =
      .error (.registrySealed ("cannot register policy for " ++ model ++ "." ++ action.name)) :=
  result_of_actions (c := .compose model action rules) h rfl

theorem exists_of_compose (hopen : p.isSealed = false) {rules : List Rule} (hrules : rules ≠ [])
    (hfree : p.duplicates = .replace ∨ p.lookup model action = none) :
    ∃ q, p.compose model action rules = .ok q := by
  have htaken : ¬(p.duplicates = .error ∧ (p.lookup model action).isSome = true) := by
    rintro ⟨herror, hsome⟩
    rcases hfree with hreplace | hnone
    · rw [hreplace] at herror
      cases herror
    · rw [hnone] at hsome
      cases hsome
  exact ⟨_, compose_eq_ok_iff.mpr ⟨hopen, hrules, htaken, rfl⟩⟩

section InPlace

def enter (p : Policies) (model : String) : Policies :=
  { p with rules := Table.update model [] id p.rules }

@[simp] theorem duplicates_enter (p : Policies) (model : String) :
    (p.enter model).duplicates = p.duplicates := rfl

@[simp] theorem lookup_enter (p : Policies) (model m : String) (action : Action) :
    (p.enter model).lookup m action = p.lookup m action := by
  unfold lookup enter
  rw [Table.get?_update]
  by_cases h : model = m
  · subst h
    cases Table.get? p.rules model <;> simp [rulesFor?]
  · simp [h]

theorem enter_of_taken (h : (p.lookup model action).isSome = true) : p.enter model = p := by
  obtain ⟨rules, hrules⟩ := Option.isSome_iff_exists.mp h
  obtain ⟨entries, hentries, -⟩ := Option.bind_eq_some_iff.mp hrules
  rw [enter, Table.update_id_of_get? hentries]

/-- Register rules in place. The model is entered before it is known whether the rules that it has
may be replaced. -/
def composeInPlace (p : Policies) (model : String) (action : Action) (rules : List Rule) :
    Except Error Unit × Policies :=
  match p.checkOpen model action with
  | .error e => (.error e, p)
  | .ok () =>
    if rules = [] then
      (.error (.configuration ("empty rule composition for " ++ model ++ "." ++ action.name)), p)
    else
      let p := p.enter model
      if p.duplicates = .error ∧ (p.lookup model action).isSome = true then
        (.error (.policyConflict model action.name), p)
      else (.ok (), { p with rules := Table.update model [] (setRules action rules) p.rules })

def Call.inPlace (p : Policies) : Call → Except Error Unit × Policies
  | register model action rule => p.composeInPlace model action [rule]
  | compose model action rules => p.composeInPlace model action rules
  | require model actions =>
    match actions.forM (p.checkOpen model) with
    | .error e => (.error e, p)
    | .ok () => (.ok (), { p with required := Table.update model [] (· ++ actions) p.required })
  | exempt model actions =>
    match actions.forM (p.checkOpen model) with
    | .error e => (.error e, p)
    | .ok () => (.ok (), { p with exempt := Table.update model [] (· ++ actions) p.exempt })

/-- What is left behind by a result: new policies, or those of before together with an error. -/
def settleOn (p : Policies) : Except Error Policies → Except Error Unit × Policies
  | .ok q => (.ok (), q)
  | .error e => (.error e, p)

theorem composeInPlace_eq (p : Policies) (model : String) (action : Action) (rules : List Rule) :
    p.composeInPlace model action rules = p.settleOn (p.compose model action rules) := by
  cases hsealed : p.isSealed with
  | true =>
    rw [compose_of_sealed hsealed]
    simp [composeInPlace, checkOpen, hsealed, settleOn]
  | false =>
    have hcheck : p.checkOpen model action = .ok () := by simp [checkOpen, hsealed]
    rw [compose_of_open hsealed, composeInPlace, hcheck]
    by_cases hrules : rules = []
    · simp [hrules, settleOn]
    · simp only [hrules, if_false, duplicates_enter, lookup_enter]
      by_cases htaken : p.duplicates = .error ∧ (p.lookup model action).isSome = true
      · rw [if_pos htaken, if_pos htaken, enter_of_taken htaken.2]
        rfl
      · rw [if_neg htaken, if_neg htaken, enter, Table.update_update]
        rfl

theorem inPlace_eq (p : Policies) (c : Call) : c.inPlace p = p.settleOn (c.result p) := by
  cases c with
  | register model action rule => exact composeInPlace_eq p model action [rule]
  | compose model action rules => exact composeInPlace_eq p model action rules
  | require model actions =>
    rw [Call.inPlace, Call.result, require]
    cases actions.forM (p.checkOpen model) <;> rfl
  | exempt model actions =>
    rw [Call.inPlace, Call.result, exemptActions]
    cases actions.forM (p.checkOpen model) <;> rfl

end InPlace

section History

inductive Step where
  | call (c : Call)
  | sealUp

/-- The policies after a step; those of before if it is a call that fails. -/
def Step.after (p : Policies) : Step → Policies
  | call c => c.after p
  | sealUp => p.sealUp

def follow (p : Policies) (steps : List Step) : Policies := steps.foldl Step.after p

def Step.accepted? (p : Policies) : Step → Option Call
  | call c => (c.result p).toOption.map fun _ => c
  | sealUp => none

def accepted (p : Policies) : List Step → List Call
  | [] => []
  | s :: steps => (s.accepted? p).toList ++ accepted (s.after p) steps

def Call.rules? (model : String) (action : Action) : Call → Option (List Rule)
  | register m a rule => if m = model ∧ a = action then some [rule] else none
  | compose m a rules => if m = model ∧ a = action then some rules else none
  | require _ _ => none
  | exempt _ _ => none

/-- The rules that some calls register last for a model and an action. -/
def lastRules? (calls : List Call) (model : String) (action : Action) : Option (List Rule) :=
  (calls.filterMap (Call.rules? model action)).getLast?

/-- Some call of a kind, a requirement or an exemption, names the action on the model. -/
def Names (kind : String → List Action → Call) (calls : List Call) (model : String)
    (action : Action) : Prop :=
  ∃ actions, kind model actions ∈ calls ∧ action ∈ actions

/-- What calls that succeed make of policies. -/
structure Records (p : Policies) (calls : List Call) (q : Policies) : Prop where
  lookup : ∀ model action,
    q.lookup model action = (lastRules? calls model action).or (p.lookup model action)
  required : ∀ model action, lists q.required model action = true ↔
    lists p.required model action = true ∨ Names .require calls model action
  exempt : ∀ model action, lists q.exempt model action = true ↔
    lists p.exempt model action = true ∨ Names .exempt calls model action
  duplicates : q.duplicates = p.duplicates
  requireByDefault : q.requireByDefault = p.requireByDefault

section Calls

variable {calls more : List Call}

theorem lastRules?_append (calls more : List Call) (model : String) (action : Action) :
    lastRules? (calls ++ more) model action =
      (lastRules? more model action).or (lastRules? calls model action) := by
  rw [lastRules?, List.filterMap_append, List.getLast?_append]
  rfl

theorem names_append {kind : String → List Action → Call} :
    Names kind (calls ++ more) model action ↔
      Names kind calls model action ∨ Names kind more model action := by
  simp only [Names, List.mem_append, or_and_right, exists_or]

theorem lastRules?_of_foreign (h : ¬(c.model = model ∧ action ∈ c.actions)) :
    lastRules? [c] model action = none := by
  cases c <;> simp_all [lastRules?, Call.rules?, Call.model, Call.actions, eq_comm]

theorem not_names_of_foreign {kind : String → List Action → Call}
    (hkind : ∀ name actions, (kind name actions).model = name ∧
      (kind name actions).actions = actions)
    (h : ¬(c.model = model ∧ action ∈ c.actions)) : ¬Names kind [c] model action := by
  rintro ⟨actions, hmem, haction⟩
  have hc : kind model actions = c := List.mem_singleton.mp hmem
  have hnames := hkind model actions
  rw [hc] at hnames
  exact h ⟨hnames.1, hnames.2 ▸ haction⟩

theorem names_singleton {kind : String → List Action → Call}
    (hkind : ∀ name actions, (kind name actions).model = name ∧
      (kind name actions).actions = actions) {name : String} {actions : List Action} :
    Names kind [kind name actions] model action ↔ name = model ∧ action ∈ actions := by
  have hnamed := hkind name actions
  constructor
  · intro hnames
    apply Classical.byContradiction
    intro hforeign
    refine not_names_of_foreign hkind ?_ hnames
    rwa [hnamed.1, hnamed.2]
  · rintro ⟨rfl, haction⟩
    exact ⟨actions, List.mem_singleton_self _, haction⟩

end Calls

namespace Records

theorem refl (p : Policies) : p.Records [] p where
  lookup model action := by simp [lastRules?]
  required model action := by simp [Names]
  exempt model action := by simp [Names]
  duplicates := rfl
  requireByDefault := rfl

theorem trans {r : Policies} {calls more : List Call} (h : p.Records calls q)
    (hmore : q.Records more r) : p.Records (calls ++ more) r where
  lookup model action := by
    rw [hmore.lookup, h.lookup, lastRules?_append, Option.or_assoc]
  required model action := by
    rw [hmore.required, h.required, names_append, or_assoc]
  exempt model action := by
    rw [hmore.exempt, h.exempt, names_append, or_assoc]
  duplicates := hmore.duplicates.trans h.duplicates
  requireByDefault := hmore.requireByDefault.trans h.requireByDefault

theorem sealUp (p : Policies) : p.Records [] p.sealUp where
  lookup := (refl p).lookup
  required := (refl p).required
  exempt := (refl p).exempt
  duplicates := rfl
  requireByDefault := rfl

end Records

theorem lists_update_append (t : Table (List Action)) (name model : String)
    (actions : List Action) (action : Action) :
    lists (Table.update name [] (· ++ actions) t) model action = true ↔
      lists t model action = true ∨ name = model ∧ action ∈ actions := by
  unfold lists
  rw [Table.get?_update]
  by_cases h : name = model
  · subst h
    cases Table.get? t name <;> simp
  · simp [h]

theorem records_of_compose {rules : List Rule} (h : p.compose model action rules = .ok q) :
    p.Records [.compose model action rules] q := by
  have hlookup := lookup_of_compose h
  obtain ⟨-, -, -, rfl⟩ := compose_eq_ok_iff.mp h
  refine ⟨fun m a => ?_, fun m a => by simp [Names], fun m a => by simp [Names], rfl, rfl⟩
  rw [hlookup]
  by_cases hkey : model = m ∧ action = a
  · simp [lastRules?, Call.rules?, hkey]
  · simp [lastRules?, Call.rules?, hkey]

theorem records_of_result (h : c.result p = .ok q) : p.Records [c] q := by
  cases c with
  | register model action rule =>
    have hcompose : p.compose model action [rule] = .ok q := h
    have hrecords := records_of_compose hcompose
    exact ⟨hrecords.lookup, fun m a => by simp [hrecords.required, Names],
      fun m a => by simp [hrecords.exempt, Names], hrecords.duplicates,
      hrecords.requireByDefault⟩
  | compose model action rules => exact records_of_compose h
  | require model actions =>
    obtain ⟨-, -, hq⟩ := Result.bind_eq_ok_iff.mp h
    cases hq
    refine ⟨fun m a => by rfl, fun m a => ?_, fun m a => by simp [Names], rfl, rfl⟩
    rw [lists_update_append, names_singleton fun _ _ => ⟨rfl, rfl⟩]
  | exempt model actions =>
    obtain ⟨-, -, hq⟩ := Result.bind_eq_ok_iff.mp h
    cases hq
    refine ⟨fun m a => by rfl, fun m a => by simp [Names], fun m a => ?_, rfl, rfl⟩
    rw [lists_update_append, names_singleton fun _ _ => ⟨rfl, rfl⟩]

/-- What a step leaves behind, of which a call that fails is no part. -/
theorem records_after (p : Policies) (s : Step) : p.Records (s.accepted? p).toList (s.after p) := by
  cases s with
  | sealUp => exact Records.sealUp p
  | call c =>
    cases hresult : c.result p with
    | ok q =>
      have hrecords := records_of_result hresult
      simpa [Step.accepted?, Step.after, Call.after, hresult, Except.toOption] using hrecords
    | error e =>
      have hrecords := Records.refl p
      simpa [Step.accepted?, Step.after, Call.after, hresult, Except.toOption] using hrecords

theorem records_follow (p : Policies) (steps : List Step) :
    p.Records (accepted p steps) (p.follow steps) := by
  induction steps generalizing p with
  | nil => exact Records.refl p
  | cons s steps ih =>
    have hafter := records_after p s
    have hrest := ih (s.after p)
    exact hafter.trans hrest

theorem isSealed_of_result (h : c.result p = .ok q) : q.isSealed = p.isSealed := by
  cases c with
  | register model action rule =>
    obtain ⟨-, -, -, rfl⟩ := compose_eq_ok_iff.mp h
    rfl
  | compose model action rules =>
    obtain ⟨-, -, -, rfl⟩ := compose_eq_ok_iff.mp h
    rfl
  | require model actions | exempt model actions =>
    obtain ⟨-, -, hq⟩ := Result.bind_eq_ok_iff.mp h
    cases hq
    rfl

theorem isSealed_call (p : Policies) (c : Call) : (c.after p).isSealed = p.isSealed := by
  cases hresult : c.result p with
  | ok q => simpa [Call.after, hresult] using isSealed_of_result hresult
  | error e => simp [Call.after, hresult]

theorem isSealed_follow (p : Policies) (steps : List Step) :
    (p.follow steps).isSealed = true ↔ p.isSealed = true ∨ .sealUp ∈ steps := by
  induction steps generalizing p with
  | nil => simp [follow]
  | cons s steps ih =>
    have hrest : (p.follow (s :: steps)).isSealed = ((s.after p).follow steps).isSealed := rfl
    rw [hrest, ih, List.mem_cons]
    cases s with
    | sealUp => simp [Step.after, Policies.sealUp]
    | call c => simp [Step.after, isSealed_call]

end History

theorem foreign_after (p : Policies) (h : ¬(c.model = model ∧ action ∈ c.actions)) :
    (c.after p).lookup model action = p.lookup model action ∧
      (c.after p).requires model action = p.requires model action := by
  cases hresult : c.result p with
  | error e => simp [Call.after, hresult]
  | ok q =>
    have hafter : c.after p = q := by simp [Call.after, hresult]
    have hrecords := records_of_result hresult
    have hunrequired : ¬Names .require [c] model action :=
      not_names_of_foreign (fun _ _ => ⟨rfl, rfl⟩) h
    have hunexempt : ¬Names .exempt [c] model action :=
      not_names_of_foreign (fun _ _ => ⟨rfl, rfl⟩) h
    have hrequired : lists q.required model action = lists p.required model action := by
      rw [Bool.eq_iff_iff, hrecords.required, or_iff_left hunrequired]
    have hexempt : lists q.exempt model action = lists p.exempt model action := by
      rw [Bool.eq_iff_iff, hrecords.exempt, or_iff_left hunexempt]
    rw [hafter, requires, requires, hrequired, hexempt, hrecords.requireByDefault,
      hrecords.lookup, lastRules?_of_foreign h]
    exact ⟨rfl, rfl⟩

theorem requires_iff : p.requires model action = true ↔ lists p.required model action = true ∨
    p.requireByDefault = true ∧ ¬lists p.exempt model action = true := by
  simp [requires]

section Fresh

variable {s : PolicySettings} {calls : List Call}

theorem Records.lookup_fresh (h : (ofSettings s).Records calls p) (model : String)
    (action : Action) : p.lookup model action = lastRules? calls model action := by
  have hnone : (ofSettings s).lookup model action = none := rfl
  rw [h.lookup, hnone, Option.or_none]

/-- A requirement outweighs an exemption, and an exemption outweighs the default. -/
theorem Records.requires_fresh (h : (ofSettings s).Records calls p) (model : String)
    (action : Action) : p.requires model action = true ↔ Names .require calls model action ∨
      s.requireByDefault = true ∧ ¬Names .exempt calls model action := by
  have hrequired : lists p.required model action = true ↔ Names .require calls model action := by
    rw [h.required]
    exact or_iff_right Bool.false_ne_true
  have hexempt : lists p.exempt model action = true ↔ Names .exempt calls model action := by
    rw [h.exempt]
    exact or_iff_right Bool.false_ne_true
  have hdefault : p.requireByDefault = s.requireByDefault := h.requireByDefault
  rw [requires_iff, hdefault, hrequired, hexempt]

end Fresh

/-- Policies answer as their history says. The rules listed are those of the last successful call
that registered some; an action needs a rule if it was required, or by default if it was not
exempted. Rules are refused once the policies are sealed, and before if there are none or, where
duplicates are errors, if some are listed. A call that fails leaves the policies as they were, and
no call changes an answer on another model or action. -/
theorem follow_ofSettings (s : PolicySettings) (steps : List Step) :
    let p := (ofSettings s).follow steps
    let calls := accepted (ofSettings s) steps
    (∀ model action, p.lookup model action = lastRules? calls model action) ∧
      (∀ model action, p.requires model action = true ↔ Names .require calls model action ∨
        s.requireByDefault = true ∧ ¬Names .exempt calls model action) ∧
      (.sealUp ∈ steps → ∀ model action rules, p.compose model action rules = .error
        (.registrySealed ("cannot register policy for " ++ model ++ "." ++ action.name))) ∧
      (.sealUp ∉ steps → ∀ model action,
        p.compose model action [] = .error
          (.configuration ("empty rule composition for " ++ model ++ "." ++ action.name)) ∧
        ∀ rules, rules ≠ [] →
          (s.duplicates = .error → (lastRules? calls model action).isSome = true →
            p.compose model action rules = .error (.policyConflict model action.name)) ∧
          (s.duplicates = .replace ∨ lastRules? calls model action = none →
            ∃ q, p.compose model action rules = .ok q)) ∧
      (∀ c : Call, ∀ e, c.result p = .error e → c.inPlace p = (.error e, p)) ∧
      ∀ c : Call, ∀ model action, ¬(c.model = model ∧ action ∈ c.actions) →
        (c.after p).lookup model action = p.lookup model action ∧
          (c.after p).requires model action = p.requires model action := by
  intro p calls
  have hrecords : (ofSettings s).Records calls p := records_follow (ofSettings s) steps
  have hsealed : p.isSealed = true ↔ .sealUp ∈ steps := by
    have hfresh : ¬(ofSettings s).isSealed = true := Bool.false_ne_true
    exact (isSealed_follow (ofSettings s) steps).trans (or_iff_right hfresh)
  have hlookup := hrecords.lookup_fresh
  have hduplicates : p.duplicates = s.duplicates := hrecords.duplicates
  refine ⟨hlookup, hrecords.requires_fresh, ?_, ?_, ?_, ?_⟩
  · intro hmem model action rules
    exact compose_of_sealed (hsealed.mpr hmem) model action rules
  · intro hmem model action
    have hopen : p.isSealed = false := Bool.eq_false_iff.mpr fun h => hmem (hsealed.mp h)
    rw [← hlookup, ← hduplicates]
    refine ⟨?_, fun rules hrules => ⟨fun herror hlisted => ?_, exists_of_compose hopen hrules⟩⟩
    · rw [compose_of_open hopen, if_pos rfl]
    · rw [compose_of_open hopen, if_neg hrules, if_pos ⟨herror, hlisted⟩]
  · intro c e he
    rw [inPlace_eq, he]
    rfl
  · intro c model action h
    exact foreign_after p h

def openRule : Rule := .ofOutcome "open" fun _ => .allow

def closedRule : Rule := .ofOutcome "closed" fun _ => .deny

/-- Orders are closed and then to be opened, which is refused, and customers are exempted before
reading them is required. -/
def strictSteps : List Step :=
  [.call (.compose "order" .read [closedRule]), .call (.register "order" .read openRule),
    .call (.exempt "customer" [.read, .update]), .call (.require "customer" [.read])]

def strictSettings : PolicySettings := { duplicates := .error, requireByDefault := true }

/-- Where duplicates are errors the first rule stays, and a requirement outweighs an exemption. -/
theorem strictSteps_follow :
    let p := (ofSettings strictSettings).follow strictSteps
    (p.lookup "order" .read = some [closedRule] ∧ p.requires "customer" .read = true ∧
      p.requires "customer" .update = false ∧ p.requires "tag" .read = true) ∧
      (.sealUp ∉ strictSteps ∧
        p.compose "order" .read [openRule] = .error (.policyConflict "order" "read") ∧
        Call.inPlace p (.register "order" .read openRule) =
          (.error (.policyConflict "order" "read"), p) ∧
        ∃ q, p.compose "order" .update [openRule] = .ok q) ∧
      ((Call.register "order" .update openRule).after p).lookup "order" .read =
        some [closedRule] ∧
      .sealUp ∈ strictSteps ++ [.sealUp] ∧
      ((ofSettings strictSettings).follow (strictSteps ++ [.sealUp])).compose "tag" .read
        [openRule] = .error (.registrySealed "cannot register policy for tag.read") := by
  intro p
  obtain ⟨hlookup, hrequires, -, hopen, hinPlace, hforeign⟩ :=
    follow_ofSettings strictSettings strictSteps
  obtain ⟨-, -, hsealed, -⟩ := follow_ofSettings strictSettings (strictSteps ++ [.sealUp])
  have hcalls : accepted (ofSettings strictSettings) strictSteps =
      [.compose "order" .read [closedRule], .exempt "customer" [.read, .update],
        .require "customer" [.read]] := rfl
  rw [hcalls] at hlookup hrequires hopen
  have horder : p.lookup "order" .read = some [closedRule] := hlookup "order" .read
  have hread : p.requires "customer" .read = true :=
    (hrequires _ _).mpr (.inl ⟨[.read], by simp, by simp⟩)
  have hupdate : p.requires "customer" .update = false := by
    rw [← Bool.not_eq_true, hrequires]
    simp [Names]
  have htag : p.requires "tag" .read = true :=
    (hrequires _ _).mpr (.inr ⟨rfl, by simp [Names]⟩)
  have hunsealed : .sealUp ∉ strictSteps := by simp [strictSteps]
  have hconflict : p.compose "order" .read [openRule] = .error (.policyConflict "order" "read") :=
    ((hopen hunsealed "order" .read).2 _ (by simp)).1 rfl rfl
  have hfree : ∃ q, p.compose "order" .update [openRule] = .ok q :=
    ((hopen hunsealed "order" .update).2 _ (by simp)).2 (.inr rfl)
  have hother := (hforeign (.register "order" .update openRule) "order" .read
    (by simp [Call.actions])).1
  refine ⟨⟨horder, hread, hupdate, htag⟩, ⟨hunsealed, hconflict, ?_, hfree⟩, ?_, ?_, ?_⟩
  · exact hinPlace (.register "order" .read openRule) _ hconflict
  · exact hother.trans horder
  · simp
  · exact hsealed (by simp) "tag" .read [openRule]

end Policies
end RowPolicy
