import RowPolicy.Proofs.Composition
import RowPolicy.Proofs.Registration
import RowPolicy.Proofs.RoundTrip
import RowPolicy.Proofs.Valuation

/-!
Which rows rules let pass together. A decision lets a row pass if it allows, or if its restriction
is true of the row; a denial and a failure let no row pass. Main statement: rules that are
registered together let exactly those rows pass that each of them lets pass alone.
-/
namespace RowPolicy

/-- Whether an outcome lets a row pass on which the conditions have the values of `v`. -/
def Outcome.Passes (v : Condition → Truth) : Outcome → Prop
  | allow => True
  | deny => False
  | restrict f => f.eval v = .yes

/-- Whether the answer of a single rule lets a row pass, once its restriction is checked. -/
def Reply.Passes (check : Filter → Option Filter) (v : Condition → Truth) (r : Reply) : Prop :=
  match r.outcome with
  | some .allow => True
  | some .deny => False
  | some (.restrict f) => ∃ g ∈ check f, g.eval v = .yes
  | none => False

variable {check : Filter → Option Filter} {v : Condition → Truth}

theorem Reply.passes_iff {r : Reply} : r.Passes check v ↔
    ¬r.denies check = true ∧ ¬r.timedOut = true ∧
      ∀ x ∈ r.restriction? check, x.2.eval v = .yes := by
  unfold Passes denies timedOut restriction?
  cases r.outcome with
  | none => simp
  | some outcome =>
    cases outcome with
    | allow => simp
    | deny => simp
    | restrict f => cases hcheck : check f <;> simp [hcheck]

theorem eval_conj_restrictions {replies : List Reply}
    (hdenial : ¬∃ r ∈ replies, r.denies check = true)
    (htimeout : ¬∃ r ∈ replies, r.timedOut = true) :
    (Filter.conj ((replies.filterMap (Reply.restriction? check)).map (·.2))).eval v = .yes ↔
      ∀ r ∈ replies, r.Passes check v := by
  rw [Filter.eval_conj, Filter.evalAll_eq_yes_iff]
  constructor
  · intro h r hr
    apply Reply.passes_iff.mpr
    refine ⟨fun hdenies => hdenial ⟨r, hr, hdenies⟩, fun hout => htimeout ⟨r, hr, hout⟩, ?_⟩
    intro x hx
    exact h x.2 (List.mem_map.mpr ⟨x, List.mem_filterMap.mpr ⟨r, hr, hx⟩, rfl⟩)
  · intro h f hf
    obtain ⟨x, hx, rfl⟩ := List.mem_map.mp hf
    obtain ⟨r, hr, hx⟩ := List.mem_filterMap.mp hx
    exact (Reply.passes_iff.mp (h r hr)).2.2 x hx

namespace Engine

def Passes (e : Engine) (model : String) (action : Action) (actor : Actor)
    (v : Condition → Truth) : Prop :=
  ∃ d, (e.decide model action actor).result = .ok d ∧ d.outcome.Passes v

def withPolicies (e : Engine) (p : Policies) : Engine := { e with policies := p.sealUp }

variable {e : Engine} {model : String} {action : Action} {actor : Actor} {rules : List Rule}
  {p q : Policies}

theorem passes_iff_of_ok {d : Decision} (h : (e.decide model action actor).result = .ok d) :
    e.Passes model action actor v ↔ d.outcome.Passes v := by
  simp [Passes, h]

theorem not_passes_of_error {error : Error}
    (h : (e.decide model action actor).result = .error error) :
    ¬e.Passes model action actor v := by
  simp [Passes, h]

theorem passes_iff_replies (registered : e.schema.contains model = true)
    (listed : e.policies.lookup model action = some rules) :
    e.Passes model action actor v ↔
      ∀ r ∈ (e.replies actor rules).map (·.2), r.Passes (e.check model) v := by
  have complete := arrivalOrder_arrives e.settings.policy.concurrency.toNat (e.replies actor rules)
  by_cases hdenial : ∃ r ∈ (e.replies actor rules).map (·.2), r.denies (e.check model) = true
  · obtain ⟨a, rule, -, -, hresult⟩ := decideAs_of_denial registered listed complete hdenial
    obtain ⟨r, hr, hdenies⟩ := hdenial
    apply iff_of_false
    · rw [passes_iff_of_ok hresult]
      exact id
    · intro h
      exact (Reply.passes_iff.mp (h r hr)).1 hdenies
  · by_cases htimeout : ∃ r ∈ (e.replies actor rules).map (·.2), r.timedOut = true
    · obtain ⟨a, rule, -, -, hresult⟩ :=
        decideAs_of_timeout registered listed complete hdenial htimeout
      obtain ⟨r, hr, htimedOut⟩ := htimeout
      apply iff_of_false
      · exact not_passes_of_error hresult
      · intro h
        exact (Reply.passes_iff.mp (h r hr)).2.1 htimedOut
    · have hresult := decideAs_of_restrictions registered listed complete hdenial htimeout
      rw [passes_iff_of_ok hresult, ← eval_conj_restrictions hdenial htimeout]
      -- A restriction that matches every row has become permission.
      split
      · rename_i hall
        rw [hall]
        simp [Outcome.Passes]
      · rfl

theorem passes_iff_of_compose (h : p.compose model action rules = .ok q) :
    (e.withPolicies q).Passes model action actor v ↔ e.schema.contains model = true ∧
      ∀ rule ∈ rules, (rule.reply e.settings.policy.budget actor).2.Passes (e.check model) v := by
  cases hregistered : e.schema.contains model with
  | false =>
    have hresult : ((e.withPolicies q).decide model action actor).result =
        .error (.unknownModel model) := result_decideAs_of_unregistered hregistered
    simp [not_passes_of_error hresult]
  | true =>
    have registered : (e.withPolicies q).schema.contains model = true := hregistered
    have listed : (e.withPolicies q).policies.lookup model action = some rules := by
      show q.lookup model action = some rules
      simp [Policies.lookup_of_compose h]
    rw [passes_iff_replies registered listed]
    show (∀ r ∈ (e.replies actor rules).map (·.2), r.Passes (e.check model) v) ↔ _
    simp [replies]

/-- Rules that are registered together let those rows pass that each of them lets pass when it is
registered by itself. So more rules never let more rows pass, and neither the order of the rules nor
their repetition matters. -/
theorem passes_compose_iff (h : p.compose model action rules = .ok q) (e : Engine)
    (actor : Actor) (v : Condition → Truth) :
    ((e.withPolicies q).Passes model action actor v ↔
      ∀ rule ∈ rules, ∃ alone, p.register model action rule = .ok alone ∧
        (e.withPolicies alone).Passes model action actor v) ∧
    ∀ others q', p.compose model action others = .ok q' →
      (rules ⊆ others → (e.withPolicies q').Passes model action actor v →
        (e.withPolicies q).Passes model action actor v) ∧
      ((∀ rule, rule ∈ rules ↔ rule ∈ others) →
        ((e.withPolicies q').Passes model action actor v ↔
          (e.withPolicies q).Passes model action actor v)) := by
  have halone : ∀ rule, (∃ alone, p.register model action rule = .ok alone ∧
      (e.withPolicies alone).Passes model action actor v) ↔ e.schema.contains model = true ∧
        (rule.reply e.settings.policy.budget actor).2.Passes (e.check model) v := by
    intro rule
    obtain ⟨alone, hregister⟩ := Policies.exists_register_of_compose h rule
    simp [hregister, passes_iff_of_compose (e := e) hregister]
  refine ⟨?_, ?_⟩
  · simp only [passes_iff_of_compose h, halone]
    obtain ⟨-, hrules, -, -⟩ := Policies.compose_eq_ok_iff.mp h
    obtain ⟨first, hfirst⟩ := List.exists_mem_of_ne_nil rules hrules
    constructor
    · rintro ⟨hregistered, hpasses⟩ rule hrule
      exact ⟨hregistered, hpasses rule hrule⟩
    · intro hpasses
      exact ⟨(hpasses first hfirst).1, fun rule hrule => (hpasses rule hrule).2⟩
  · intro others q' hothers
    simp only [passes_iff_of_compose h, passes_iff_of_compose hothers]
    refine ⟨?_, ?_⟩
    · rintro hsubset ⟨hregistered, hpasses⟩
      exact ⟨hregistered, fun rule hrule => hpasses rule (hsubset hrule)⟩
    · intro hsame
      simp only [hsame]

def shortlisted : Rule :=
  .ofOutcome "shortlisted" fun _ => .restrict (.leaf ⟨"name", .like, .single (.text "A%")⟩)

def unbarred : Rule :=
  .ofOutcome "unbarred" fun _ => .restrict (.not (.leaf ⟨"name", .eq, .single (.text "Ann")⟩))

def shopEngine : Engine := ⟨Schema.shop, {}, {}⟩

/-- Together the rules let other shortlisted names pass, and not the barred one. -/
theorem shopEngine_passes : ∃ both,
    ({} : Policies).compose "customer" .read [shortlisted, unbarred] = .ok both ∧
    (shopEngine.withPolicies both).Passes "customer" .read .anonymous
      (fun c => if c.operator = .like then .yes else .no) ∧
    ¬(shopEngine.withPolicies both).Passes "customer" .read .anonymous (fun _ => .yes) := by
  obtain ⟨both, hboth⟩ : ∃ both,
      ({} : Policies).compose "customer" .read [shortlisted, unbarred] = .ok both := ⟨_, rfl⟩
  refine ⟨both, hboth, ?_, ?_⟩
  · apply (passes_compose_iff hboth shopEngine .anonymous _).1.mpr
    intro rule hrule
    simp only [List.mem_cons, List.not_mem_nil, or_false] at hrule
    rcases hrule with rfl | rfl
    · exact ⟨_, rfl, _, rfl, rfl⟩
    · exact ⟨_, rfl, _, rfl, rfl⟩
  · intro hpasses
    obtain ⟨alone, halone, d, hd, hpasses⟩ :=
      (passes_compose_iff hboth shopEngine .anonymous _).1.mp hpasses unbarred (by simp)
    cases halone
    cases hd
    cases hpasses

end Engine
end RowPolicy
