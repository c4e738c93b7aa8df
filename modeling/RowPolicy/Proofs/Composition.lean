import RowPolicy.Proofs.Arrival
import RowPolicy.Proofs.Result

/-!
How the replies of several rules are combined. The replies are taken in one by one, and the order
of their arrival decides at most which rule is named. Main statement: a denial outweighs
everything, then a rule that ran out of time fails the decision, and otherwise the restrictions
hold together in the order of their rules.
-/
namespace RowPolicy

namespace Reply

/-- A denial, or a restriction that does not pass the check. -/
def denies (check : Filter → Option Filter) (r : Reply) : Bool :=
  match r.outcome with
  | some .deny => true
  | some (.restrict f) => (check f).isNone
  | some .allow => false
  | none => false

def timedOut (r : Reply) : Bool := r.outcome.isNone

def restriction? (check : Filter → Option Filter) (r : Reply) : Option (String × Filter) :=
  match r.outcome with
  | some (.restrict f) => (check f).map (r.rule, ·)
  | _ => none

end Reply

variable {check : Filter → Option Filter}

namespace Tally

theorem add?_eq_none_iff {t : Tally} {r : Reply} {place : Nat} :
    t.add? check r place = none ↔ r.denies check = true := by
  unfold add? Reply.denies
  split <;> simp_all

theorem add?_of_not_denies {t : Tally} {r : Reply} (place : Nat) (h : r.denies check = false) :
    t.add? check r place = some
      ⟨t.restrictions ++ ((r.restriction? check).map (place, ·)).toList,
        t.timedOut <|> if r.timedOut then some (r.rule, r.budget) else none⟩ := by
  unfold Reply.denies at h
  unfold add? Reply.restriction? Reply.timedOut
  split at h
  · cases h
  · rename_i f houtcome
    obtain ⟨g, hg⟩ : ∃ g, check f = some g := by
      cases hg : check f with
      | none => simp [hg] at h
      | some g => exact ⟨g, rfl⟩
    simp [houtcome, hg]
  · rename_i houtcome
    simp [houtcome]
  · rename_i houtcome
    simp [houtcome]

end Tally

/-- The first denial to arrive ends the decision, whatever came before and comes after. -/
theorem takeIn_of_find?_eq_some {rules : List String} {arrived : List Arrival} {a : Arrival}
    (h : arrived.find? (·.2.1.denies check) = some a) (t : Tally) (elapsed : Milliseconds) :
    (takeIn check rules t elapsed arrived).2 = .decided ⟨.deny, [a.2.1.rule]⟩ := by
  induction arrived generalizing t elapsed with
  | nil => cases h
  | cons b arrived ih =>
    obtain ⟨time, r, place⟩ := b
    cases hdeny : r.denies check with
    | true =>
      rw [List.find?_cons_of_pos (by simp [hdeny])] at h
      cases h
      simp [takeIn, Tally.add?_eq_none_iff.mpr hdeny]
    | false =>
      rw [List.find?_cons_of_neg (by simp [hdeny])] at h
      rw [takeIn, Tally.add?_of_not_denies place hdeny]
      exact ih h _ _

def placedRestriction? (check : Filter → Option Filter) (x : Reply × Nat) :
    Option (Nat × String × Filter) :=
  (x.1.restriction? check).map (x.2, ·)

/-- Without a denial the tally collects every restriction and remembers the first timeout. -/
theorem takeIn_of_no_denial {rules : List String} {arrived : List Arrival}
    (h : ∀ a ∈ arrived, a.2.1.denies check = false) (t : Tally) (elapsed : Milliseconds) :
    (takeIn check rules t elapsed arrived).2 = Tally.verdict rules
      ⟨t.restrictions ++ (arrived.map (·.2)).filterMap (placedRestriction? check),
        t.timedOut <|>
          (arrived.find? (·.2.1.timedOut)).map fun a => (a.2.1.rule, a.2.1.budget)⟩ := by
  induction arrived generalizing t elapsed with
  | nil => simp [takeIn]
  | cons b arrived ih =>
    obtain ⟨time, r, place⟩ := b
    have hhead : r.denies check = false := h _ List.mem_cons_self
    have htail : ∀ a ∈ arrived, a.2.1.denies check = false :=
      fun a ha => h a (List.mem_cons_of_mem _ ha)
    rw [takeIn, Tally.add?_of_not_denies place hhead]
    simp only [ih htail, List.map_cons, List.filterMap_cons, placedRestriction?]
    congr 2
    · cases r.restriction? check <;> simp
    · cases t.timedOut <;> cases hout : r.timedOut <;> simp [hout]

/-- Whatever the order of arrival, sorting by places puts the restrictions in the order of the
rules. -/
theorem sorted_restrictions {replies : List Reply} {arrived : List Arrival}
    (h : Arrives replies arrived) :
    (Schedule.sortByKey ((arrived.map (·.2)).filterMap (placedRestriction? check))).map (·.2) =
      replies.filterMap (Reply.restriction? check) := by
  have hperm := h.filterMap (placedRestriction? check)
  have hplaces : replies.zipIdx.Pairwise (·.2 < ·.2) := by
    rw [← List.pairwise_map (f := Prod.snd), List.zipIdx_map_snd]
    exact List.pairwise_lt_range'
  have hsorted : (replies.zipIdx.filterMap (placedRestriction? check)).Pairwise (·.1 < ·.1) := by
    refine hplaces.filterMap _ fun x y hxy a ha b hb => ?_
    obtain ⟨f, -, rfl⟩ := Option.map_eq_some_iff.mp ha
    obtain ⟨g, -, rfl⟩ := Option.map_eq_some_iff.mp hb
    exact hxy
  rw [Schedule.sortByKey_eq_of_perm hperm hsorted, List.map_filterMap]
  calc replies.zipIdx.filterMap fun x => (placedRestriction? check x).map (·.2)
    _ = replies.zipIdx.filterMap (Reply.restriction? check ∘ (·.1)) := by
        congr 1
        funext x
        simp [placedRestriction?, Option.map_map, Function.comp_def]
    _ = replies.filterMap (Reply.restriction? check) := by
        rw [← List.filterMap_map, List.zipIdx_map_fst]

def Verdict.result (model : String) (action : Action) : Verdict → Except Error Decision
  | decided d => .ok d
  | timedOut rule budget => .error (.policyTimeout model action.name rule budget)

@[simp] theorem Rule.reply_rule (general : Milliseconds) (actor : Actor) (rule : Rule) :
    (rule.reply general actor).2.rule = rule.name := by
  unfold Rule.reply; dsimp only; split <;> [rfl; split <;> rfl]

@[simp] theorem Rule.reply_budget (general : Milliseconds) (actor : Actor) (rule : Rule) :
    (rule.reply general actor).2.budget = rule.timeout.getD general := by
  unfold Rule.reply; dsimp only; split <;> [rfl; split <;> rfl]

namespace Engine

variable {e : Engine} {model : String} {action : Action} {actor : Actor} {rules : List Rule}
  {arrive : List (Milliseconds × Reply) → List Arrival}

@[simp] theorem result_conclude (verdict : Verdict) :
    (conclude actor model action verdict).result = verdict.result model action := by
  cases verdict <;> rfl

theorem result_decideAs_of_unregistered (h : e.schema.contains model = false) :
    (e.decideAs arrive model action actor).result = .error (.unknownModel model) := by
  simp [decideAs, h]

theorem result_decideAs_of_rules (registered : e.schema.contains model = true)
    (listed : e.policies.lookup model action = some rules) :
    (e.decideAs arrive model action actor).result =
      (takeIn (e.check model) (rules.map (·.name)) {} 0
        (arrive (e.replies actor rules))).2.result model action := by
  simp [decideAs, registered, listed]

theorem result_decideAs_of_no_rules (registered : e.schema.contains model = true)
    (listed : e.policies.lookup model action = none) :
    (e.decideAs arrive model action actor).result =
      if e.policies.requires model action then .error (.rlsNotImplemented model action.name)
      else .ok ⟨.allow, []⟩ := by
  cases hrequired : e.policies.requires model action <;>
    simp [decideAs, registered, listed, hrequired, Verdict.result]

theorem exists_rule_of_arrives
    (complete : Arrives ((e.replies actor rules).map (·.2)) (arrive (e.replies actor rules)))
    {a : Arrival} (ha : a ∈ arrive (e.replies actor rules)) :
    ∃ rule, rules[a.2.2]? = some rule ∧ a.2.1.rule = rule.name ∧
      a.2.1.budget = rule.timeout.getD e.settings.policy.budget := by
  have hreply := complete.getElem?_eq ha
  simp only [replies, List.map_map, List.getElem?_map, Option.map_eq_some_iff] at hreply
  obtain ⟨rule, hrule, hreply⟩ := hreply
  exact ⟨rule, hrule, by simp [← hreply], by simp [← hreply]⟩

/-- How a decision ends whose rules reply in some order of arrival: with the first denial if there
is one; otherwise with the first rule that ran out of its time if there is one; and otherwise with
all restrictions together, in the order of the rules. -/
structure Composes (e : Engine) (model : String) (action : Action) (rules : List Rule)
    (replies : List Reply) (arrived : List Arrival) (result : Except Error Decision) : Prop where
  denied : (∃ r ∈ replies, r.denies (e.check model)) → ∃ a rule,
    arrived.find? (·.2.1.denies (e.check model)) = some a ∧ rules[a.2.2]? = some rule ∧
      result = .ok ⟨.deny, [rule.name]⟩
  timedOut : (¬∃ r ∈ replies, r.denies (e.check model)) → (∃ r ∈ replies, r.timedOut) → ∃ a rule,
    arrived.find? (·.2.1.timedOut) = some a ∧ rules[a.2.2]? = some rule ∧
      result = .error (.policyTimeout model action.name rule.name
        (rule.timeout.getD e.settings.policy.budget))
  restricted : (¬∃ r ∈ replies, r.denies (e.check model)) → (¬∃ r ∈ replies, r.timedOut) →
    let restrictions := replies.filterMap (Reply.restriction? (e.check model))
    let filter := Filter.conj (restrictions.map (·.2))
    result = .ok (if filter = .matchAll then ⟨.allow, rules.map (·.name)⟩
      else ⟨.restrict filter, restrictions.map (·.1)⟩)

section Complete

variable (registered : e.schema.contains model = true)
  (listed : e.policies.lookup model action = some rules)
  (complete : Arrives ((e.replies actor rules).map (·.2)) (arrive (e.replies actor rules)))
include registered listed complete

theorem decideAs_of_denial
    (hdenial : ∃ r ∈ (e.replies actor rules).map (·.2), r.denies (e.check model)) :
    ∃ a rule, (arrive (e.replies actor rules)).find? (·.2.1.denies (e.check model)) = some a ∧
      rules[a.2.2]? = some rule ∧
        (e.decideAs arrive model action actor).result = .ok ⟨.deny, [rule.name]⟩ := by
  obtain ⟨a, hfirst⟩ := Option.isSome_iff_exists.mp
    (List.find?_isSome.mpr (complete.exists_iff.mp hdenial))
  obtain ⟨rule, hrule, hname, -⟩ :=
    exists_rule_of_arrives complete (List.mem_of_find?_eq_some hfirst)
  refine ⟨a, rule, hfirst, hrule, ?_⟩
  rw [result_decideAs_of_rules registered listed, takeIn_of_find?_eq_some hfirst, hname]
  rfl

theorem result_decideAs_of_no_denial
    (hdenial : ¬∃ r ∈ (e.replies actor rules).map (·.2), r.denies (e.check model)) :
    (e.decideAs arrive model action actor).result =
      (Tally.verdict (rules.map (·.name))
        ⟨((arrive (e.replies actor rules)).map (·.2)).filterMap
            (placedRestriction? (e.check model)),
          ((arrive (e.replies actor rules)).find? (·.2.1.timedOut)).map
            fun a => (a.2.1.rule, a.2.1.budget)⟩).result model action := by
  have hnone : ∀ a ∈ arrive (e.replies actor rules), a.2.1.denies (e.check model) = false := by
    intro a ha
    by_contra hdeny
    exact hdenial (complete.exists_iff.mpr ⟨a, ha, by simpa using hdeny⟩)
  rw [result_decideAs_of_rules registered listed, takeIn_of_no_denial hnone]
  simp

theorem decideAs_of_timeout
    (hdenial : ¬∃ r ∈ (e.replies actor rules).map (·.2), r.denies (e.check model))
    (htimeout : ∃ r ∈ (e.replies actor rules).map (·.2), r.timedOut) :
    ∃ a rule, (arrive (e.replies actor rules)).find? (·.2.1.timedOut) = some a ∧
      rules[a.2.2]? = some rule ∧
        (e.decideAs arrive model action actor).result = .error (.policyTimeout model action.name
          rule.name (rule.timeout.getD e.settings.policy.budget)) := by
  obtain ⟨a, hfirst⟩ := Option.isSome_iff_exists.mp
    (List.find?_isSome.mpr (complete.exists_iff.mp htimeout))
  obtain ⟨rule, hrule, hname, hbudget⟩ :=
    exists_rule_of_arrives complete (List.mem_of_find?_eq_some hfirst)
  refine ⟨a, rule, hfirst, hrule, ?_⟩
  rw [result_decideAs_of_no_denial registered listed complete hdenial, hfirst, ← hname, ← hbudget]
  rfl

theorem decideAs_of_restrictions
    (hdenial : ¬∃ r ∈ (e.replies actor rules).map (·.2), r.denies (e.check model))
    (htimeout : ¬∃ r ∈ (e.replies actor rules).map (·.2), r.timedOut) :
    let restrictions := ((e.replies actor rules).map (·.2)).filterMap
      (Reply.restriction? (e.check model))
    let filter := Filter.conj (restrictions.map (·.2))
    (e.decideAs arrive model action actor).result = .ok (if filter = .matchAll
      then ⟨.allow, rules.map (·.name)⟩ else ⟨.restrict filter, restrictions.map (·.1)⟩) := by
  intro restrictions filter
  have hnone : (arrive (e.replies actor rules)).find? (·.2.1.timedOut) = none :=
    List.find?_eq_none.mpr fun a ha hout => htimeout (complete.exists_iff.mpr ⟨a, ha, hout⟩)
  rw [result_decideAs_of_no_denial registered listed complete hdenial, hnone]
  simp only [Tally.verdict, Option.map_none, sorted_restrictions complete, Filter.isMatchAll_iff]
  show Verdict.result model action (if filter = .matchAll then _ else _) = _
  split <;> rfl

end Complete

/-- The engine takes the replies in by the time at which their rules finish. Its decision ends as
they compose in this order, and would end as they compose in any other. -/
theorem decide_composes (registered : e.schema.contains model = true)
    (listed : e.policies.lookup model action = some rules) (actor : Actor) :
    let replies := (e.replies actor rules).map (·.2)
    let scheduled := arrivalOrder e.settings.policy.concurrency.toNat (e.replies actor rules)
    (Arrives replies scheduled ∧ scheduled.Pairwise (·.1 ≤ ·.1) ∧
      Composes e model action rules replies scheduled (e.decide model action actor).result) ∧
    ∀ arrive, Arrives replies (arrive (e.replies actor rules)) →
      Composes e model action rules replies (arrive (e.replies actor rules))
        (e.decideAs arrive model action actor).result := by
  intro replies scheduled
  have hcomposes : ∀ arrive, Arrives replies (arrive (e.replies actor rules)) →
      Composes e model action rules replies (arrive (e.replies actor rules))
        (e.decideAs arrive model action actor).result := fun arrive complete =>
    ⟨decideAs_of_denial registered listed complete, decideAs_of_timeout registered listed complete,
      decideAs_of_restrictions registered listed complete⟩
  have harrives : Arrives replies scheduled :=
    arrivalOrder_arrives e.settings.policy.concurrency.toNat (e.replies actor rules)
  exact ⟨⟨harrives, Schedule.sortByKey_pairwise _, hcomposes (arrivalOrder _) harrives⟩, hcomposes⟩

def slowRules : List Rule :=
  [⟨"slow", some 10, fun _ => ⟨none, .allow⟩⟩, ⟨"blocked", none, fun _ => ⟨some 20, .deny⟩⟩]

def slowEngine : Engine where
  schema := ⟨[⟨"order", [], [], none⟩], true⟩
  policies := { rules := [("order", [(.read, slowRules)])], isSealed := true }
  settings := {}

/-- A timeout does not hide a denial that comes later. -/
theorem slowEngine_decide : slowEngine.schema.contains "order" = true ∧
    slowEngine.policies.lookup "order" .read = some slowRules ∧
    (slowEngine.decide "order" .read .anonymous).result = .ok ⟨.deny, ["blocked"]⟩ := by
  have registered : slowEngine.schema.contains "order" = true := by decide
  have listed : slowEngine.policies.lookup "order" .read = some slowRules := rfl
  obtain ⟨⟨-, -, hcomposes⟩, -⟩ := decide_composes registered listed .anonymous
  obtain ⟨a, rule, hfirst, hrule, hresult⟩ :=
    hcomposes.denied ⟨⟨"blocked", 2000, some .deny⟩, by decide, rfl⟩
  have ha : a = (20, ⟨"blocked", 2000, some .deny⟩, 1) := by
    refine Option.some.inj (hfirst.symm.trans ?_)
    rfl
  subst ha
  cases hrule
  exact ⟨registered, listed, hresult⟩

end Engine
end RowPolicy
