import RowPolicy.Proofs.Composition
import RowPolicy.Proofs.Slots

/-!
Decisions and the number of rules that may run at once. The number decides when rules start and in
which order their replies come in, and the replies stay the same. Main statement: however many rules
may run at once, a decision denies, fails, restricts or allows alike, with the same restriction, and
only the rule that a denial or a timeout names may be another.
-/
namespace RowPolicy

variable {width : Nat} {timed : List (Milliseconds × Reply)} {arrived : List Arrival}

/-- Replies that come in at the times at which their rules finish, of which at most `width` run at
once. Those of rules that finish together come in in any order. -/
def ComesIn (width : Nat) (timed : List (Milliseconds × Reply)) (arrived : List Arrival) : Prop :=
  ∃ finish, Schedule.Runs width [] (timed.map (·.1)) finish ∧
    arrived.Perm (finish.zip (timed.map (·.2)).zipIdx) ∧ arrived.Pairwise (·.1 ≤ ·.1)

theorem ComesIn.arrives (h : ComesIn width timed arrived) : Arrives (timed.map (·.2)) arrived := by
  obtain ⟨finish, hruns, hperm, -⟩ := h
  have hlength : (timed.map (·.2)).zipIdx.length ≤ finish.length := by simp [hruns.length_eq]
  have hplaces := hperm.map (·.2)
  rwa [List.map_snd_zip hlength] at hplaces

theorem arrivalOrder_comesIn (width : Nat) (timed : List (Milliseconds × Reply)) :
    ComesIn (max 1 width) timed (arrivalOrder width timed) :=
  ⟨_, Schedule.runs_finishAll width _, Schedule.sortByKey_perm _, Schedule.sortByKey_pairwise _⟩

namespace Engine

/-- Results that are the same but for the rule that a denial or a timeout names. -/
inductive Agrees : Except Error Decision → Except Error Decision → Prop
  | same (result) : Agrees result result
  | denied (rules rules') : Agrees (.ok ⟨.deny, rules⟩) (.ok ⟨.deny, rules'⟩)
  | timedOut (model action rule rule' budget budget') :
      Agrees (.error (.policyTimeout model action rule budget))
        (.error (.policyTimeout model action rule' budget'))

def withConcurrency (e : Engine) (concurrency : UInt64) : Engine :=
  { e with settings := { e.settings with policy := { e.settings.policy with concurrency } } }

theorem decide_withConcurrency (e : Engine) (concurrency : UInt64) :
    (e.withConcurrency concurrency).decide = e.decideAs (arrivalOrder concurrency.toNat) :=
  rfl

variable {e : Engine} {model : String} {action : Action} {actor : Actor}
  {arrive arrive' : List (Milliseconds × Reply) → List Arrival}

theorem agrees_of_arrives (h : ∀ timed, Arrives (timed.map (·.2)) (arrive timed))
    (h' : ∀ timed, Arrives (timed.map (·.2)) (arrive' timed)) :
    Agrees (e.decideAs arrive model action actor).result
      (e.decideAs arrive' model action actor).result := by
  by_cases registered : e.schema.contains model = true
  · cases listed : e.policies.lookup model action with
    | none =>
      rw [result_decideAs_of_no_rules registered listed,
        result_decideAs_of_no_rules registered listed]
      exact .same _
    | some rules =>
      have complete := h (e.replies actor rules)
      have complete' := h' (e.replies actor rules)
      by_cases hdenial : ∃ r ∈ (e.replies actor rules).map (·.2), r.denies (e.check model) = true
      · obtain ⟨_, _, -, -, hresult⟩ := decideAs_of_denial registered listed complete hdenial
        obtain ⟨_, _, -, -, hresult'⟩ := decideAs_of_denial registered listed complete' hdenial
        rw [hresult, hresult']
        exact .denied _ _
      · by_cases htimeout : ∃ r ∈ (e.replies actor rules).map (·.2), r.timedOut = true
        · obtain ⟨_, _, -, -, hresult⟩ :=
            decideAs_of_timeout registered listed complete hdenial htimeout
          obtain ⟨_, _, -, -, hresult'⟩ :=
            decideAs_of_timeout registered listed complete' hdenial htimeout
          rw [hresult, hresult']
          exact .timedOut _ _ _ _ _ _
        · rw [decideAs_of_restrictions registered listed complete hdenial htimeout,
            decideAs_of_restrictions registered listed complete' hdenial htimeout]
          exact .same _
  · have hunregistered : e.schema.contains model = false := Bool.eq_false_iff.mpr registered
    rw [result_decideAs_of_unregistered hunregistered,
      result_decideAs_of_unregistered hunregistered]
    exact .same _

/-- Decisions agree however many rules may run at once, and in whichever order replies are taken in
that come at one time. -/
theorem decide_agrees (e : Engine) (model : String) (action : Action) (actor : Actor) :
    (∀ n n' : UInt64, Agrees ((e.withConcurrency n).decide model action actor).result
      ((e.withConcurrency n').decide model action actor).result) ∧
    (∀ n : UInt64, ∀ timed, ComesIn (max 1 n.toNat) timed (arrivalOrder n.toNat timed)) ∧
    ∀ width width' arrive arrive', (∀ timed, ComesIn width timed (arrive timed)) →
      (∀ timed, ComesIn width' timed (arrive' timed)) →
        Agrees (e.decideAs arrive model action actor).result
          (e.decideAs arrive' model action actor).result := by
  refine ⟨?_, ?_, ?_⟩
  · intro n n'
    rw [decide_withConcurrency, decide_withConcurrency]
    exact agrees_of_arrives (arrivalOrder_arrives _) (arrivalOrder_arrives _)
  · intro n timed
    exact arrivalOrder_comesIn n.toNat timed
  · intro width width' arrive arrive' h h'
    exact agrees_of_arrives (fun timed => (h timed).arrives) fun timed => (h' timed).arrives

def racingRules : List Rule :=
  [⟨"patient", none, fun _ => ⟨some 20, .deny⟩⟩, ⟨"hasty", none, fun _ => ⟨some 10, .deny⟩⟩]

def racingEngine : Engine where
  schema := ⟨[⟨"order", [], [], none⟩], true⟩
  policies := { rules := [("order", [(.read, racingRules)])], isSealed := true }
  settings := {}

/-- One by one the first rule denies, and side by side the second; the decision stays a denial. -/
theorem racingEngine_agrees :
    ((racingEngine.withConcurrency 1).decide "order" .read .anonymous).result =
      .ok ⟨.deny, ["patient"]⟩ ∧
    ((racingEngine.withConcurrency 2).decide "order" .read .anonymous).result =
      .ok ⟨.deny, ["hasty"]⟩ ∧
    (∀ timed, ComesIn 1 timed (arrivalOrder 1 timed)) ∧
    (∀ timed, ComesIn 2 timed (arrivalOrder 2 timed)) ∧
    Agrees (racingEngine.decideAs (arrivalOrder 1) "order" .read .anonymous).result
      (racingEngine.decideAs (arrivalOrder 2) "order" .read .anonymous).result := by
  have hone : ∀ timed, ComesIn 1 timed (arrivalOrder 1 timed) := arrivalOrder_comesIn 1
  have htwo : ∀ timed, ComesIn 2 timed (arrivalOrder 2 timed) := arrivalOrder_comesIn 2
  obtain ⟨-, -, hagrees⟩ := decide_agrees racingEngine "order" .read .anonymous
  exact ⟨rfl, rfl, hone, htwo, hagrees 1 2 _ _ hone htwo⟩

end Engine
end RowPolicy
