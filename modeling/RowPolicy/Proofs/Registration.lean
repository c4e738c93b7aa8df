import RowPolicy.Policies
import RowPolicy.Proofs.Result

/-!
What registering rules changes. Rules that are registered together are listed for their model and
action in place of all rules before, and for no other.
-/
namespace RowPolicy.Policies

theorem rulesFor?_setRules (action a : Action) (rules : List Rule)
    (listed : List (Action × List Rule)) : rulesFor? a (setRules action rules listed) =
      if action = a then some rules else rulesFor? a listed := by
  induction listed with
  | nil => rfl
  | cons entry listed ih =>
    obtain ⟨b, old⟩ := entry
    by_cases hb : b = action
    · subst hb
      by_cases ha : b = a <;> simp [setRules, rulesFor?, ha]
    · by_cases ha : b = a
      · subst ha
        simp [setRules, rulesFor?, hb, Ne.symm hb]
      · simp [setRules, rulesFor?, hb, ha, ih]

variable {p q : Policies} {model : String} {action : Action} {rules : List Rule}

/-- Rules can be registered together if there are some, while the policies are open and unless rules
that are listed already must not be replaced. -/
theorem compose_eq_ok_iff : p.compose model action rules = .ok q ↔
    p.isSealed = false ∧ rules ≠ [] ∧
      ¬(p.duplicates = .error ∧ (p.lookup model action).isSome = true) ∧
        { p with rules := Table.update model [] (setRules action rules) p.rules } = q := by
  cases hsealed : p.isSealed with
  | true => simp [compose, checkOpen, hsealed]
  | false =>
    by_cases hrules : rules = []
    · simp [compose, checkOpen, hsealed, hrules]
    · by_cases htaken : p.duplicates = .error ∧ (p.lookup model action).isSome = true
      · simp [compose, checkOpen, hsealed, hrules, htaken]
      · simp [compose, checkOpen, hsealed, hrules, htaken]

theorem lookup_of_compose (h : p.compose model action rules = .ok q) (m : String) (a : Action) :
    q.lookup m a = if model = m ∧ action = a then some rules else p.lookup m a := by
  obtain ⟨-, -, -, rfl⟩ := compose_eq_ok_iff.mp h
  unfold lookup
  rw [Table.get?_update]
  by_cases hm : model = m
  · subst hm
    simp only [if_true, Option.bind_some, rulesFor?_setRules, true_and]
    cases Table.get? p.rules model <;> rfl
  · simp [hm]

theorem exists_register_of_compose (h : p.compose model action rules = .ok q) (rule : Rule) :
    ∃ q', p.register model action rule = .ok q' := by
  obtain ⟨hopen, -, hfree, -⟩ := compose_eq_ok_iff.mp h
  exact ⟨_, compose_eq_ok_iff.mpr ⟨hopen, List.cons_ne_nil rule [], hfree, rfl⟩⟩

end RowPolicy.Policies
