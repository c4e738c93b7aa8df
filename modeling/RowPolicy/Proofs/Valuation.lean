import RowPolicy.Filter

/-!
What filters mean. A valuation gives every condition a truth value of three-valued logic, and a
filter gets the value of its tree. The canonical constructors keep this value: the canonical
conjunction is worth as much as all its parts together, and a canonical negation the opposite.
-/
namespace RowPolicy

/-- A truth value; a comparison with null is neither true nor false. -/
inductive Truth where
  | no | unknown | yes
deriving DecidableEq

namespace Truth

def and : Truth → Truth → Truth
  | no, _ => no
  | _, no => no
  | unknown, _ => unknown
  | _, unknown => unknown
  | yes, yes => yes

def not : Truth → Truth
  | no => yes
  | unknown => unknown
  | yes => no

def or (a b : Truth) : Truth := (a.not.and b.not).not

@[simp] theorem and_yes (a : Truth) : a.and yes = a := by cases a <;> rfl
@[simp] theorem yes_and (a : Truth) : yes.and a = a := by cases a <;> rfl
@[simp] theorem no_and (a : Truth) : no.and a = no := by cases a <;> rfl
@[simp] theorem and_no (a : Truth) : a.and no = no := by cases a <;> rfl
@[simp] theorem not_not (a : Truth) : a.not.not = a := by cases a <;> rfl
@[simp] theorem no_or (a : Truth) : no.or a = a := by cases a <;> rfl
@[simp] theorem or_no (a : Truth) : a.or no = a := by cases a <;> rfl
@[simp] theorem yes_or (a : Truth) : yes.or a = yes := by cases a <;> rfl
@[simp] theorem or_yes (a : Truth) : a.or yes = yes := by cases a <;> rfl
@[simp] theorem not_yes : yes.not = no := rfl
@[simp] theorem not_no : no.not = yes := rfl

theorem and_assoc (a b c : Truth) : (a.and b).and c = a.and (b.and c) := by
  cases a <;> cases b <;> cases c <;> rfl

theorem or_assoc (a b c : Truth) : (a.or b).or c = a.or (b.or c) := by
  simp [or, and_assoc]

theorem and_eq_yes_iff (a b : Truth) : a.and b = yes ↔ a = yes ∧ b = yes := by
  cases a <;> cases b <;> simp [and]

end Truth

namespace Filter

mutual
/-- The value of a filter when its conditions have the values of `v`. -/
def eval (v : Condition → Truth) : Filter → Truth
  | all parts => evalAll v parts
  | any parts => evalAny v parts
  | not part => (part.eval v).not
  | leaf c => v c

def evalAll (v : Condition → Truth) : List Filter → Truth
  | [] => .yes
  | part :: parts => (part.eval v).and (evalAll v parts)

def evalAny (v : Condition → Truth) : List Filter → Truth
  | [] => .no
  | part :: parts => (part.eval v).or (evalAny v parts)
end

variable (v : Condition → Truth)

@[simp] theorem eval_matchAll : matchAll.eval v = .yes := rfl
@[simp] theorem eval_matchNone : matchNone.eval v = .no := rfl

theorem evalAll_append (fs gs : List Filter) :
    evalAll v (fs ++ gs) = (evalAll v fs).and (evalAll v gs) := by
  induction fs with
  | nil => simp [evalAll]
  | cons f fs ih => simp [evalAll, ih, Truth.and_assoc]

theorem evalAny_append (fs gs : List Filter) :
    evalAny v (fs ++ gs) = (evalAny v fs).or (evalAny v gs) := by
  induction fs with
  | nil => simp [evalAny]
  | cons f fs ih => simp [evalAny, ih, Truth.or_assoc]

theorem evalAll_eq_yes_iff {parts : List Filter} :
    evalAll v parts = .yes ↔ ∀ part ∈ parts, part.eval v = .yes := by
  induction parts with
  | nil => simp [evalAll]
  | cons part parts ih => simp [evalAll, Truth.and_eq_yes_iff, ih]

/-- Spreading out inner conjunctions changes no value, and a part that matches no row settles the
value of the whole. -/
theorem evalAll_conjParts (parts : List Filter) :
    ((conjParts parts).elim .no (evalAll v)) = evalAll v parts := by
  induction parts using conjParts.induct with
  | case1 => rfl
  | case2 inner parts ih =>
    simp only [conjParts, evalAll, eval, ← ih]
    cases conjParts parts <;> simp [evalAll_append]
  | case3 parts => simp [conjParts, evalAll, eval, evalAny]
  | case4 part parts hall hany ih =>
    simp only [conjParts, evalAll, ← ih]
    cases conjParts parts <;> simp [evalAll]

theorem evalAny_disjParts (parts : List Filter) :
    ((disjParts parts).elim .yes (evalAny v)) = evalAny v parts := by
  induction parts using disjParts.induct with
  | case1 => rfl
  | case2 inner parts ih =>
    simp only [disjParts, evalAny, eval, ← ih]
    cases disjParts parts <;> simp [evalAny_append]
  | case3 parts => simp [disjParts, evalAny, eval, evalAll]
  | case4 part parts hany hall ih =>
    simp only [disjParts, evalAny, ← ih]
    cases disjParts parts <;> simp [evalAny]

theorem eval_conj (parts : List Filter) : (conj parts).eval v = evalAll v parts := by
  rw [← evalAll_conjParts, conj]
  cases conjParts parts with
  | none => rfl
  | some flat =>
    show (collapse all flat).eval v = evalAll v flat
    unfold collapse
    split
    · simp [evalAll]
    · simp [eval]

theorem eval_disj (parts : List Filter) : (disj parts).eval v = evalAny v parts := by
  rw [← evalAny_disjParts, disj]
  cases disjParts parts with
  | none => rfl
  | some flat =>
    show (collapse any flat).eval v = evalAny v flat
    unfold collapse
    split
    · simp [evalAny]
    · simp [eval]

theorem eval_negate (f : Filter) : f.negate.eval v = (f.eval v).not := by
  unfold negate
  split <;> simp [eval, evalAll, evalAny]

/-- What is added to a filter holds beside it. -/
theorem eval_and (f g : Filter) : (f.and g).eval v = (f.eval v).and (g.eval v) := by
  simp [Filter.and, eval_conj, evalAll]

end Filter
end RowPolicy
