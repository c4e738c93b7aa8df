/-!
Comparison operators, the shape of the value each expects, and sets of them.
-/
namespace RowPolicy

inductive Operator where
  | eq | neq | gt | gte | lt | lte | oneOf | noneOf | like | ilike | is
deriving DecidableEq

/-- The shape of the value an operator expects: one scalar, a list of them, or what `is` compares
with, which is null or a truth value. -/
inductive Arity where
  | single | list | is
deriving DecidableEq

namespace Operator

def name : Operator → String
  | eq => "eq"
  | neq => "neq"
  | gt => "gt"
  | gte => "gte"
  | lt => "lt"
  | lte => "lte"
  | oneOf => "in"
  | noneOf => "nin"
  | like => "like"
  | ilike => "ilike"
  | is => "is"

/-- Every operator, in the order of their declaration. -/
def all : List Operator := [eq, neq, gt, gte, lt, lte, oneOf, noneOf, like, ilike, is]

theorem mem_all (op : Operator) : op ∈ all := by cases op <;> decide

def ofName? (name : String) : Option Operator := all.find? (·.name == name)

@[simp] theorem ofName?_name (op : Operator) : ofName? op.name = some op := by
  cases op <;> decide

def arity : Operator → Arity
  | oneOf => .list
  | noneOf => .list
  | is => .is
  | _ => .single

end Operator

/-- A set of operators, one bit for each. -/
structure OperatorSet where
  mask : BitVec 11
deriving DecidableEq

namespace OperatorSet

def bit (op : Operator) : BitVec 11 := BitVec.twoPow 11 op.ctorIdx

def empty : OperatorSet := ⟨0⟩

def ofList (ops : List Operator) : OperatorSet := ⟨ops.foldr (fun op mask => bit op ||| mask) 0⟩

def contains (s : OperatorSet) (op : Operator) : Bool := s.mask.getLsbD op.ctorIdx

def isSubset (s t : OperatorSet) : Bool := s.mask &&& ~~~t.mask == 0

def toList (s : OperatorSet) : List Operator := Operator.all.filter s.contains

@[simp] theorem contains_empty (op : Operator) : empty.contains op = false := by
  simp [contains, empty]

@[simp] theorem contains_ofList (ops : List Operator) (op : Operator) :
    (ofList ops).contains op = ops.contains op := by
  induction ops with
  | nil => simp [contains, ofList]
  | cons o ops ih =>
    simp only [contains, ofList, List.foldr_cons, BitVec.getLsbD_or] at ih ⊢
    rw [ih, List.contains_cons]
    congr 1
    cases o <;> cases op <;> decide

theorem isSubset_iff (s t : OperatorSet) :
    s.isSubset t = true ↔ ∀ op, s.contains op = true → t.contains op = true := by
  constructor
  · intro h op hs
    have h' : s.mask &&& ~~~t.mask = 0 := by simpa [isSubset] using h
    have hb := congrArg (fun m => m.getLsbD op.ctorIdx) h'
    have hlt : op.ctorIdx < 11 := by cases op <;> decide
    simp [contains] at hs
    simpa [contains, hs, hlt] using hb
  · intro h
    have : s.mask &&& ~~~t.mask = 0 := by
      apply BitVec.eq_of_getLsbD_eq
      intro i hi
      have : ∃ op : Operator, op.ctorIdx = i := by
        have : ∀ j : Fin 11, ∃ op ∈ Operator.all, op.ctorIdx = j.val := by decide
        obtain ⟨op, -, ho⟩ := this ⟨i, hi⟩
        exact ⟨op, ho⟩
      obtain ⟨op, rfl⟩ := this
      have := h op
      simp only [contains] at this
      cases hs : s.mask.getLsbD op.ctorIdx <;> simp_all
    simp [isSubset, this]

end OperatorSet
end RowPolicy
