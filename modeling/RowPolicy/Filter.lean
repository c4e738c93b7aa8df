import RowPolicy.Operator
import RowPolicy.Scalar

/-!
Filter trees over conditions on fields. `all []` matches every row and `any []` none. The
constructors `conj`, `disj` and `negate` build canonical trees from canonical parts: nested
combinators of one kind are flattened, constants are absorbed or dropped, a single part stands for
itself and a double negation for nothing.
-/
namespace RowPolicy

inductive Operand where
  | single (value : Scalar)
  | list (values : List Scalar)
  | null
deriving DecidableEq

structure Condition where
  field : String
  operator : Operator
  operand : Operand
deriving DecidableEq

inductive Filter where
  | all (parts : List Filter)
  | any (parts : List Filter)
  | not (part : Filter)
  | leaf (condition : Condition)

namespace Operand

def toJson : Operand → Json
  | single s => s.toJson
  | list values => .arr (values.map Scalar.toJson)
  | null => .null

end Operand

namespace Filter

mutual
def decEq : (f g : Filter) → Decidable (f = g)
  | all fs, all gs => match decEqParts fs gs with
    | isTrue h => isTrue (by rw [h])
    | isFalse h => isFalse (fun e => h (Filter.all.inj e))
  | any fs, any gs => match decEqParts fs gs with
    | isTrue h => isTrue (by rw [h])
    | isFalse h => isFalse (fun e => h (Filter.any.inj e))
  | not f, not g => match decEq f g with
    | isTrue h => isTrue (by rw [h])
    | isFalse h => isFalse (fun e => h (Filter.not.inj e))
  | leaf c, leaf d =>
    if h : c = d then isTrue (by rw [h]) else isFalse (fun e => h (Filter.leaf.inj e))
  | all _, any _ => isFalse nofun
  | all _, not _ => isFalse nofun
  | all _, leaf _ => isFalse nofun
  | any _, all _ => isFalse nofun
  | any _, not _ => isFalse nofun
  | any _, leaf _ => isFalse nofun
  | not _, all _ => isFalse nofun
  | not _, any _ => isFalse nofun
  | not _, leaf _ => isFalse nofun
  | leaf _, all _ => isFalse nofun
  | leaf _, any _ => isFalse nofun
  | leaf _, not _ => isFalse nofun

def decEqParts : (fs gs : List Filter) → Decidable (fs = gs)
  | [], [] => isTrue rfl
  | [], _ :: _ => isFalse nofun
  | _ :: _, [] => isFalse nofun
  | f :: fs, g :: gs => match decEq f g, decEqParts fs gs with
    | isTrue h, isTrue t => isTrue (by rw [h, t])
    | isFalse h, _ => isFalse (fun e => h (List.cons.inj e).1)
    | _, isFalse t => isFalse (fun e => t (List.cons.inj e).2)
end

instance : DecidableEq Filter := decEq

def matchAll : Filter := all []

def matchNone : Filter := any []

def isMatchAll : Filter → Bool
  | all [] => true
  | _ => false

def isMatchNone : Filter → Bool
  | any [] => true
  | _ => false

@[simp] theorem isMatchAll_iff (f : Filter) : f.isMatchAll = true ↔ f = matchAll := by
  unfold isMatchAll matchAll; split <;> simp_all

@[simp] theorem isMatchNone_iff (f : Filter) : f.isMatchNone = true ↔ f = matchNone := by
  unfold isMatchNone matchNone; split <;> simp_all

def isNull (field : String) : Filter := leaf ⟨field, .is, .null⟩

/-- A single part stands for the whole combination. -/
def collapse (combine : List Filter → Filter) : List Filter → Filter
  | [part] => part
  | parts => combine parts

/-- The parts of a conjunction with inner conjunctions spread out; nothing if a part matches no
row. -/
def conjParts : List Filter → Option (List Filter)
  | [] => some []
  | all inner :: parts => (conjParts parts).map (inner ++ ·)
  | any [] :: _ => none
  | part :: parts => (conjParts parts).map (part :: ·)

/-- The parts of a disjunction with inner disjunctions spread out; nothing if a part matches every
row. -/
def disjParts : List Filter → Option (List Filter)
  | [] => some []
  | any inner :: parts => (disjParts parts).map (inner ++ ·)
  | all [] :: _ => none
  | part :: parts => (disjParts parts).map (part :: ·)

/-- The canonical conjunction of canonical parts. -/
def conj (parts : List Filter) : Filter :=
  match conjParts parts with
  | none => matchNone
  | some flat => collapse all flat

def disj (parts : List Filter) : Filter :=
  match disjParts parts with
  | none => matchAll
  | some flat => collapse any flat

def and (f g : Filter) : Filter := conj [f, g]

/-- The canonical negation of a canonical filter. -/
def negate : Filter → Filter
  | all [] => matchNone
  | any [] => matchAll
  | not part => part
  | f => not f

mutual
def toRaw : Filter → Json
  | all parts => .obj [("and", .arr (toRawParts parts))]
  | any parts => .obj [("or", .arr (toRawParts parts))]
  | not part => .obj [("not", part.toRaw)]
  | leaf c =>
    .obj [("field", .str c.field), ("op", .str c.operator.name), ("value", c.operand.toJson)]

def toRawParts : List Filter → List Json
  | [] => []
  | part :: parts => part.toRaw :: toRawParts parts
end

mutual
def conditions : Filter → List Condition
  | all parts => partsConditions parts
  | any parts => partsConditions parts
  | not part => part.conditions
  | leaf c => [c]

def partsConditions : List Filter → List Condition
  | [] => []
  | part :: parts => part.conditions ++ partsConditions parts
end

end Filter
end RowPolicy
