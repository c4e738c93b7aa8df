import RowPolicy.Fault
import RowPolicy.Filter
import RowPolicy.Timestamp

/-!
Reading filters against a model. A filter is an object whose only key is `and`, `or` or `not`, or
a condition with the keys `field`, `op` (or `operator`) and `value`. Reading checks every part, also
one that the canonical form drops, and builds the canonical tree on the way up.
-/
namespace RowPolicy

def FieldType.scalar? : FieldType → Json → Option Scalar
  | text, .str s => some (.text s)
  | integer, .num n => n.toInt64?.map .int
  | float, .num n => some (.float n.toDouble)
  | boolean, .bool b => some (.bool b)
  | timestamp, .str s => if Timestamp.isValid s then some (.text s) else none
  | id, .num n => n.toInt64?.map .int
  | id, .str s => if s.isEmpty then none else some (.text s)
  | _, _ => none

def readScalar (type : FieldType) (raw : Json) : Reading Scalar :=
  match type.scalar? raw with
  | some s => .ok s
  | none => fault (.wrongType type raw)

/-- What `is` compares with: null where a field may be null, a truth value on a boolean field. -/
def readIs (f : FieldDecl) : Json → Reading Operand
  | .null => if f.nullable then .ok .null else fault (.notNullable f.name)
  | .bool b => if f.type = .boolean then .ok (.single (.bool b)) else fault .expectedNullOrTruth
  | _ => fault .expectedNullOrTruth

def readList (f : FieldDecl) (op : Operator) : Json → Reading Operand
  | .arr [] => fault (.noValues op)
  | .arr items => Operand.list <$> readItems (readScalar f.type) 0 items
  | _ => fault (.expectedValues op)

def readSingle (f : FieldDecl) : Json → Reading Operand
  | .null => fault .nullComparison
  | raw => Operand.single <$> readScalar f.type raw

def readOperand (f : FieldDecl) (op : Operator) (raw : Json) : Reading Operand :=
  match op.arity with
  | .is => readIs f raw
  | .list => readList f op raw
  | .single => readSingle f raw

def readField (m : Model) (members : List (String × Json)) : Reading Field :=
  under (.key "field") <|
    match (Table.get? members "field").bind Json.str? with
    | none => fault .expectedFieldName
    | some name =>
      match m.field? name with
      | none => fault (.unknownField m.name name)
      | some f => .ok f

def readPermitted (f : Field) (raw : Json) : Reading Operator :=
  match raw.str?.bind Operator.ofName? with
  | none => fault (.unknownOperator raw)
  | some op =>
    if f.permitted.contains op then .ok op else fault (.notPermitted op f.decl.type f.decl.name)

/-- The operator stands under one of two keys, never under both. -/
def readOperator (f : Field) (members : List (String × Json)) : Reading Operator :=
  match Table.get? members "op", Table.get? members "operator" with
  | some raw, none => under (.key "op") (readPermitted f raw)
  | none, some raw => under (.key "operator") (readPermitted f raw)
  | some _, some _ => fault .twoOperators
  | none, none => under (.key "op") (fault .missingOperator)

/-- A missing value is null. -/
def readCondition (m : Model) (members : List (String × Json)) : Reading Condition := do
  expectKeys ["field", "op", "operator", "value"] members
  let f ← readField m members
  let op ← readOperator f members
  let raw := (Table.get? members "value").getD .null
  let operand ← under (.key "value") (readOperand f.decl op raw)
  return ⟨f.decl.name, op, operand⟩

def readAlone {α : Type} (combinator : String) (members : List (String × Json))
    (body : Reading α) : Reading α :=
  if members.length = 1 then under (.key combinator) body else fault (.notAlone combinator)

def readParts {α : Type} (read : Json → Reading α) : Json → Reading (List α)
  | .arr items => readItems read 0 items
  | _ => fault .expectedFilters

/-- Read a filter that may nest `depth` deep; `limit` is what a message calls the depth. -/
def readFilter (m : Model) (limit : Nat) (depth : Nat) (raw : Json) : Reading Filter :=
  match depth, raw with
  | 0, _ => fault (.filterTooDeep limit)
  | depth + 1, .obj members =>
    match Table.get? members "and", Table.get? members "or", Table.get? members "not" with
    | some body, _, _ =>
      Filter.conj <$> readAlone "and" members (readParts (readFilter m limit depth) body)
    | none, some body, _ =>
      Filter.disj <$> readAlone "or" members (readParts (readFilter m limit depth) body)
    | none, none, some body =>
      Filter.negate <$> readAlone "not" members (readFilter m limit depth body)
    | none, none, none => Filter.leaf <$> readCondition m members
  | _ + 1, _ => fault .expectedFilter

def Schema.readModel (s : Schema) (model : String) : Reading Model :=
  match s.model? model with
  | some m => .ok m
  | none => fault (.unknownModel model)

def Schema.readFilter (s : Schema) (limit : Nat) (model : String) (raw : Json) :
    Reading Filter := do
  let m ← s.readModel model
  RowPolicy.readFilter m limit limit raw

/-- Read a filter again that was built by other means: check it and make it canonical. -/
def Schema.checkFilter (s : Schema) (limit : Nat) (model : String) (f : Filter) :
    Reading Filter :=
  s.readFilter limit model f.toRaw

end RowPolicy
