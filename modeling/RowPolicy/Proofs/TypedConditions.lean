import RowPolicy.Proofs.FilterValidity
import RowPolicy.Template

/-!
Typed conditions. A condition that is written down knows nothing of its field; a model types it, so
that a float field is compared with floats, and admits it or not. Main statement: a model reads a
condition exactly when its keys are those of a condition and the model admits it once typed. What
is written down has finite operands only, and these survive being written out.
-/
namespace RowPolicy

/-- A scalar as a field of a type holds it. -/
def FieldType.typed : FieldType → Scalar → Scalar
  | float, .int i => .float (Double.ofInt i.toInt)
  | _, s => s

def Operand.map (g : Scalar → Scalar) : Operand → Operand
  | single s => single (g s)
  | list values => list (values.map g)
  | null => null

namespace Model

def typed (m : Model) (c : Condition) : Condition :=
  match m.field? c.field with
  | some f => { c with operand := c.operand.map f.decl.type.typed }
  | none => c

def accepts (m : Model) (c : Condition) : Bool := m.admits (m.typed c)

end Model

/-- The keys of a condition, its operator under one of two. -/
def Condition.plainKeys (keys : List String) : Bool :=
  keys.all ["field", "op", "operator", "value"].contains &&
    !(keys.contains "op" && keys.contains "operator")

namespace FieldType

/-- A value stands for a scalar on a field exactly when it is a scalar of this type once typed. -/
theorem scalar?_eq_some_iff {type : FieldType} {raw : Json} {value : Scalar} :
    type.scalar? raw = some value ↔
      ∃ s, Scalar.ofJson? raw = some s ∧ type.admits (type.typed s) = true ∧
        type.typed s = value := by
  cases raw with
  | num n =>
    cases hn : n.toInt64? with
    | none =>
      have hfinite := Number.isFinite_toDouble n
      cases type <;> simp [scalar?, Scalar.ofJson?, Scalar.ofNumber, hn, typed, admits, hfinite]
    | some i =>
      have hdouble := Number.toDouble_of_toInt64? hn
      have hfinite := Number.isFinite_toDouble n
      rw [hdouble] at hfinite
      cases type <;>
        simp [scalar?, Scalar.ofJson?, Scalar.ofNumber, hn, typed, admits, hdouble, hfinite]
  | str s => cases type <;> simp [scalar?, Scalar.ofJson?, typed, admits]
  | bool b => cases type <;> simp [scalar?, Scalar.ofJson?, typed, admits]
  | _ => cases type <;> simp [scalar?, Scalar.ofJson?]

end FieldType

theorem Scalar.listOfJson?_eq_mapM (items : List Json) :
    listOfJson? items = items.mapM ofJson? := by
  induction items with
  | nil => rfl
  | cons item items ih => rw [listOfJson?, ih, List.mapM_cons]

theorem FieldType.typed_eq_bool_iff {type : FieldType} {s : Scalar} {b : Bool} :
    type.typed s = .bool b ↔ s = .bool b := by
  cases type <;> cases s <;> simp [typed]

theorem Scalar.ofJson?_eq_bool_iff {raw : Json} {b : Bool} :
    ofJson? raw = some (.bool b) ↔ raw = .bool b := by
  cases raw with
  | num n => cases hn : n.toInt64? <;> simp [ofJson?, ofNumber, hn]
  | _ => simp [ofJson?]

theorem readScalar_eq_typed_iff {type : FieldType} {raw : Json} {value : Scalar} :
    readScalar type raw = .ok value ↔
      ∃ s, Scalar.ofJson? raw = some s ∧ type.admits (type.typed s) = true ∧
        type.typed s = value :=
  readScalar_eq_ok_iff.trans FieldType.scalar?_eq_some_iff

section Operand

variable {f : FieldDecl} {op : Operator} {raw : Json} {operand : Operand}

theorem FieldDecl.admits_list_iff (harity : op.arity = .list) : f.admits op operand = true ↔
    ∃ values, operand = .list values ∧ values ≠ [] ∧ ∀ v ∈ values, f.type.admits v = true := by
  cases operand <;> simp [admits, harity]

theorem FieldDecl.admits_single_iff (harity : op.arity = .single) : f.admits op operand = true ↔
    ∃ value, operand = .single value ∧ f.type.admits value = true := by
  cases operand <;> simp [admits, harity]

theorem FieldDecl.admits_is_iff (harity : op.arity = .is) : f.admits op operand = true ↔
    operand = .null ∧ f.nullable = true ∨
      ∃ b, operand = .single (.bool b) ∧ f.type = .boolean := by
  rcases operand with (_ | _ | _ | _) | _ | _ <;> simp [admits, harity]

theorem readIs_eq_ok_iff : readIs f raw = .ok operand ↔
    raw = .null ∧ f.nullable = true ∧ .null = operand ∨
      ∃ b, raw = .bool b ∧ f.type = .boolean ∧ .single (.bool b) = operand := by
  cases raw with
  | null => by_cases hnull : f.nullable = true <;> simp [readIs, hnull]
  | bool b => by_cases htype : f.type = .boolean <;> simp [readIs, htype]
  | _ => simp [readIs]

theorem readSingle_eq_ok_iff : readSingle f raw = .ok operand ↔
    ∃ s, Scalar.ofJson? raw = some s ∧ f.type.admits (f.type.typed s) = true ∧
      .single (f.type.typed s) = operand := by
  have hread : Operand.single <$> readScalar f.type raw = .ok operand ↔
      ∃ s, Scalar.ofJson? raw = some s ∧ f.type.admits (f.type.typed s) = true ∧
        .single (f.type.typed s) = operand := by
    rw [Result.map_eq_ok_iff]
    constructor
    · rintro ⟨value, hvalue, rfl⟩
      obtain ⟨s, hs, hadmits, rfl⟩ := readScalar_eq_typed_iff.mp hvalue
      exact ⟨s, hs, hadmits, rfl⟩
    · rintro ⟨s, hs, hadmits, rfl⟩
      exact ⟨_, readScalar_eq_typed_iff.mpr ⟨s, hs, hadmits, rfl⟩, rfl⟩
  cases raw with
  | null => simp [readSingle, Scalar.ofJson?]
  | _ => exact hread

theorem readItems_readScalar_eq_ok_iff {type : FieldType} {i : Nat} {items : List Json}
    {values : List Scalar} : readItems (readScalar type) i items = .ok values ↔
      ∃ ss, items.mapM Scalar.ofJson? = some ss ∧
        (∀ s ∈ ss, type.admits (type.typed s) = true) ∧ ss.map type.typed = values := by
  have hread (item : Json) (value : Scalar) : readScalar type item = .ok value ↔
      True ∧ ∃ s, Scalar.ofJson? item = some s ∧ type.admits (type.typed s) = true ∧
        type.typed s = value := by
    rw [true_and, readScalar_eq_typed_iff]
  have hitems : readItems (readScalar type) i items = .ok values ↔ _ := readItems_eq_ok_iff hread
  simpa using hitems

theorem readList_eq_ok_iff : readList f op raw = .ok operand ↔
    ∃ items ss, raw = .arr items ∧ items.mapM Scalar.ofJson? = some ss ∧ ss ≠ [] ∧
      (∀ s ∈ ss, f.type.admits (f.type.typed s) = true) ∧
        .list (ss.map f.type.typed) = operand := by
  cases raw with
  | arr items =>
    cases items with
    | nil => simp [readList]
    | cons item items =>
      simp only [readList, Result.map_eq_ok_iff, readItems_readScalar_eq_ok_iff]
      constructor
      · rintro ⟨_, ⟨ss, hss, hadmits, rfl⟩, rfl⟩
        refine ⟨_, ss, rfl, hss, ?_, hadmits, rfl⟩
        rintro rfl
        simp [List.mapM_cons, Option.bind_eq_some_iff] at hss
      · rintro ⟨_, ss, h, hss, -, hadmits, rfl⟩
        cases h
        exact ⟨_, ⟨ss, hss, hadmits, rfl⟩, rfl⟩
  | _ => simp [readList]

theorem Operand.ofRaw?_eq_null_iff : ofRaw? raw = some null ↔ raw = .null := by
  cases raw <;> simp [ofRaw?]

theorem Operand.ofRaw?_eq_single_iff {s : Scalar} :
    ofRaw? raw = some (single s) ↔ Scalar.ofJson? raw = some s := by
  cases raw <;> simp [ofRaw?, Scalar.ofJson?]

theorem Operand.ofRaw?_eq_list_iff {ss : List Scalar} : ofRaw? raw = some (list ss) ↔
    ∃ items, raw = .arr items ∧ items.mapM Scalar.ofJson? = some ss := by
  cases raw <;> simp [ofRaw?, Scalar.listOfJson?_eq_mapM]

/-- An operand is read exactly when the value stands for one that the field admits once typed. -/
theorem readOperand_eq_ok_iff : readOperand f op raw = .ok operand ↔
    ∃ w, Operand.ofRaw? raw = some w ∧ f.admits op (w.map f.type.typed) = true ∧
      w.map f.type.typed = operand := by
  cases harity : op.arity with
  | «is» =>
    simp only [readOperand, harity, readIs_eq_ok_iff, FieldDecl.admits_is_iff harity]
    constructor
    · rintro (⟨rfl, hnull, rfl⟩ | ⟨b, rfl, htype, rfl⟩)
      · exact ⟨.null, rfl, .inl ⟨rfl, hnull⟩, rfl⟩
      · refine ⟨.single (.bool b), rfl, .inr ⟨b, ?_, htype⟩, ?_⟩ <;> rw [htype] <;> rfl
    · rintro ⟨w, hw, ⟨hnull, hnullable⟩ | ⟨b, hb, htype⟩, rfl⟩
      · cases w <;> simp [Operand.map] at hnull
        exact .inl ⟨Operand.ofRaw?_eq_null_iff.mp hw, hnullable, rfl⟩
      · cases w <;> simp [Operand.map, FieldType.typed_eq_bool_iff] at hb
        subst hb
        have hraw := Scalar.ofJson?_eq_bool_iff.mp (Operand.ofRaw?_eq_single_iff.mp hw)
        refine .inr ⟨b, hraw, htype, ?_⟩
        rw [htype]
        rfl
  | list =>
    simp only [readOperand, harity, readList_eq_ok_iff, FieldDecl.admits_list_iff harity]
    constructor
    · rintro ⟨items, ss, rfl, hss, hne, hadmits, rfl⟩
      refine ⟨.list ss, Operand.ofRaw?_eq_list_iff.mpr ⟨items, rfl, hss⟩, ⟨_, rfl, ?_, ?_⟩, rfl⟩
      · simpa using hne
      · exact List.forall_mem_map.mpr hadmits
    · rintro ⟨w, hw, ⟨values, hvalues, hne, hadmits⟩, rfl⟩
      cases w <;> simp [Operand.map] at hvalues
      subst hvalues
      obtain ⟨items, rfl, hss⟩ := Operand.ofRaw?_eq_list_iff.mp hw
      exact ⟨items, _, rfl, hss, by simpa using hne, List.forall_mem_map.mp hadmits, rfl⟩
  | single =>
    simp only [readOperand, harity, readSingle_eq_ok_iff, FieldDecl.admits_single_iff harity]
    constructor
    · rintro ⟨s, hs, hadmits, rfl⟩
      exact ⟨.single s, Operand.ofRaw?_eq_single_iff.mpr hs, ⟨_, rfl, hadmits⟩, rfl⟩
    · rintro ⟨w, hw, ⟨value, hvalue, hadmits⟩, rfl⟩
      cases w <;> simp [Operand.map] at hvalue
      subst hvalue
      exact ⟨_, Operand.ofRaw?_eq_single_iff.mp hw, hadmits, rfl⟩

end Operand

namespace Model

theorem typed_of_field? {m : Model} {c : Condition} {f : Field} (h : m.field? c.field = some f) :
    m.typed c = ⟨c.field, c.operator, c.operand.map f.decl.type.typed⟩ := by
  simp [typed, h]

@[simp] theorem typed_field (m : Model) (c : Condition) : (m.typed c).field = c.field := by
  unfold typed
  split <;> rfl

theorem accepts_iff {m : Model} {c : Condition} : m.accepts c = true ↔
    ∃ f, m.field? c.field = some f ∧ f.permitted.contains c.operator = true ∧
      f.decl.admits c.operator (c.operand.map f.decl.type.typed) = true := by
  rw [accepts, admits_iff, typed_field]
  refine exists_congr fun f => and_congr_right fun h => ?_
  rw [typed_of_field? h]

end Model

section Condition

variable {m : Model} {members : List (String × Json)} {c : Condition}

theorem Condition.plainKeys_iff : plainKeys (Table.keys members) = true ↔
    (∀ p ∈ members, p.1 ∈ ["field", "op", "operator", "value"]) ∧
      ¬("op" ∈ Table.keys members ∧ "operator" ∈ Table.keys members) := by
  simp only [plainKeys, Bool.and_eq_true, Bool.not_eq_true', List.all_eq_true,
    List.contains_iff_mem, Table.keys, List.forall_mem_map]
  rw [← Bool.not_eq_true, Bool.and_eq_true, List.contains_iff_mem, List.contains_iff_mem]

theorem readPermitted_eq_ok_iff {f : Field} {raw : Json} {op : Operator} :
    readPermitted f raw = .ok op ↔
      raw.str?.bind Operator.ofName? = some op ∧ f.permitted.contains op = true := by
  unfold readPermitted
  cases hop : raw.str?.bind Operator.ofName? with
  | none => simp
  | some o => by_cases h : f.permitted.contains o = true <;> simp [h] <;> grind

theorem readOperator_eq_ok_iff {f : Field} {op : Operator} : readOperator f members = .ok op ↔
    ¬("op" ∈ Table.keys members ∧ "operator" ∈ Table.keys members) ∧
      ∃ raw, (Table.get? members "op" <|> Table.get? members "operator") = some raw ∧
        raw.str?.bind Operator.ofName? = some op ∧ f.permitted.contains op = true := by
  have hkey (k : String) : k ∈ Table.keys members ↔ Table.get? members k ≠ none := by
    rw [ne_eq, Table.get?_eq_none_iff, Classical.not_not]
  unfold readOperator
  rw [hkey, hkey]
  cases Table.get? members "op" <;> cases Table.get? members "operator" <;>
    simp [under_eq_ok_iff, readPermitted_eq_ok_iff]

theorem Condition.ofRaw?_eq_some_iff : ofRaw? members = some c ↔
    (Table.get? members "field").bind Json.str? = some c.field ∧
      (∃ raw, (Table.get? members "op" <|> Table.get? members "operator") = some raw ∧
        raw.str?.bind Operator.ofName? = some c.operator) ∧
      Operand.ofRaw? ((Table.get? members "value").getD .null) = some c.operand := by
  obtain ⟨field, operator, operand⟩ := c
  simp only [ofRaw?, Option.bind_eq_bind, Option.bind_eq_some_iff]
  constructor
  · rintro ⟨raw, hraw, name, hname, written, hwritten, op, hop, w, hw, h⟩
    cases h
    exact ⟨⟨raw, hraw, hname⟩, ⟨written, hwritten, hop⟩, hw⟩
  · rintro ⟨⟨raw, hraw, hname⟩, ⟨written, hwritten, hop⟩, hw⟩
    exact ⟨raw, hraw, _, hname, written, hwritten, _, hop, _, hw, rfl⟩

/-- A condition is read exactly when its keys are plain and the model accepts what they say. -/
theorem readCondition_eq_ok_iff : readCondition m members = .ok c ↔
    Condition.plainKeys (Table.keys members) = true ∧
      ∃ w, Condition.ofRaw? members = some w ∧ m.accepts w = true ∧ m.typed w = c := by
  simp only [readCondition, Result.bind_eq_ok_iff, readField_eq_ok_iff, readOperator_eq_ok_iff,
    under_eq_ok_iff, readOperand_eq_ok_iff, Condition.plainKeys_iff, Model.accepts_iff,
    Condition.ofRaw?_eq_some_iff]
  constructor
  · rintro ⟨_, hkeys, f, ⟨name, hname, hf⟩, op, ⟨hone, raw, hraw, hop, hpermitted⟩, operand,
      ⟨w, hw, hadmits, rfl⟩, h⟩
    cases h
    refine ⟨⟨expectKeys_eq_ok_iff.mp hkeys, hone⟩, ⟨name, op, w⟩, ⟨hname, ⟨raw, hraw, hop⟩, hw⟩,
      ⟨f, hf, hpermitted, hadmits⟩, ?_⟩
    rw [Model.typed_of_field? hf, Model.name_of_field? hf]
  · rintro ⟨⟨hkeys, hone⟩, w, ⟨hname, ⟨raw, hraw, hop⟩, hw⟩, ⟨f, hf, hpermitted, hadmits⟩, rfl⟩
    refine ⟨(), expectKeys_eq_ok_iff.mpr hkeys, f, ⟨w.field, hname, hf⟩, w.operator,
      ⟨hone, raw, hraw, hop, hpermitted⟩, _, ⟨w.operand, hw, hadmits, rfl⟩, ?_⟩
    rw [Model.typed_of_field? hf, Model.name_of_field? hf]
    rfl

end Condition

section Finite

def Scalar.isFinite : Scalar → Bool
  | float x => x.isFinite
  | _ => true

def Operand.isFinite : Operand → Bool
  | single s => s.isFinite
  | list values => values.all Scalar.isFinite
  | null => true

variable {s : Scalar} {w : Operand} {raw : Json} {members : List (String × Json)} {c : Condition}

theorem Scalar.isFinite_of_ofJson? (h : ofJson? raw = some s) : s.isFinite = true := by
  cases raw with
  | num n =>
    simp only [ofJson?, ofNumber, Option.some.injEq] at h
    subst h
    split
    · rfl
    · exact Number.isFinite_toDouble n
  | _ => simp [ofJson?] at h <;> subst h <;> rfl

theorem Scalar.ofJson?_toJson (h : s.isFinite = true) : ofJson? s.toJson = some s := by
  cases s with
  | int i => simp [toJson, Json.ofInt64, ofJson?, ofNumber]
  | float x =>
    have hfinite : x.isFinite = true := h
    simp [toJson, Json.ofDouble, Number.ofDouble?_of_isFinite hfinite, ofJson?, ofNumber,
      Number.toInt64?, Number.toDouble]
  | _ => rfl

theorem Operand.isFinite_of_ofRaw? (h : ofRaw? raw = some w) : w.isFinite = true := by
  cases w with
  | single s => exact Scalar.isFinite_of_ofJson? (ofRaw?_eq_single_iff.mp h)
  | list values =>
    obtain ⟨items, -, hvalues⟩ := ofRaw?_eq_list_iff.mp h
    refine List.all_eq_true.mpr fun s hs => ?_
    obtain ⟨item, -, hitem⟩ := exists_of_mem_mapM hvalues hs
    exact Scalar.isFinite_of_ofJson? hitem
  | null => rfl

theorem Operand.ofRaw?_toJson (h : w.isFinite = true) : ofRaw? w.toJson = some w := by
  cases w with
  | single s => exact ofRaw?_eq_single_iff.mpr (Scalar.ofJson?_toJson h)
  | list values =>
    exact ofRaw?_eq_list_iff.mpr
      ⟨_, rfl, mapM_map fun s hs => Scalar.ofJson?_toJson (List.all_eq_true.mp h s hs)⟩
  | null => rfl

theorem Condition.isFinite_of_ofRaw? (h : ofRaw? members = some c) : c.operand.isFinite = true :=
  Operand.isFinite_of_ofRaw? (ofRaw?_eq_some_iff.mp h).2.2

theorem Condition.ofRaw?_toRaw (h : c.operand.isFinite = true) :
    ofRaw? [("field", .str c.field), ("op", .str c.operator.name), ("value", c.operand.toJson)] =
      some c := by
  refine ofRaw?_eq_some_iff.mpr ⟨rfl, ⟨_, rfl, ?_⟩, Operand.ofRaw?_toJson h⟩
  simp [Json.str?]

end Finite

end RowPolicy
