import Mathlib.Data.List.Forall2
import Mathlib.Data.List.TakeWhile
import RowPolicy.Proofs.TypedConditions
import RowPolicy.Proofs.RoundTrip

/-!
The grammar of queries. It is said of JSON values what a filter over a model is, what the other
parts of a query are, and what a query is, with limits on how deep filters and includes nest. Main
statement: a value is read as a query exactly when it is one of the grammar.
-/
namespace RowPolicy

def Succeeds {α : Type} (r : Reading α) : Prop := ∃ a, r = .ok a

section Steps

variable {α β : Type} {r : Reading α}

@[simp] theorem succeeds_ok (a : α) : Succeeds (.ok a : Reading α) := ⟨a, rfl⟩

@[simp] theorem succeeds_pure (a : α) : Succeeds (pure a : Reading α) := ⟨a, rfl⟩

@[simp] theorem not_succeeds_fault (d : Defect) : ¬Succeeds (fault d : Reading α) := nofun

@[simp] theorem succeeds_under {s : Step} : Succeeds (under s r) ↔ Succeeds r :=
  exists_congr fun _ => under_eq_ok_iff

@[simp] theorem succeeds_map {f : α → β} : Succeeds (f <$> r) ↔ Succeeds r := by
  cases r <;> simp [Succeeds]

theorem succeeds_bind {f : α → Reading β} :
    Succeeds (r >>= f) ↔ ∃ a, r = .ok a ∧ Succeeds (f a) := by
  cases r <;> simp [Succeeds]

theorem succeeds_bind_iff {f : α → Reading β} {P : Prop}
    (h : ∀ a, r = .ok a → (Succeeds (f a) ↔ P)) : Succeeds (r >>= f) ↔ Succeeds r ∧ P := by
  rw [succeeds_bind]
  constructor
  · rintro ⟨a, ha, hf⟩
    exact ⟨⟨a, ha⟩, (h a ha).mp hf⟩
  · rintro ⟨⟨a, ha⟩, hp⟩
    exact ⟨a, ha, (h a ha).mpr hp⟩

theorem succeeds_bind_pure {f : α → β} : Succeeds (do return f (← r)) ↔ Succeeds r := by
  cases r <;> simp [Succeeds]

theorem succeeds_readItems {read : Json → Reading α} {i : Nat} {items : List Json} :
    Succeeds (readItems read i items) ↔ ∀ item ∈ items, Succeeds (read item) := by
  induction items generalizing i with
  | nil => simp [readItems]
  | cons item items ih =>
    rw [readItems, succeeds_bind_iff fun _ _ => succeeds_bind_pure]
    simp [ih]

theorem succeeds_expectKeys {expected : List String} {members : List (String × Json)} :
    Succeeds (expectKeys expected members) ↔ ∀ p ∈ members, p.1 ∈ expected := by
  rw [← expectKeys_eq_ok_iff]
  exact ⟨fun ⟨_, h⟩ => h, fun h => ⟨(), h⟩⟩

theorem succeeds_readOptional {key : String} {members : List (String × Json)} {missing : α}
    {read : Json → Reading α} : Succeeds (readOptional key members missing read) ↔
      ∀ raw, Table.get? members key = some raw → Succeeds (read raw) := by
  unfold readOptional
  cases Table.get? members key <;> simp

end Steps

section Filters

/-- What a field of a type may be compared with, as it is written. -/
inductive FieldType.Spells : FieldType → Json → Prop
  | text (s : String) : Spells .text (.str s)
  | integer (i : Int) (h) (hsigned : i < 0x8000000000000000) : Spells .integer (.num (.int i h))
  | float (n : Number) : Spells .float (.num n)
  | boolean (b : Bool) : Spells .boolean (.bool b)
  | timestamp (s : String) (h : Timestamp.isValid s = true) : Spells .timestamp (.str s)
  | idNumber (i : Int) (h) (hsigned : i < 0x8000000000000000) : Spells .id (.num (.int i h))
  | idText (s : String) (h : s ≠ "") : Spells .id (.str s)

/-- What an operator may compare a field with, as it is written. -/
inductive FieldDecl.Spells (f : FieldDecl) (op : Operator) : Json → Prop
  | null (harity : op.arity = .is) (hnullable : f.nullable = true) : Spells f op .null
  | truth (b : Bool) (harity : op.arity = .is) (htype : f.type = .boolean) : Spells f op (.bool b)
  | list (items : List Json) (harity : op.arity = .list) (hne : items ≠ [])
    (h : ∀ item ∈ items, f.type.Spells item) : Spells f op (.arr items)
  | single (raw : Json) (harity : op.arity = .single) (h : f.type.Spells raw) : Spells f op raw

/-- The members of a condition: a field of the model, under one of two keys an operator that the
field permits, and what the operator compares it with; a missing value is null. -/
structure Model.IsCondition (m : Model) (members : List (String × Json)) : Prop where
  keys : ∀ p ∈ members, p.1 ∈ ["field", "op", "operator", "value"]
  parts : ∃ name f op, Table.get? members "field" = some (.str name) ∧ m.field? name = some f ∧
    (Table.get? members "op" = some (.str op.name) ∧ Table.get? members "operator" = none ∨
      Table.get? members "op" = none ∧ Table.get? members "operator" = some (.str op.name)) ∧
    f.permitted.contains op = true ∧
    f.decl.Spells op ((Table.get? members "value").getD .null)

/-- A filter over the model whose parts nest at most so deep: a combination or a negation, whose key
stands alone, or a condition. -/
inductive Model.IsFilter (m : Model) : Nat → Json → Prop
  | combination {depth : Nat} (k : Filter.Connective) (items : List Json)
    (h : ∀ item ∈ items, IsFilter m depth item) :
    IsFilter m (depth + 1) (.obj [(k.key, .arr items)])
  | negation {depth : Nat} (part : Json) (h : IsFilter m depth part) :
    IsFilter m (depth + 1) (.obj [("not", part)])
  | condition {depth : Nat} (members : List (String × Json)) (h : m.IsCondition members) :
    IsFilter m (depth + 1) (.obj members)

variable {m : Model} {limit depth : Nat} {raw : Json} {members : List (String × Json)}

theorem Number.exists_toInt64?_iff {n : Number} :
    (∃ i, n.toInt64? = some i) ↔ ∃ i h, n = .int i h ∧ i < 0x8000000000000000 := by
  cases n with
  | int i h => by_cases hlt : i < 0x8000000000000000 <;> simp [toInt64?, hlt, h]
  | float x h => simp [toInt64?]

theorem FieldType.exists_scalar?_iff {type : FieldType} :
    (∃ value, type.scalar? raw = some value) ↔ type.Spells raw := by
  constructor
  · rintro ⟨value, h⟩
    unfold scalar? at h
    split at h
    · exact .text _
    · obtain ⟨i, hi, -⟩ := Option.map_eq_some_iff.mp h
      obtain ⟨v, hv, rfl, hsigned⟩ := Number.exists_toInt64?_iff.mp ⟨i, hi⟩
      exact .integer v hv hsigned
    · exact .float _
    · exact .boolean _
    · split at h
      · exact .timestamp _ ‹_›
      · cases h
    · obtain ⟨i, hi, -⟩ := Option.map_eq_some_iff.mp h
      obtain ⟨v, hv, rfl, hsigned⟩ := Number.exists_toInt64?_iff.mp ⟨i, hi⟩
      exact .idNumber v hv hsigned
    · split at h
      · cases h
      · rename_i hempty
        exact .idText _ (by simpa using hempty)
    · cases h
  · intro h
    cases h with
    | integer i h hsigned =>
      exact ⟨.int (Int64.ofInt i), by simp [scalar?, Number.toInt64?, hsigned]⟩
    | idNumber i h hsigned =>
      exact ⟨.int (Int64.ofInt i), by simp [scalar?, Number.toInt64?, hsigned]⟩
    | timestamp s h => exact ⟨.text s, by simp [scalar?, h]⟩
    | idText s h => exact ⟨.text s, by simp [scalar?, h]⟩
    | _ => exact ⟨_, rfl⟩

theorem succeeds_readScalar {type : FieldType} :
    Succeeds (readScalar type raw) ↔ type.Spells raw := by
  rw [← FieldType.exists_scalar?_iff]
  exact exists_congr fun value => readScalar_eq_ok_iff

theorem FieldType.Spells.ne_null {type : FieldType} (h : type.Spells raw) : raw ≠ .null := by
  cases h <;> exact nofun

theorem succeeds_readIs {f : FieldDecl} : Succeeds (readIs f raw) ↔
    raw = .null ∧ f.nullable = true ∨ ∃ b, raw = .bool b ∧ f.type = .boolean := by
  unfold readIs
  split
  · cases f.nullable <;> simp
  · by_cases htype : f.type = .boolean <;> simp [htype]
  · rename_i hnull hbool
    refine iff_of_false (not_succeeds_fault _) ?_
    rintro (⟨he, -⟩ | ⟨b, he, -⟩)
    · exact hnull he
    · exact hbool b he

theorem succeeds_readList {f : FieldDecl} {op : Operator} : Succeeds (readList f op raw) ↔
    ∃ items, raw = .arr items ∧ items ≠ [] ∧ ∀ item ∈ items, f.type.Spells item := by
  unfold readList
  split
  · simp
  · rename_i items hne
    have hitems : items ≠ [] := fun he => hne (he ▸ rfl)
    simp [succeeds_readItems, succeeds_readScalar, hitems]
  · rename_i harr
    refine iff_of_false (not_succeeds_fault _) ?_
    rintro ⟨items, he, -⟩
    exact harr items he

theorem succeeds_readSingle {f : FieldDecl} : Succeeds (readSingle f raw) ↔ f.type.Spells raw := by
  unfold readSingle
  split
  · simpa using fun h : f.type.Spells .null => h.ne_null rfl
  · simp [succeeds_readScalar]

theorem succeeds_readOperand {f : FieldDecl} {op : Operator} :
    Succeeds (readOperand f op raw) ↔ f.Spells op raw := by
  unfold readOperand
  constructor
  · intro h
    split at h <;> rename_i harity
    · rcases succeeds_readIs.mp h with ⟨rfl, hnullable⟩ | ⟨b, rfl, htype⟩
      · exact .null harity hnullable
      · exact .truth b harity htype
    · obtain ⟨items, rfl, hne, hitems⟩ := succeeds_readList.mp h
      exact .list items harity hne hitems
    · exact .single raw harity (succeeds_readSingle.mp h)
  · intro h
    cases h with
    | null harity hnullable =>
      simpa only [harity] using succeeds_readIs.mpr (.inl ⟨rfl, hnullable⟩)
    | truth b harity htype =>
      simpa only [harity] using succeeds_readIs.mpr (.inr ⟨b, rfl, htype⟩)
    | list items harity hne h =>
      simpa only [harity] using succeeds_readList.mpr ⟨items, rfl, hne, h⟩
    | single raw harity h => simpa only [harity] using succeeds_readSingle.mpr h

theorem Operator.ofName?_eq_some_iff {name : String} {op : Operator} :
    ofName? name = some op ↔ name = op.name := by
  constructor
  · intro h
    unfold ofName? at h
    have hname : op.name = name := by simpa using List.find?_some h
    exact hname.symm
  · rintro rfl
    exact ofName?_name op

theorem bind_ofName?_eq_some_iff {op : Operator} :
    raw.str?.bind Operator.ofName? = some op ↔ raw = .str op.name := by
  cases raw <;> simp [Json.str?, Operator.ofName?_eq_some_iff]

theorem readPermitted_eq_ok_iff_name {f : Field} {op : Operator} :
    readPermitted f raw = .ok op ↔ raw = .str op.name ∧ f.permitted.contains op = true := by
  rw [readPermitted_eq_ok_iff, bind_ofName?_eq_some_iff]

theorem readOperator_eq_ok_iff_name {f : Field} {op : Operator} :
    readOperator f members = .ok op ↔
      (Table.get? members "op" = some (.str op.name) ∧ Table.get? members "operator" = none ∨
        Table.get? members "op" = none ∧ Table.get? members "operator" = some (.str op.name)) ∧
      f.permitted.contains op = true := by
  unfold readOperator
  cases Table.get? members "op" <;> cases Table.get? members "operator" <;>
    simp [under_eq_ok_iff, readPermitted_eq_ok_iff_name]

theorem get?_eq_str_iff {key name : String} :
    (Table.get? members key).bind Json.str? = some name ↔
      Table.get? members key = some (.str name) := by
  cases Table.get? members key with
  | none => simp
  | some raw => cases raw <;> simp [Json.str?]

theorem succeeds_readCondition : Succeeds (readCondition m members) ↔ m.IsCondition members := by
  unfold readCondition
  rw [succeeds_bind_iff fun _ _ => Iff.rfl, succeeds_expectKeys]
  simp only [succeeds_bind, readField_eq_ok_iff, readOperator_eq_ok_iff_name,
    get?_eq_str_iff]
  constructor
  · rintro ⟨hkeys, f, ⟨name, hfield, hf⟩, op, ⟨hop, hpermitted⟩, operand, hoperand, -⟩
    exact ⟨hkeys, name, f, op, hfield, hf, hop, hpermitted,
      succeeds_readOperand.mp ⟨operand, under_eq_ok_iff.mp hoperand⟩⟩
  · rintro ⟨hkeys, name, f, op, hfield, hf, hop, hpermitted, hspells⟩
    obtain ⟨operand, hoperand⟩ := succeeds_readOperand.mpr hspells
    exact ⟨hkeys, f, ⟨name, hfield, hf⟩, op, ⟨hop, hpermitted⟩, operand,
      under_eq_ok_iff.mpr hoperand, succeeds_pure _⟩

theorem Model.IsCondition.get?_eq_none (h : m.IsCondition members) {key : String}
    (hkey : key ∉ ["field", "op", "operator", "value"]) : Table.get? members key = none := by
  rw [Table.get?_eq_none_iff]
  intro hmem
  obtain ⟨p, hp, rfl⟩ := List.mem_map.mp hmem
  exact hkey (h.keys p hp)

/-- A filter is read when it is one of the grammar. From the reader the proof goes by the depth it
is given, to the reader by the parts of the filter. -/
theorem succeeds_readFilter : Succeeds (readFilter m limit depth raw) ↔ m.IsFilter depth raw := by
  constructor
  · rintro ⟨f, h⟩
    induction depth generalizing raw f with
    | zero => cases h
    | succ depth ih =>
      rcases readFilter_cases h with ⟨k, items, parts, rfl, hparts, -⟩ |
        ⟨body, part, rfl, hpart, -⟩ | ⟨members, c, rfl, hc, -⟩
      · refine .combination k items fun item hitem => ?_
        obtain ⟨part, hpart⟩ := succeeds_readItems.mp ⟨parts, hparts⟩ item hitem
        exact ih part hpart
      · exact .negation body (ih part hpart)
      · exact .condition members (succeeds_readCondition.mp ⟨c, hc⟩)
  · intro h
    induction h with
    | combination k items h ih =>
      have hparts := succeeds_readItems (i := 0).mpr ih
      cases k <;> simpa [readFilter, Filter.Connective.key, readAlone, readParts] using hparts
    | negation part h ih => simpa [readFilter, readAlone] using ih
    | condition members h =>
      have hand : Table.get? members "and" = none := h.get?_eq_none (by decide)
      have hor : Table.get? members "or" = none := h.get?_eq_none (by decide)
      have hnot : Table.get? members "not" = none := h.get?_eq_none (by decide)
      simpa [readFilter, hand, hor, hnot] using succeeds_readCondition.mpr h

end Filters

section Texts

theorem cutAtDot_of_not_mem {text : String} (h : '.' ∉ text.toList) :
    cutAtDot text = (text, none) := by
  have hnone : text.toList.dropWhile (· != '.') = [] := by
    rw [List.dropWhile_eq_nil_iff]
    intro c hc
    simpa using fun he : c = '.' => h (he ▸ hc)
  simp only [cutAtDot, hnone]

theorem cutAtDot_append {name : String} (h : '.' ∉ name.toList) (rest : String) :
    cutAtDot (name ++ "." ++ rest) = (name, some rest) := by
  have hname : ∀ c ∈ name.toList, (c != '.') = true := by
    intro c hc
    simpa using fun he : c = '.' => h (he ▸ hc)
  have htext : (name ++ "." ++ rest).toList = name.toList ++ '.' :: rest.toList := by
    simp
  simp only [cutAtDot, htext]
  rw [List.dropWhile_append_of_pos hname, List.takeWhile_append_of_pos hname]
  simp

theorem cutAtDot_cases (text : String) : '.' ∉ text.toList ∨
    ∃ name rest, '.' ∉ name.toList ∧ text = name ++ "." ++ rest := by
  by_cases h : '.' ∈ text.toList
  · obtain ⟨front, back, htext, hfront⟩ := List.eq_append_cons_of_mem h
    refine .inr ⟨.ofList front, .ofList back, by simpa using hfront, ?_⟩
    rw [← String.toList_inj, htext]
    simp
  · exact .inl h

end Texts

section Sorting

def IsDirection (text : String) : Prop := asciiLower text = "asc" ∨ asciiLower text = "desc"

def Model.Sorts (m : Model) (name : String) : Prop :=
  ∃ f, m.field? name = some f ∧ f.decl.sortable = true

/-- A sort clause: the name of a field, the name and a direction behind the first dot of a text, or
both as the members of an object, in which the direction may be missing. -/
inductive Model.IsSortClause (m : Model) : Json → Prop
  | name (name : String) (hdot : '.' ∉ name.toList) (h : m.Sorts name) : IsSortClause m (.str name)
  | directed (name direction : String) (hdot : '.' ∉ name.toList)
    (hdirection : IsDirection direction) (h : m.Sorts name) :
    IsSortClause m (.str (name ++ "." ++ direction))
  | members (members : List (String × Json)) (name : String)
    (keys : ∀ p ∈ members, p.1 ∈ ["field", "direction"])
    (hname : Table.get? members "field" = some (.str name))
    (hdirection : ∀ raw, Table.get? members "direction" = some raw →
      ∃ direction, raw = .str direction ∧ IsDirection direction)
    (h : m.Sorts name) : IsSortClause m (.obj members)

def Model.IsSort (m : Model) (raw : Json) : Prop :=
  ∃ items, raw = .arr items ∧ ∀ item ∈ items, m.IsSortClause item

variable {m : Model} {raw : Json}

theorem succeeds_readDirection {text : String} :
    Succeeds (readDirection text) ↔ IsDirection text := by
  unfold readDirection IsDirection
  split
  · rename_i htext
    simp [htext]
  · rename_i htext
    simp [htext]
  · rename_i hasc hdesc
    refine iff_of_false (not_succeeds_fault _) ?_
    rintro (h | h)
    · exact hasc h
    · exact hdesc h

theorem succeeds_readSortable {name : String} :
    Succeeds (readSortable m name) ↔ m.Sorts name := by
  unfold readSortable Model.Sorts
  cases m.field? name with
  | none => simp
  | some f => cases hsortable : f.decl.sortable <;> simp [hsortable]

theorem succeeds_readSortText {name written : String} {clause : Direction → SortClause} :
    Succeeds (do
      let direction ← readDirection written
      readSortable m name
      return clause direction) ↔ IsDirection written ∧ m.Sorts name := by
  rw [succeeds_bind_iff fun _ _ => succeeds_bind_pure, succeeds_readDirection,
    succeeds_readSortable]

theorem succeeds_readSortClause_str {text : String} :
    Succeeds (readSortClause m (.str text)) ↔ m.IsSortClause (.str text) := by
  constructor
  · intro h
    rcases cutAtDot_cases text with hdot | ⟨name, rest, hdot, rfl⟩
    · simp only [readSortClause, cutAtDot_of_not_mem hdot] at h
      exact .name text hdot (succeeds_readSortText.mp h).2
    · simp only [readSortClause, cutAtDot_append hdot] at h
      obtain ⟨hdirection, hsorts⟩ := succeeds_readSortText.mp h
      exact .directed name rest hdot hdirection hsorts
  · intro h
    cases h with
    | name name hdot hsorts =>
      simp only [readSortClause, cutAtDot_of_not_mem hdot]
      exact succeeds_readSortText.mpr ⟨.inl (by decide +kernel), hsorts⟩
    | directed name direction hdot hdirection hsorts =>
      simp only [readSortClause, cutAtDot_append hdot]
      exact succeeds_readSortText.mpr ⟨hdirection, hsorts⟩

theorem succeeds_readSortClause_obj {members : List (String × Json)} :
    Succeeds (readSortClause m (.obj members)) ↔ m.IsSortClause (.obj members) := by
  have hclause : m.IsSortClause (.obj members) ↔ (∀ p ∈ members, p.1 ∈ ["field", "direction"]) ∧
      ∃ name, Table.get? members "field" = some (.str name) ∧
        (∀ raw, Table.get? members "direction" = some raw →
          ∃ direction, raw = .str direction ∧ IsDirection direction) ∧ m.Sorts name := by
    constructor
    · rintro ⟨⟩
      exact ⟨‹_›, _, ‹_›, ‹_›, ‹_›⟩
    · rintro ⟨keys, name, hname, hdirection, hsorts⟩
      exact .members members name keys hname hdirection hsorts
  rw [hclause, readSortClause, succeeds_bind_iff fun _ _ => Iff.rfl, succeeds_expectKeys]
  refine and_congr_right fun _ => ?_
  cases hfield : Table.get? members "field" with
  | none => simp
  | some raw =>
    cases raw with
    | str name =>
      simp only [Option.bind_some, Json.str?]
      rw [succeeds_bind_iff fun _ _ => succeeds_bind_pure, succeeds_under, succeeds_readSortable,
        succeeds_readOptional]
      constructor
      · rintro ⟨hdirection, hsorts⟩
        refine ⟨name, rfl, fun raw hraw => ?_, hsorts⟩
        have hread := hdirection raw hraw
        split at hread
        · exact ⟨_, rfl, succeeds_readDirection.mp hread⟩
        · exact absurd hread (not_succeeds_fault _)
      · rintro ⟨_, ⟨⟩, hdirection, hsorts⟩
        refine ⟨fun raw hraw => ?_, hsorts⟩
        obtain ⟨direction, rfl, hdirection⟩ := hdirection raw hraw
        exact succeeds_readDirection.mpr hdirection
    | _ => simp [Json.str?]

theorem succeeds_readSortClause : Succeeds (readSortClause m raw) ↔ m.IsSortClause raw := by
  match raw with
  | .str text => exact succeeds_readSortClause_str
  | .obj members => exact succeeds_readSortClause_obj
  | .null | .bool _ | .num _ | .arr _ => exact iff_of_false (not_succeeds_fault _) nofun

theorem succeeds_readSort : Succeeds (readSort m raw) ↔ m.IsSort raw := by
  unfold readSort Model.IsSort
  split
  · simp [succeeds_readItems, succeeds_readSortClause]
  · rename_i harr
    refine iff_of_false (not_succeeds_fault _) ?_
    rintro ⟨items, he, -⟩
    exact harr items he

end Sorting

section Paging

/-- A count: an integer that is not negative and has a sign bit to spare. -/
def Json.IsCount (raw : Json) (n : Nat) : Prop :=
  ∃ h, raw = .num (.int n h) ∧ n < 0x8000000000000000

theorem Json.IsCount.unique {raw : Json} {n k : Nat} (hn : raw.IsCount n) (hk : raw.IsCount k) :
    n = k := by
  obtain ⟨_, rfl, -⟩ := hn
  obtain ⟨_, h, -⟩ := hk
  exact_mod_cast (Number.int.inj (Json.num.inj h))

/-- The members of a page: a limit that is not too large, an offset, and a cursor where there is no
offset. -/
structure Page.IsWritten (maximum : UInt64) (members : List (String × Json)) : Prop where
  keys : ∀ p ∈ members, p.1 ∈ ["limit", "offset", "cursor"]
  limit : ∀ raw, Table.get? members "limit" = some raw → ∃ n, raw.IsCount n ∧ n ≤ maximum.toNat
  offset : ∀ raw, Table.get? members "offset" = some raw → ∃ n, raw.IsCount n
  cursor : ∀ raw, Table.get? members "cursor" = some raw →
    (∃ text, raw = .str text) ∧ Table.get? members "offset" = none

variable {maximum : UInt64} {raw : Json} {members : List (String × Json)}

theorem readCount_eq_ok_iff {n : UInt64} : readCount raw = .ok n ↔ raw.IsCount n.toNat := by
  constructor
  · intro h
    cases raw with
    | num number =>
      cases number with
      | int i hrange =>
        obtain ⟨hsigned, hle⟩ : i < 0x8000000000000000 ∧ 0 ≤ i := by
          rw [readCount_eq, Number.toInt64?] at h
          by_cases hsigned : i < 0x8000000000000000
          · simp only [hsigned, if_true, Int64.toInt_ofInt_of_le hrange.1 (by omega)] at h
            exact ⟨hsigned, by_contra fun hle => by simp [hle] at h⟩
          · simp [hsigned] at h
        lift i to Nat using hle
        have hi : (UInt64.ofNat i).toNat = i :=
          UInt64.toNat_ofNat_of_lt' (show i < 18446744073709551616 by omega)
        have hcount := readCount_ofUInt64 (n := UInt64.ofNat i) (by omega)
        simp only [Json.ofUInt64, Number.ofUInt64, hi, h] at hcount
        cases hcount
        rw [hi]
        exact ⟨hrange, rfl, by omega⟩
      | float x hfinite => cases h
    | _ => cases h
  · rintro ⟨h, rfl, hsigned⟩
    exact readCount_ofUInt64 hsigned

theorem succeeds_readCount : Succeeds (readCount raw) ↔ ∃ n, raw.IsCount n := by
  constructor
  · rintro ⟨n, h⟩
    exact ⟨n.toNat, readCount_eq_ok_iff.mp h⟩
  · rintro ⟨n, hrange, rfl, hsigned⟩
    have hn : (UInt64.ofNat n).toNat = n :=
      UInt64.toNat_ofNat_of_lt' (show n < 18446744073709551616 by omega)
    refine ⟨UInt64.ofNat n, readCount_eq_ok_iff.mpr ?_⟩
    rw [hn]
    exact ⟨hrange, rfl, hsigned⟩

theorem succeeds_readLimit :
    Succeeds (readLimit maximum raw) ↔ ∃ n, raw.IsCount n ∧ n ≤ maximum.toNat := by
  constructor
  · rintro ⟨n, h⟩
    obtain ⟨hcount, hle⟩ := readLimit_eq_ok_iff.mp h
    exact ⟨n.toNat, readCount_eq_ok_iff.mp hcount, UInt64.le_iff_toNat_le.mp hle⟩
  · rintro ⟨n, h, hle⟩
    obtain ⟨k, hk⟩ := succeeds_readCount.mpr ⟨n, h⟩
    have hkn : k.toNat = n := (readCount_eq_ok_iff.mp hk).unique h
    exact ⟨k, readLimit_eq_ok_iff.mpr ⟨hk, UInt64.le_iff_toNat_le.mpr (hkn ▸ hle)⟩⟩

theorem succeeds_readCursor {offset : Option UInt64} :
    Succeeds (readCursor offset raw) ↔ (∃ text, raw = .str text) ∧ offset = none := by
  simp only [Succeeds, readCursor_eq_ok_iff, exists_and_right]

theorem readOptional_eq_none_iff {α : Type} {key : String} {read : Json → Reading α} {a : Option α}
    (h : readOptional key members none (fun raw => some <$> read raw) = .ok a) :
    a = none ↔ Table.get? members key = none := by
  unfold readOptional at h
  split at h
  · cases h
    simp [*]
  · obtain ⟨b, -, rfl⟩ := Result.map_eq_ok_iff.mp (under_eq_ok_iff.mp h)
    simp [*]

theorem succeeds_readPage : Succeeds (readPage maximum raw) ↔
    ∃ members, raw = .obj members ∧ Page.IsWritten maximum members := by
  unfold readPage
  split
  · rename_i members
    -- The cursor is the one part that is read with another at hand, the offset.
    have hcursor (offset : Option UInt64)
        (h : readOptional "offset" members none (fun raw => some <$> readCount raw) = .ok offset) :
        Succeeds (readOptional "cursor" members none fun raw => some <$> readCursor offset raw) ↔
          ∀ raw, Table.get? members "cursor" = some raw →
            (∃ text, raw = .str text) ∧ Table.get? members "offset" = none := by
      simp only [succeeds_readOptional, succeeds_map, succeeds_readCursor,
        readOptional_eq_none_iff h]
    rw [succeeds_bind_iff fun _ _ => succeeds_bind_iff fun _ _ => succeeds_bind_iff fun offset h =>
      succeeds_bind_pure.trans (hcursor offset h)]
    simp only [succeeds_expectKeys, succeeds_readOptional, succeeds_map, succeeds_readLimit,
      succeeds_readCount]
    constructor
    · rintro ⟨keys, limit, offset, cursor⟩
      exact ⟨members, rfl, keys, limit, offset, cursor⟩
    · rintro ⟨_, ⟨⟩, keys, limit, offset, cursor⟩
      exact ⟨keys, limit, offset, cursor⟩
  · rename_i hobj
    refine iff_of_false (not_succeeds_fault _) ?_
    rintro ⟨members, he, -⟩
    exact hobj members he

end Paging

section Includes

/-- An include of a relation of the model, by its name alone or with a query over its target, which
`query` says what it is; a missing query is null. -/
inductive Model.IsInclude (m : Model) (query : String → Json → Prop) : Json → String → Prop
  | name (name : String) (r : Relation) (hrelation : m.relation? name = some r)
    (hquery : query r.target .null) : IsInclude m query (.str name) name
  | members (members : List (String × Json)) (name : String) (r : Relation)
    (keys : ∀ p ∈ members, p.1 ∈ ["relation", "query"])
    (hname : Table.get? members "relation" = some (.str name))
    (hrelation : m.relation? name = some r)
    (hquery : query r.target ((Table.get? members "query").getD .null)) :
    IsInclude m query (.obj members) name

def IsIncludeList (item : Json → String → Prop) (raw : Json) : Prop :=
  ∃ items names, raw = .arr items ∧ List.Forall₂ item items names ∧ names.Nodup

section Include

variable {m : Model} {read : String → Json → Reading Query} {query : String → Json → Prop}
  {seen : List String} {raw : Json} {name : String}

theorem readInclude_iff (hread : ∀ target raw, Succeeds (read target raw) ↔ query target raw) :
    (∃ i, readInclude read m seen raw = .ok i ∧ i.relation.name = name) ↔
      m.IsInclude query raw name ∧ name ∉ seen := by
  constructor
  · rintro ⟨i, h, rfl⟩
    unfold readInclude at h
    split at h
    · obtain ⟨r, hr, h⟩ := Result.bind_eq_ok_iff.mp h
      obtain ⟨q, hq, h⟩ := Result.bind_eq_ok_iff.mp h
      cases h
      obtain ⟨hrelation, hseen⟩ := readRelation_eq_ok_iff.mp hr
      obtain rfl := Model.name_of_relation? hrelation
      exact ⟨.name r.name r hrelation ((hread _ _).mp ⟨q, under_eq_ok_iff.mp hq⟩), hseen⟩
    · obtain ⟨_, hkeys, h⟩ := Result.bind_eq_ok_iff.mp h
      obtain ⟨r, hr, h⟩ := Result.bind_eq_ok_iff.mp h
      obtain ⟨q, hq, h⟩ := Result.bind_eq_ok_iff.mp h
      cases h
      rw [under_eq_ok_iff] at hr
      split at hr
      · cases hr
      · rename_i name hname
        obtain ⟨hrelation, hseen⟩ := readRelation_eq_ok_iff.mp hr
        obtain rfl := Model.name_of_relation? hrelation
        exact ⟨.members _ r.name r (expectKeys_eq_ok_iff.mp hkeys) (get?_eq_str_iff.mp hname)
          hrelation ((hread _ _).mp ⟨q, under_eq_ok_iff.mp hq⟩), hseen⟩
    · cases h
  · rintro ⟨h, hseen⟩
    cases h with
    | name name r hrelation hquery =>
      obtain ⟨q, hq⟩ := (hread _ _).mpr hquery
      have hr := readRelation_eq_ok_iff.mpr ⟨hrelation, hseen⟩
      exact ⟨⟨r, q⟩, by simp [readInclude, hr, hq], Model.name_of_relation? hrelation⟩
    | members members name r keys hname hrelation hquery =>
      obtain ⟨q, hq⟩ := (hread _ _).mpr hquery
      have hr := readRelation_eq_ok_iff.mpr ⟨hrelation, hseen⟩
      have hkeys := expectKeys_eq_ok_iff.mpr keys
      exact ⟨⟨r, q⟩, by simp [readInclude, hkeys, hname, Json.str?, hr, hq],
        Model.name_of_relation? hrelation⟩

end Include

variable {item : List String → Json → Reading (Include Query)} {spells : Json → String → Prop}
  {seen : List String} {i : Nat}

theorem succeeds_readIncludes {items : List Json}
    (hitem : ∀ seen raw name, (∃ i, item seen raw = .ok i ∧ i.relation.name = name) ↔
      spells raw name ∧ name ∉ seen) :
    Succeeds (readIncludes item seen i items) ↔
      ∃ names, List.Forall₂ spells items names ∧ names.Nodup ∧ ∀ name ∈ names, name ∉ seen := by
  induction items generalizing seen i with
  | nil => simp [readIncludes]
  | cons raw items ih =>
    rw [readIncludes, succeeds_bind]
    simp only [under_eq_ok_iff, succeeds_bind_pure, ih]
    constructor
    · rintro ⟨one, hone, names, hspells, hdistinct, hseen⟩
      obtain ⟨hraw, hname⟩ := (hitem seen raw _).mp ⟨one, hone, rfl⟩
      refine ⟨one.relation.name :: names, .cons hraw hspells, ?_, ?_⟩
      · exact List.nodup_cons.mpr ⟨fun h => hseen _ h (by simp), hdistinct⟩
      · exact List.forall_mem_cons.mpr ⟨hname, fun name h hmem => hseen name h (by simp [hmem])⟩
    · rintro ⟨_, h, hdistinct, hseen⟩
      obtain ⟨name, names, hraw, hspells, rfl⟩ := List.forall₂_cons_left_iff.mp h
      obtain ⟨hfirst, hrest⟩ := List.nodup_cons.mp hdistinct
      obtain ⟨hname, hothers⟩ := List.forall_mem_cons.mp hseen
      obtain ⟨one, hone, rfl⟩ := (hitem seen raw name).mpr ⟨hraw, hname⟩
      refine ⟨one, hone, names, hspells, hrest, fun name h hmem => ?_⟩
      rcases List.mem_cons.mp hmem with rfl | hmem
      · exact hfirst h
      · exact hothers name h hmem

theorem succeeds_readIncludeList {raw : Json}
    (hitem : ∀ seen raw name, (∃ i, item seen raw = .ok i ∧ i.relation.name = name) ↔
      spells raw name ∧ name ∉ seen) :
    Succeeds (readIncludeList item raw) ↔ IsIncludeList spells raw := by
  unfold readIncludeList IsIncludeList
  split
  · simp [succeeds_readIncludes hitem]
  · rename_i harr
    refine iff_of_false (not_succeeds_fault _) ?_
    rintro ⟨items, _, he, -⟩
    exact harr items he

end Includes

namespace Schema

/-- A query over a model: null or an object whose parts, as far as they are there, are those of a
query, its includes as `item` says. -/
inductive IsQueryWith (s : Schema) (limits : QueryLimits) (item : Model → Json → String → Prop)
    (model : String) : Json → Prop
  | null (m : Model) (hm : s.model? model = some m) : IsQueryWith s limits item model .null
  | members (m : Model) (hm : s.model? model = some m) (members : List (String × Json))
    (keys : ∀ p ∈ members, p.1 ∈ ["filters", "include", "sort", "pagination"])
    (filters : ∀ raw, Table.get? members "filters" = some raw →
      m.IsFilter limits.filterDepth.toNat raw)
    (includes : ∀ raw, Table.get? members "include" = some raw → IsIncludeList (item m) raw)
    (sort : ∀ raw, Table.get? members "sort" = some raw → m.IsSort raw)
    (page : ∀ raw, Table.get? members "pagination" = some raw →
      ∃ members, raw = .obj members ∧ Page.IsWritten limits.pageSize members) :
    IsQueryWith s limits item model (.obj members)

/-- A query over a model whose includes nest at most so deep. -/
def IsQuery (s : Schema) (limits : QueryLimits) : Nat → String → Json → Prop
  | 0 => IsQueryWith s limits fun _ _ _ => False
  | depth + 1 => IsQueryWith s limits fun m => m.IsInclude (IsQuery s limits depth)

variable {s : Schema} {limits : QueryLimits} {model : String} {raw : Json}

theorem succeeds_readQueryWith {item : Model → List String → Json → Reading (Include Query)}
    {spells : Model → Json → String → Prop}
    (hitem : ∀ m seen raw name, (∃ i, item m seen raw = .ok i ∧ i.relation.name = name) ↔
      spells m raw name ∧ name ∉ seen) :
    Succeeds (readQueryWith s limits item model raw) ↔ s.IsQueryWith limits spells model raw := by
  rw [readQueryWith, succeeds_bind]
  simp only [readModel_eq_ok_iff]
  constructor
  · rintro ⟨m, hm, h⟩
    split at h
    · exact .null m hm
    · rename_i members
      rw [succeeds_bind_iff fun _ _ => succeeds_bind_iff fun _ _ => succeeds_bind_iff fun _ _ =>
        succeeds_bind_iff fun _ _ => succeeds_bind_pure] at h
      simp only [succeeds_expectKeys, succeeds_readOptional, succeeds_readFilter, succeeds_readSort,
        succeeds_readPage, succeeds_readIncludeList (hitem m)] at h
      obtain ⟨keys, filters, includes, sort, page⟩ := h
      exact .members m hm members keys filters includes sort page
    · exact absurd h (not_succeeds_fault _)
  · rintro (⟨m, hm⟩ | ⟨m, hm, members, keys, filters, includes, sort, page⟩)
    · exact ⟨m, hm, succeeds_pure _⟩
    · refine ⟨m, hm, ?_⟩
      dsimp only
      rw [succeeds_bind_iff fun _ _ => succeeds_bind_iff fun _ _ => succeeds_bind_iff fun _ _ =>
        succeeds_bind_iff fun _ _ => succeeds_bind_pure]
      simp only [succeeds_expectKeys, succeeds_readOptional, succeeds_readFilter, succeeds_readSort,
        succeeds_readPage, succeeds_readIncludeList (hitem m)]
      exact ⟨keys, filters, includes, sort, page⟩

theorem succeeds_readQuery (depth : Nat) :
    Succeeds (readQuery s limits depth model raw) ↔ s.IsQuery limits depth model raw := by
  induction depth generalizing model raw with
  | zero => exact succeeds_readQueryWith fun m seen raw name => by simp
  | succ depth ih =>
    exact succeeds_readQueryWith fun m seen raw name => readInclude_iff fun target raw => ih

/-- Parsing accepts exactly the queries of the grammar. -/
theorem parse_iff_isQuery : (∃ q, s.parse limits model raw = .ok q) ↔
    s.IsQuery limits limits.includeDepth.toNat model raw := by
  rw [← succeeds_readQuery]
  exact exists_congr fun q => Result.mapError_eq_ok_iff

end Schema

end RowPolicy
