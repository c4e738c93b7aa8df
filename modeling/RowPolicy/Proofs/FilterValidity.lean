import RowPolicy.Proofs.CanonicalForm
import RowPolicy.Proofs.Numbers
import RowPolicy.Proofs.Reading

/-!
The filters that a model accepts, and how they are read. Whatever reading gives back is canonical,
speaks of the model only and is no deeper than the limit; written out and read again, a filter
over the model comes back in its canonical form.
-/
namespace RowPolicy

def FieldType.admits : FieldType → Scalar → Bool
  | text, .text _ => true
  | integer, .int _ => true
  | float, .float x => x.isFinite
  | boolean, .bool _ => true
  | timestamp, .text s => Timestamp.isValid s
  | id, .int _ => true
  | id, .text s => !s.isEmpty
  | _, _ => false

/-- An operand of the shape an operator expects, with values of the type of a field. -/
def FieldDecl.admits (f : FieldDecl) (op : Operator) (operand : Operand) : Bool :=
  match op.arity, operand with
  | .is, .null => f.nullable
  | .is, .single (.bool _) => f.type = .boolean
  | .list, .list values => !values.isEmpty && values.all f.type.admits
  | .single, .single value => f.type.admits value
  | _, _ => false

/-- A condition on a field of a model, with an operator that the field permits. -/
def Model.admits (m : Model) (c : Condition) : Bool :=
  match m.field? c.field with
  | some f => f.permitted.contains c.operator && f.decl.admits c.operator c.operand
  | none => false

theorem Model.name_of_field? {m : Model} {name : String} {f : Field} (h : m.field? name = some f) :
    f.decl.name = name := by
  simpa using List.find?_some h

theorem Model.admits_iff {m : Model} {c : Condition} : m.admits c = true ↔
    ∃ f, m.field? c.field = some f ∧ f.permitted.contains c.operator = true ∧
      f.decl.admits c.operator c.operand = true := by
  unfold admits
  split
  · rename_i f hf
    simp [hf]
  · rename_i hf
    simp [hf]

theorem FieldType.scalar?_toJson {type : FieldType} {value : Scalar}
    (h : type.admits value = true) : type.scalar? value.toJson = some value := by
  cases type <;> cases value <;> simp_all [admits, scalar?, Scalar.toJson, Json.ofInt64,
    Json.ofDouble, Number.ofDouble?_of_isFinite, Number.toDouble]

theorem FieldType.admits_of_scalar? {type : FieldType} {raw : Json} {value : Scalar}
    (h : type.scalar? raw = some value) : type.admits value = true := by
  unfold scalar? at h
  split at h
  · cases h; rfl
  · obtain ⟨i, -, rfl⟩ := Option.map_eq_some_iff.mp h; rfl
  · cases h; exact Number.isFinite_toDouble _
  · cases h; rfl
  · split at h
    · cases h; assumption
    · cases h
  · obtain ⟨i, -, rfl⟩ := Option.map_eq_some_iff.mp h; rfl
  · split at h
    · cases h
    · cases h; simp_all [admits]
  · cases h

theorem readScalar_eq_ok_iff {type : FieldType} {raw : Json} {value : Scalar} :
    readScalar type raw = .ok value ↔ type.scalar? raw = some value := by
  unfold readScalar
  cases type.scalar? raw <;> simp

section Operand

variable {f : FieldDecl} {op : Operator} {raw : Json} {operand : Operand}

theorem readList_toJson {values : List Scalar} (hne : values ≠ [])
    (h : ∀ v ∈ values, f.type.admits v = true) :
    readList f op (.arr (values.map Scalar.toJson)) = .ok (.list values) := by
  have hread : readItems (readScalar f.type) 0 (values.map Scalar.toJson) =
      .ok (values.map id) :=
    readItems_map (fun v hv => readScalar_eq_ok_iff.mpr (FieldType.scalar?_toJson (h v hv))) 0
  rw [List.map_id] at hread
  cases values with
  | nil => exact absurd rfl hne
  | cons v values =>
    rw [List.map_cons] at hread ⊢
    rw [readList, hread, Result.map_ok]
    exact nofun

theorem admits_of_readList (h : readList f op raw = .ok operand) :
    ∃ values, operand = .list values ∧ values ≠ [] ∧ ∀ v ∈ values, f.type.admits v = true := by
  unfold readList at h
  split at h
  · cases h
  · rename_i items hne
    obtain ⟨values, hvalues, rfl⟩ := Result.map_eq_ok_iff.mp h
    refine ⟨values, rfl, ?_, fun v hv => ?_⟩
    · rintro rfl
      exact hne (List.length_eq_zero_iff.mp (length_readItems hvalues).symm)
    · obtain ⟨item, -, hitem⟩ := exists_of_mem_readItems hvalues hv
      exact FieldType.admits_of_scalar? (readScalar_eq_ok_iff.mp hitem)
  · cases h

theorem readSingle_toJson {value : Scalar} (h : f.type.admits value = true) :
    readSingle f value.toJson = .ok (.single value) := by
  have hscalar := FieldType.scalar?_toJson h
  unfold readSingle
  split
  · rename_i hnull
    rw [hnull] at hscalar
    cases htype : f.type <;> simp [htype, FieldType.scalar?] at hscalar
  · rw [readScalar_eq_ok_iff.mpr hscalar, Result.map_ok]

theorem readOperand_toJson (h : f.admits op operand = true) :
    readOperand f op operand.toJson = .ok operand := by
  unfold FieldDecl.admits at h
  unfold readOperand
  split at h
  · rename_i harity
    simp [harity, Operand.toJson, readIs, h]
  · rename_i b harity
    simp [harity, Operand.toJson, Scalar.toJson, readIs, of_decide_eq_true h]
  · rename_i values harity
    have hvalues : values ≠ [] ∧ ∀ v ∈ values, f.type.admits v = true := by simpa using h
    rw [harity]
    exact readList_toJson hvalues.1 hvalues.2
  · rename_i value harity
    rw [harity]
    exact readSingle_toJson h
  · cases h

theorem admits_of_readOperand (h : readOperand f op raw = .ok operand) :
    f.admits op operand = true := by
  unfold readOperand at h
  unfold FieldDecl.admits
  split at h <;> rename_i harity <;> rw [harity]
  · unfold readIs at h
    split at h
    · split at h
      · cases h; assumption
      · cases h
    · split at h
      · cases h; simpa
      · cases h
    · cases h
  · obtain ⟨values, rfl, hne, hadmits⟩ := admits_of_readList h
    simpa [hne] using hadmits
  · unfold readSingle at h
    split at h
    · cases h
    · obtain ⟨value, hvalue, rfl⟩ := Result.map_eq_ok_iff.mp h
      exact FieldType.admits_of_scalar? (readScalar_eq_ok_iff.mp hvalue)

end Operand

section Condition

variable {m : Model} {members : List (String × Json)}

theorem readField_eq_ok_iff {f : Field} : readField m members = .ok f ↔
    ∃ name, (Table.get? members "field").bind Json.str? = some name ∧ m.field? name = some f := by
  unfold readField
  rw [under_eq_ok_iff]
  cases (Table.get? members "field").bind Json.str? with
  | none => simp
  | some name => cases hname : m.field? name <;> simp [hname]

theorem permitted_of_readPermitted {f : Field} {raw : Json} {op : Operator}
    (h : readPermitted f raw = .ok op) : f.permitted.contains op = true := by
  unfold readPermitted at h
  split at h
  · cases h
  · split at h
    · cases h; assumption
    · cases h

theorem permitted_of_readOperator {f : Field} {op : Operator}
    (h : readOperator f members = .ok op) : f.permitted.contains op = true := by
  unfold readOperator at h
  split at h
  · exact permitted_of_readPermitted (under_eq_ok_iff.mp h)
  · exact permitted_of_readPermitted (under_eq_ok_iff.mp h)
  · cases h
  · cases h

theorem readCondition_toRaw {c : Condition} (h : m.admits c = true) :
    readCondition m [("field", .str c.field), ("op", .str c.operator.name),
      ("value", c.operand.toJson)] = .ok c := by
  obtain ⟨f, hfield, hpermitted, hoperand⟩ := Model.admits_iff.mp h
  have hname := Model.name_of_field? hfield
  have hread := readOperand_toJson hoperand
  simp [readCondition, expectKeys, readField, readOperator, readPermitted, Json.str?, hfield,
    hpermitted, hread, hname]

theorem admits_of_readCondition {c : Condition} (h : readCondition m members = .ok c) :
    m.admits c = true := by
  obtain ⟨_, -, h⟩ := Result.bind_eq_ok_iff.mp h
  obtain ⟨f, hfield, h⟩ := Result.bind_eq_ok_iff.mp h
  obtain ⟨op, hop, h⟩ := Result.bind_eq_ok_iff.mp h
  obtain ⟨operand, hoperand, h⟩ := Result.bind_eq_ok_iff.mp h
  cases h
  obtain ⟨name, -, hname⟩ := readField_eq_ok_iff.mp hfield
  refine Model.admits_iff.mpr ⟨f, ?_, permitted_of_readOperator hop,
    admits_of_readOperand (under_eq_ok_iff.mp hoperand)⟩
  rwa [Model.name_of_field? hname]

end Condition

/-- A filter that a model accepts with a limit on its depth. A filter that matches every row is not
written and needs no depth. -/
structure Filter.Valid (f : Filter) (m : Model) (depth : Nat) : Prop where
  canonical : f.isCanonical = true
  admitted : ∀ c ∈ f.conditions, m.admits c = true
  shallow : f = .matchAll ∨ f.depth ≤ depth

instance (f : Filter) (m : Model) (depth : Nat) : Decidable (f.Valid m depth) :=
  decidable_of_iff (f.isCanonical = true ∧ (∀ c ∈ f.conditions, m.admits c = true) ∧
      (f = .matchAll ∨ f.depth ≤ depth))
    ⟨fun h => ⟨h.1, h.2.1, h.2.2⟩, fun h => ⟨h.canonical, h.admitted, h.shallow⟩⟩

section Filter

variable {m : Model} {limit depth : Nat} {raw : Json} {f : Filter}

theorem readAlone_eq_ok_iff {α : Type} {combinator : String} {members : List (String × Json)}
    {body : Reading α} {a : α} :
    readAlone combinator members body = .ok a ↔ members.length = 1 ∧ body = .ok a := by
  unfold readAlone
  split <;> simp_all [under_eq_ok_iff]

theorem items_of_readParts {α : Type} {read : Json → Reading α} {as : List α}
    (h : readParts read raw = .ok as) :
    ∃ items, raw = .arr items ∧ readItems read 0 items = .ok as := by
  unfold readParts at h
  split at h
  · exact ⟨_, rfl, h⟩
  · cases h

def Filter.Connective.key : Filter.Connective → String
  | all => "and"
  | any => "or"

theorem parts_of_readAlone {k : Filter.Connective} {members : List (String × Json)} {body : Json}
    (hbody : Table.get? members k.key = some body)
    (h : k.merge <$> readAlone k.key members (readParts (readFilter m limit depth) body) = .ok f) :
    ∃ items parts, members = [(k.key, .arr items)] ∧
      readItems (readFilter m limit depth) 0 items = .ok parts ∧ f = k.merge parts := by
  obtain ⟨parts, hparts, rfl⟩ := Result.map_eq_ok_iff.mp h
  obtain ⟨hlength, hparts⟩ := readAlone_eq_ok_iff.mp hparts
  obtain ⟨items, rfl, hitems⟩ := items_of_readParts hparts
  exact ⟨items, parts, Table.eq_singleton_of_get? hbody hlength, hitems, rfl⟩

theorem readFilter_cases (h : readFilter m limit (depth + 1) raw = .ok f) :
    (∃ (k : Filter.Connective) (items : List Json) (parts : List Filter),
        raw = .obj [(k.key, .arr items)] ∧
          readItems (readFilter m limit depth) 0 items = .ok parts ∧ f = k.merge parts) ∨
      (∃ body part, raw = .obj [("not", body)] ∧
        readFilter m limit depth body = .ok part ∧ f = part.negate) ∨
      ∃ members c, raw = .obj members ∧ readCondition m members = .ok c ∧ f = .leaf c := by
  unfold readFilter at h
  split at h
  · cases h
  · rename_i d members hd
    cases hd
    split at h
    · rename_i hbody
      rw [funext Filter.conj_eq_merge] at h
      obtain ⟨items, parts, rfl, hitems, hf⟩ := parts_of_readAlone (k := .all) hbody h
      exact .inl ⟨.all, items, parts, rfl, hitems, hf⟩
    · rename_i hbody
      rw [funext Filter.disj_eq_merge] at h
      obtain ⟨items, parts, rfl, hitems, hf⟩ := parts_of_readAlone (k := .any) hbody h
      exact .inl ⟨.any, items, parts, rfl, hitems, hf⟩
    · rename_i hbody
      obtain ⟨part, hpart, rfl⟩ := Result.map_eq_ok_iff.mp h
      obtain ⟨hlength, hpart⟩ := readAlone_eq_ok_iff.mp hpart
      rw [Table.eq_singleton_of_get? hbody hlength]
      exact .inr (.inl ⟨_, part, rfl, hpart, rfl⟩)
    · obtain ⟨c, hc, rfl⟩ := Result.map_eq_ok_iff.mp h
      exact .inr (.inr ⟨members, c, rfl, hc, rfl⟩)
  · cases h

/-- Reading builds canonical filters over the model, no deeper than it may go. -/
theorem valid_of_readFilter (h : readFilter m limit depth raw = .ok f) :
    f.isCanonical = true ∧ (∀ c ∈ f.conditions, m.admits c = true) ∧ f.depth ≤ depth := by
  induction depth generalizing raw f with
  | zero => cases h
  | succ depth ih =>
    rcases readFilter_cases h with ⟨k, items, parts, -, hparts, rfl⟩ |
      ⟨body, part, -, hpart, rfl⟩ | ⟨members, c, -, hc, rfl⟩
    · have hvalid : ∀ p ∈ parts, p.isCanonical = true ∧
          (∀ c ∈ p.conditions, m.admits c = true) ∧ p.depth ≤ depth := by
        intro p hp
        obtain ⟨item, -, hitem⟩ := exists_of_mem_readItems hparts hp
        exact ih hitem
      refine ⟨Filter.Connective.isCanonical_merge fun p hp => (hvalid p hp).1, fun c hc => ?_, ?_⟩
      · obtain ⟨p, hp, hc⟩ := Filter.Connective.exists_of_mem_conditions_merge hc
        exact (hvalid p hp).2.1 c hc
      -- The parts were read one level down, and merging adds back at most this level.
      · have hdepth := Filter.Connective.depth_merge_le k parts
        have hle := Filter.partsDepth_le_iff.mpr fun p hp => (hvalid p hp).2.2
        omega
    · obtain ⟨hcanonical, hadmitted, hdepth⟩ := ih hpart
      refine ⟨Filter.isCanonical_negate hcanonical, fun c hc => ?_, ?_⟩
      · exact hadmitted c (Filter.mem_conditions_of_negate hc)
      · have hle := Filter.depth_negate_le part
        omega
    · refine ⟨rfl, fun d hd => ?_, Nat.succ_le_succ (Nat.zero_le depth)⟩
      rw [List.mem_singleton.mp hd]
      exact admits_of_readCondition hc

theorem readItems_toRawParts {parts : List Filter}
    (h : ∀ p ∈ parts, (∀ c ∈ p.conditions, m.admits c = true) → p.depth ≤ depth →
      readFilter m limit depth p.toRaw = .ok p.canonicalize)
    (hadmitted : ∀ c ∈ Filter.partsConditions parts, m.admits c = true)
    (hdepth : Filter.partsDepth parts ≤ depth) :
    readItems (readFilter m limit depth) 0 (Filter.toRawParts parts) =
      .ok (Filter.canonicalizeParts parts) := by
  rw [Filter.toRawParts_eq_map, Filter.canonicalizeParts_eq_map]
  refine readItems_map (fun p hp => h p hp (fun c hc => ?_) ?_) 0
  · exact hadmitted c (Filter.mem_partsConditions.mpr ⟨p, hp, hc⟩)
  · exact Nat.le_trans (Filter.depth_le_partsDepth hp) hdepth

/-- A filter over the model, read again as it is written, comes back in its canonical form. -/
theorem readFilter_toRaw (hadmitted : ∀ c ∈ f.conditions, m.admits c = true)
    (hdepth : f.depth ≤ depth) : readFilter m limit depth f.toRaw = .ok f.canonicalize := by
  induction f generalizing depth with
  | all parts ih =>
    obtain ⟨depth, rfl⟩ := Nat.exists_eq_add_of_le' (Nat.le_trans (Filter.depth_pos _) hdepth)
    have hread := readItems_toRawParts (fun p hp => ih p hp) hadmitted
      (Nat.le_of_succ_le_succ hdepth)
    simp [Filter.toRaw, readFilter, readAlone, readParts, hread, Filter.canonicalize]
  | any parts ih =>
    obtain ⟨depth, rfl⟩ := Nat.exists_eq_add_of_le' (Nat.le_trans (Filter.depth_pos _) hdepth)
    have hread := readItems_toRawParts (fun p hp => ih p hp) hadmitted
      (Nat.le_of_succ_le_succ hdepth)
    simp [Filter.toRaw, readFilter, readAlone, readParts, hread, Filter.canonicalize]
  | not part ih =>
    obtain ⟨depth, rfl⟩ := Nat.exists_eq_add_of_le' (Nat.le_trans (Filter.depth_pos _) hdepth)
    have hread := ih hadmitted (Nat.le_of_succ_le_succ hdepth)
    simp [Filter.toRaw, readFilter, readAlone, hread, Filter.canonicalize]
  | leaf c =>
    obtain ⟨depth, rfl⟩ := Nat.exists_eq_add_of_le' (Nat.le_trans (Filter.depth_pos _) hdepth)
    have hread := readCondition_toRaw (hadmitted c (by simp [Filter.conditions]))
    simp [Filter.toRaw, readFilter, hread, Filter.canonicalize]

theorem readFilter_toRaw_of_valid (h : f.Valid m depth) (hne : f ≠ .matchAll) :
    readFilter m limit depth f.toRaw = .ok f := by
  rw [readFilter_toRaw h.admitted (h.shallow.resolve_left hne),
    Filter.canonicalize_eq_self h.canonical]

end Filter

end RowPolicy
