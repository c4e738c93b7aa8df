import RowPolicy.Proofs.TemplateFilters

/-!
Checking filter trees without writing them out. A tree is checked as it stands: how deep it nests,
and each of its conditions against its field. Main statement: to check a tree that is written out
and read again comes to the same, and leaves the canonical form of the tree with the integers on
float fields turned into floats.
-/
namespace RowPolicy

/-- A scalar that a field of a type may be compared with as it stands; a float field also takes
integers. -/
def FieldType.takes : FieldType → Scalar → Bool
  | text, .text _ => true
  | integer, .int _ => true
  | float, .float _ => true
  | float, .int _ => true
  | boolean, .bool _ => true
  | timestamp, .text s => Timestamp.isValid s
  | id, .int _ => true
  | id, .text s => !s.isEmpty
  | _, _ => false

inductive FieldDecl.Takes (f : FieldDecl) (op : Operator) : Operand → Prop
  | null (harity : op.arity = .is) (hnullable : f.nullable = true) : Takes f op .null
  | truth (b : Bool) (harity : op.arity = .is) (htype : f.type = .boolean) :
    Takes f op (.single (.bool b))
  | list (values : List Scalar) (harity : op.arity = .list) (hne : values ≠ [])
    (h : ∀ v ∈ values, f.type.takes v = true) : Takes f op (.list values)
  | single (value : Scalar) (harity : op.arity = .single) (h : f.type.takes value = true) :
    Takes f op (.single value)

def Model.Takes (m : Model) (c : Condition) : Prop :=
  ∃ f, m.field? c.field = some f ∧ f.permitted.contains c.operator = true ∧
    f.decl.Takes c.operator c.operand

theorem FieldType.admits_typed {type : FieldType} {s : Scalar} (h : s.isFinite = true) :
    type.admits (type.typed s) = type.takes s := by
  cases type with
  | float =>
    cases s with
    | float x => exact h
    | int i =>
      have hlow := i.le_toInt
      have hhigh := i.toInt_lt
      have hfinite : (Double.ofInt i.toInt).isFinite = true := Double.isFinite_ofInt (by omega)
      exact hfinite
    | _ => rfl
  | _ => cases s <;> rfl

theorem FieldDecl.admits_typed_iff {f : FieldDecl} {op : Operator} {operand : Operand}
    (h : operand.isFinite = true) :
    f.admits op (operand.map f.type.typed) = true ↔ f.Takes op operand := by
  constructor
  · intro hadmits
    cases harity : op.arity with
    | «is» =>
      rcases (admits_is_iff harity).mp hadmits with ⟨hnull, hnullable⟩ | ⟨b, hb, htype⟩
      · cases operand <;> simp [Operand.map] at hnull
        exact .null harity hnullable
      · cases operand <;> simp [Operand.map, FieldType.typed_eq_bool_iff] at hb
        subst hb
        exact .truth b harity htype
    | list =>
      obtain ⟨typed, htyped, hne, hall⟩ := (admits_list_iff harity).mp hadmits
      cases operand <;> simp [Operand.map] at htyped
      subst htyped
      refine .list _ harity (by simpa using hne) fun v hv => ?_
      rw [← FieldType.admits_typed (List.all_eq_true.mp h v hv)]
      exact hall _ (List.mem_map_of_mem hv)
    | single =>
      obtain ⟨typed, htyped, hvalue⟩ := (admits_single_iff harity).mp hadmits
      cases operand <;> simp [Operand.map] at htyped
      subst htyped
      exact .single _ harity (FieldType.admits_typed h ▸ hvalue)
  · intro htakes
    cases htakes with
    | null harity hnullable => exact (admits_is_iff harity).mpr (.inl ⟨rfl, hnullable⟩)
    | truth b harity htype =>
      refine (admits_is_iff harity).mpr (.inr ⟨b, ?_, htype⟩)
      rw [htype]
      rfl
    | list values harity hne hall =>
      refine (admits_list_iff harity).mpr ⟨_, rfl, by simpa using hne, ?_⟩
      refine List.forall_mem_map.mpr fun v hv => ?_
      rw [FieldType.admits_typed (List.all_eq_true.mp h v hv)]
      exact hall v hv
    | single value harity hvalue =>
      exact (admits_single_iff harity).mpr ⟨_, rfl, (FieldType.admits_typed h).trans hvalue⟩

theorem Model.accepts_iff_takes {m : Model} {c : Condition} (h : c.operand.isFinite = true) :
    m.accepts c = true ↔ m.Takes c := by
  rw [accepts_iff]
  exact exists_congr fun f => and_congr_right fun _ => and_congr_right fun _ =>
    FieldDecl.admits_typed_iff h

namespace Schema

variable {s : Schema} {limits : QueryLimits} {model root : String} {t f : Filter}

/-- A tree is written out, read again and accepted exactly when it nests no deeper than the limit
and the model takes all its conditions, also those that the canonical form drops; what is left is
its canonical form, with nothing changed but the integers on float fields. -/
theorem recheck_eq_ok_iff_takes (hfinite : ∀ c ∈ t.conditions, c.operand.isFinite = true) :
    s.recheck limits model t root = .ok f ↔ ∃ m, s.model? model = some m ∧
      t.depth ≤ limits.filterDepth.toNat ∧ (∀ c ∈ t.conditions, m.Takes c) ∧
        f = (t.map m.typed).canonicalize := by
  have haccepted (m : Model) :
      (∀ c ∈ t.conditions, m.accepts c = true) ↔ ∀ c ∈ t.conditions, m.Takes c :=
    forall₂_congr fun c hc => Model.accepts_iff_takes (hfinite c hc)
  rw [recheck_eq_ok_iff hfinite]
  refine exists_congr fun m => and_congr_right fun _ => ?_
  constructor
  · rintro ⟨⟨hdepth, haccepts⟩, rfl⟩
    exact ⟨hdepth, (haccepted m).mp haccepts, rfl⟩
  · rintro ⟨hdepth, htakes, rfl⟩
    exact ⟨⟨hdepth, (haccepted m).mpr htakes⟩, rfl⟩

def wholePrices : Filter :=
  .any [.any [], .not (.not (.not (.leaf ⟨"total", .lt, .single (.int 5)⟩))),
    .any [.leaf ⟨"total", .oneOf, .list [.int 1, .float (.ofRatio false 5 2)]⟩]]

def floatPrices : Filter := .any [.not (.leaf ⟨"total", .lt, .single (.float (.ofNat 5))⟩),
  .leaf ⟨"total", .oneOf, .list [.float (.ofNat 1), .float (.ofRatio false 5 2)]⟩]

/-- Text is no price, also where every order is asked for anyway. -/
def allOrWordy : Filter := .any [.all [], .leaf ⟨"total", .eq, .single (.text "5")⟩]

theorem shop_recheck_wholePrices :
    (∀ root, shop.recheck {} "order" wholePrices root = .ok floatPrices) ∧
    ∀ root f, shop.recheck {} "order" allOrWordy root ≠ .ok f := by
  have hwhole : ∀ c ∈ wholePrices.conditions, c.operand.isFinite = true := by decide +kernel
  have hwordy : ∀ c ∈ allOrWordy.conditions, c.operand.isFinite = true := by decide +kernel
  refine ⟨fun root => ?_, fun root f h => ?_⟩
  · obtain ⟨m, hm, haccepts, hchecked⟩ : ∃ m, shop.model? "order" = some m ∧
        (∀ c ∈ wholePrices.conditions, m.accepts c = true) ∧
          floatPrices = (wholePrices.map m.typed).canonicalize := ⟨_, rfl, by decide +kernel, rfl⟩
    exact (recheck_eq_ok_iff_takes hwhole).mpr ⟨m, hm, by decide +kernel,
      fun c hc => (Model.accepts_iff_takes (hwhole c hc)).mp (haccepts c hc), hchecked⟩
  · obtain ⟨n, hn, -, htakes, -⟩ := (recheck_eq_ok_iff_takes hwordy).mp h
    cases hn
    obtain ⟨f, hf, -, hoperand⟩ := htakes _ (.head _)
    cases hf
    cases hoperand with
    | single _ _ h => cases h

end Schema
end RowPolicy
