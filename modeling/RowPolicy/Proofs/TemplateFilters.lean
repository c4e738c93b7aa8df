import RowPolicy.Proofs.FilterGrammar
import RowPolicy.Proofs.RoundTrip

/-!
Filters of templates beside filters of queries. The filter of a template is put into shape without a
model, made canonical, written out and read again; the filter of a query is read in one go. Main
statements: what the grammar of queries accepts comes to the same filter on both ways, and what
passes as the filter of a template is in this grammar exactly when it is plain and a model
accepts all that it writes, also what the canonical form drops.
-/
namespace RowPolicy

namespace Filter

mutual
theorem ofRaw?_eq_map_canonicalize : (raw : Json) →
    ofRaw? raw = (written? raw).map canonicalize
  | .obj members => by
    rw [ofRaw?, written?, partsOf?_eq_map, partsOf?_eq_map, partOf?_eq_map]
    cases writtenParts? "and" members with
    | some parts => cases parts <;> rfl
    | none =>
      cases writtenParts? "or" members with
      | some parts => cases parts <;> rfl
      | none =>
        cases writtenPart? "not" members with
        | some part => cases part <;> rfl
        | none => simp [Function.comp_def, canonicalize]
  | .arr _ => rfl
  | .null => rfl
  | .bool _ => rfl
  | .num _ => rfl
  | .str _ => rfl

theorem ofRawParts?_eq_map : (items : List Json) →
    ofRawParts? items = (writtenItems? items).map canonicalizeParts
  | [] => rfl
  | item :: items => by
    rw [ofRawParts?, writtenItems?, ofRaw?_eq_map_canonicalize item, ofRawParts?_eq_map items]
    cases written? item <;> cases writtenItems? items <;> rfl

theorem partsOf?_eq_map (key : String) : (members : List (String × Json)) →
    partsOf? key members = (writtenParts? key members).map (·.map canonicalizeParts)
  | [] => rfl
  | (k, value) :: members => by
    cases value with
    | arr items =>
      rw [partsOf?, writtenParts?, ofRawParts?_eq_map items, partsOf?_eq_map key members]
      split <;> rfl
    | _ =>
      rw [partsOf?, writtenParts?, partsOf?_eq_map key members]
      · split <;> rfl
      all_goals simp

theorem partOf?_eq_map (key : String) : (members : List (String × Json)) →
    partOf? key members = (writtenPart? key members).map (·.map canonicalize)
  | [] => rfl
  | (k, value) :: members => by
    rw [partOf?, writtenPart?, ofRaw?_eq_map_canonicalize value, partOf?_eq_map key members]
    split <;> rfl
end

theorem isFinite_of_ofRaw? {raw : Json} {n : Filter} (h : ofRaw? raw = some n) :
    ∀ c ∈ n.conditions, c.operand.isFinite = true := by
  rw [ofRaw?_eq_map_canonicalize] at h
  obtain ⟨t, ht, rfl⟩ := Option.map_eq_some_iff.mp h
  have hfinite := forall_conditions_of_written?
    (fun _ _ hc => Condition.isFinite_of_ofRaw? hc) raw
  exact fun c hc => hfinite.1 t ht c (mem_conditions_of_canonicalize hc)

end Filter

namespace Schema

variable {s : Schema} {limits : QueryLimits} {model root : String} {raw : Json} {f n : Filter}

theorem parseFilter_eq_ok_iff : s.parseFilter limits model raw root = .ok f ↔
    ∃ m, s.model? model = some m ∧ raw.isPlain = true ∧
      ∃ t, Filter.written? raw = some t ∧ t.Acceptable m limits.filterDepth.toNat ∧
        m.normalize t = f := by
  rw [parseFilter, Result.mapError_eq_ok_iff, Schema.readFilter, Result.bind_eq_ok_iff]
  simp only [readModel_eq_ok_iff, readFilter_eq_ok_iff]

theorem recheck_eq_ok_iff (h : ∀ c ∈ n.conditions, c.operand.isFinite = true) :
    s.recheck limits model n root = .ok f ↔
      ∃ m, s.model? model = some m ∧ n.Acceptable m limits.filterDepth.toNat ∧
        m.normalize n = f := by
  rw [recheck, Result.mapError_eq_ok_iff, checkFilter, Schema.readFilter, Result.bind_eq_ok_iff]
  simp only [readModel_eq_ok_iff, readFilter_toRaw_eq_ok_iff h]

/-- The filter of a template is checked in its canonical form, and the check types what is left. -/
theorem recheck_canonicalize_iff {t : Filter} (h : Filter.written? raw = some t) :
    s.recheck limits model t.canonicalize root = .ok f ↔
      ∃ m, s.model? model = some m ∧ t.canonicalize.Acceptable m limits.filterDepth.toNat ∧
        m.normalize t = f := by
  have hshape : Filter.ofRaw? raw = some t.canonicalize := by
    rw [Filter.ofRaw?_eq_map_canonicalize, h, Option.map_some]
  simp only [recheck_eq_ok_iff (Filter.isFinite_of_ofRaw? hshape), Filter.normalize_canonicalize]

/-- A filter that is read in one go comes to the same when it is first put into shape without the
model and then checked, whatever its place is called. -/
theorem recheck_of_parseFilter (h : s.parseFilter limits model raw root = .ok f) :
    ∃ n, Filter.ofRaw? raw = some n ∧ ∀ root', s.recheck limits model n root' = .ok f := by
  obtain ⟨m, hm, -, t, ht, hacceptable, hf⟩ := parseFilter_eq_ok_iff.mp h
  refine ⟨t.canonicalize, ?_, fun root' => ?_⟩
  · rw [Filter.ofRaw?_eq_map_canonicalize, ht, Option.map_some]
  · exact (recheck_canonicalize_iff ht).mpr ⟨m, hm, hacceptable.canonicalize, hf⟩

def prices : Json := .arr [.num (.int 1 (by decide)), .num (.int 0xffffffffffffffff (by decide)),
  .num (.float (.ofRatio false 5 2) (by decide +kernel))]

def pricedOrders : Json := .obj [("and", .arr [.obj [("and", .arr [])], .obj [("not", .obj [("not",
  .obj [("field", .str "total"), ("operator", .str "in"), ("value", prices)])])]])]

def pricedOrdersFilter : Filter := .leaf ⟨"total", .oneOf, .list
  [.float (.ofNat 1), .float (.ofNat 0xffffffffffffffff), .float (.ofRatio false 5 2)]⟩

theorem shop_recheck_pricedOrders :
    shop.parseFilter {} "order" pricedOrders "filters" = .ok pricedOrdersFilter ∧
    ∃ n, Filter.ofRaw? pricedOrders = some n ∧
      ∀ root', shop.recheck {} "order" n root' = .ok pricedOrdersFilter := by
  have hread : shop.parseFilter {} "order" pricedOrders "filters" = .ok pricedOrdersFilter := rfl
  exact ⟨hread, recheck_of_parseFilter hread⟩

/-- What a checked template filter leaves open: it is read in one go, to the same filter, exactly
when it has no keys beside those of a filter and all that it writes is accepted, also what the
canonical form drops. -/
theorem parseFilter_iff_of_recheck (hshape : Filter.ofRaw? raw = some n)
    (hcheck : s.recheck limits model n root = .ok f) :
    (s.parseFilter limits model raw root = .ok f ↔ raw.isPlain = true ∧
        ∃ m t, s.model? model = some m ∧ Filter.written? raw = some t ∧
          t.Acceptable m limits.filterDepth.toNat) ∧
      ∀ g, s.parseFilter limits model raw root = .ok g → g = f := by
  rw [Filter.ofRaw?_eq_map_canonicalize] at hshape
  obtain ⟨t, ht, rfl⟩ := Option.map_eq_some_iff.mp hshape
  obtain ⟨m, hm, -, rfl⟩ := (recheck_canonicalize_iff ht).mp hcheck
  simp only [parseFilter_eq_ok_iff, hm, ht, Option.some.injEq, exists_eq_left', exists_and_left]
  refine ⟨⟨?_, ?_⟩, ?_⟩
  · rintro ⟨hplain, hacceptable, -⟩
    exact ⟨hplain, hacceptable⟩
  · rintro ⟨hplain, hacceptable⟩
    exact ⟨hplain, hacceptable, trivial⟩
  · rintro g ⟨-, -, hg⟩
    exact hg.symm

def everyoneOrGhosts : Json := .obj [("or", .arr [.obj [("and", .arr [])],
  .obj [("field", .str "ghost"), ("op", .str "eq"), ("value", .bool true)]])]

/-- The constant hides the condition from the check of a template filter, not from reading. -/
theorem shop_recheck_everyoneOrGhosts : Filter.ofRaw? everyoneOrGhosts = some .matchAll ∧
    shop.recheck {} "customer" .matchAll "policy" = .ok .matchAll ∧
    ¬∃ g, shop.parseFilter {} "customer" everyoneOrGhosts "policy" = .ok g := by
  have hshape : Filter.ofRaw? everyoneOrGhosts = some .matchAll := rfl
  have hcheck : shop.recheck {} "customer" .matchAll "policy" = .ok .matchAll := rfl
  refine ⟨hshape, hcheck, ?_⟩
  rintro ⟨g, hg⟩
  obtain ⟨hiff, heq⟩ := parseFilter_iff_of_recheck hshape hcheck
  obtain ⟨-, m, t, hm, ht, hacceptable⟩ := hiff.mp (heq g hg ▸ hg)
  cases hm
  cases ht
  have hghost := hacceptable.accepted _ (.head _)
  exact absurd hghost (by decide +kernel)

def crowdedConjunction : Json := .obj [("and", .arr []), ("field", .str "name"),
  ("op", .str "eq"), ("value", .str "A")]

/-- As the filter of a template it restricts nothing; in a query it is refused. -/
theorem shop_recheck_crowdedConjunction : Filter.ofRaw? crowdedConjunction = some .matchAll ∧
    shop.recheck {} "customer" .matchAll "policy" = .ok .matchAll ∧
    shop.parseFilter {} "customer" crowdedConjunction "policy" =
      .error ⟨"policy", .malformed, "'and' must be the only key"⟩ :=
  ⟨rfl, rfl, rfl⟩

end Schema
end RowPolicy
