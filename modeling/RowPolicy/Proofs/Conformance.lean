import RowPolicy.Proofs.Enforcement
import RowPolicy.Proofs.SchemaHistory

/-!
What a query that was read over a sealed schema is made of. At every node of its include tree it
asks for nothing but what the models declare, and it keeps the limits.
-/
namespace RowPolicy

/-- A condition on a declared field: the type of the field has the operator, a list of the field's
own names it, and the operand is of the shape of the operator and of the type of the field. -/
def Model.Suits (m : Model) (c : Condition) : Prop :=
  ∃ f, m.field? c.field = some f ∧ c.operator ∈ f.decl.type.operators ∧
    (∀ narrowed, f.decl.operators = some narrowed → c.operator ∈ narrowed) ∧
      f.decl.admits c.operator c.operand = true

namespace Schema

variable {s : Schema} {m : Model}

theorem Settled.permits (h : s.Settled) (hsealed : s.isSealed = true) (hm : m ∈ s.models)
    {f : Field} (hf : f ∈ m.fields) {op : Operator} (hop : f.permitted.contains op = true) :
    op ∈ f.decl.type.operators ∧ ∀ narrowed, f.decl.operators = some narrowed → op ∈ narrowed := by
  obtain ⟨hnarrows, hpermitted⟩ := h hsealed m hm f hf
  have hown : op ∈ f.decl.ownOperators := by
    rw [hpermitted, OperatorSet.contains_ofList] at hop
    simpa using hop
  refine ⟨hnarrows op hown, ?_⟩
  intro narrowed hnarrowed
  simpa [FieldDecl.ownOperators, hnarrowed] using hown

theorem Settled.suits (h : s.Settled) (hsealed : s.isSealed = true) (hm : m ∈ s.models)
    {c : Condition} (hc : m.admits c = true) : m.Suits c := by
  obtain ⟨f, hf, hpermitted, hoperand⟩ := Model.admits_iff.mp hc
  have hmem : f ∈ m.fields := List.mem_of_find?_eq_some hf
  obtain ⟨htype, hnarrowed⟩ := h.permits hsealed hm hmem hpermitted
  exact ⟨f, hf, htype, hnarrowed, hoperand⟩

/-- Whatever calls a schema has come from, once it is sealed a query that is read over it fits its
model at every node, with conditions on declared fields only, and nests no deeper than it may. -/
theorem conforms_of_parse {calls : List Call} {limits : QueryLimits} {model : String} {raw : Json}
    {q : Query} (hsealed : (run {} calls).isSealed = true)
    (h : (run {} calls).parse limits model raw = .ok q) :
    q.model = model ∧ ∀ path n, q.at? path = some n → path.length ≤ limits.includeDepth.toNat ∧
      ∃ m, (run {} calls).model? n.model = some m ∧ n.Fits m limits ∧
        ∀ c ∈ n.filter.conditions, m.Suits c := by
  obtain ⟨hmodel, hvalid⟩ := valid_of_parse h
  refine ⟨hmodel, ?_⟩
  intro path n hn
  obtain ⟨hlength, hnode⟩ := hvalid.of_at? hn
  obtain ⟨m, hm, hfits⟩ := hnode.fitsIn
  have hsettled : (run {} calls).Settled := settled_run (settled_of_open rfl) calls
  have hmem : m ∈ (run {} calls).models := List.mem_of_find?_eq_some hm
  refine ⟨hlength, m, hm, hfits, ?_⟩
  intro c hc
  exact hsettled.suits hsealed hmem (hfits.filter.admitted c hc)

def shopCalls : List Call := shopModels.map .register ++ [.sealUp]

/-- The tags of the orders of the first customers are two relations away. -/
theorem shopCalls_conforms : run {} shopCalls = shop ∧ (run {} shopCalls).isSealed = true ∧
    (run {} shopCalls).parse {} "customer" firstCustomers.toRaw = .ok firstCustomers ∧
    (∃ m, shop.model? "customer" = some m ∧ ∀ c ∈ firstCustomers.filter.conditions, m.Suits c) ∧
    ∃ n m, firstCustomers.at? [0, 0] = some n ∧ shop.model? "tag" = some m ∧ n.Fits m {} := by
  have hrun : run {} shopCalls = shop := rfl
  have hsealed : (run {} shopCalls).isSealed = true := by rw [hrun]; rfl
  have hvalid : firstCustomers.Valid shop {} := by decide +kernel
  have hparse : (run {} shopCalls).parse {} "customer" firstCustomers.toRaw =
      .ok firstCustomers := by
    rw [hrun]
    exact parse_toRaw_of_valid hvalid
  obtain ⟨-, hnodes⟩ := conforms_of_parse hsealed hparse
  obtain ⟨-, m, hm, -, hsuits⟩ := hnodes [] firstCustomers rfl
  obtain ⟨-, k, hk, htags, -⟩ := hnodes [0, 0] (.everything "tag") rfl
  rw [hrun] at hm hk
  exact ⟨hrun, hsealed, hparse, ⟨m, hm, hsuits⟩, _, k, rfl, hk, htags⟩

end Schema
end RowPolicy
