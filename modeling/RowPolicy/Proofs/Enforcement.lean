import Mathlib.Data.List.Forall2
import RowPolicy.Guard
import RowPolicy.Proofs.RoundTrip
import RowPolicy.Proofs.Valuation

/-!
What a compiled query enforces. Compiling keeps the include tree of the query as it was read, and at
every position of the tree the rows are held to what the decision on that position demands.
-/
namespace RowPolicy

/-- The query at a position: the places of the includes that lead to it. -/
def Query.at? : List Nat → Query → Option Query
  | [], q => some q
  | place :: path, q => q.includes[place]?.bind fun i => i.query.at? path

def CompiledQuery.at? : List Nat → CompiledQuery → Option CompiledQuery
  | [], c => some c
  | place :: path, c => c.includes[place]?.bind fun i => i.query.at? path

theorem Query.ValidTo.fitsIn {s : Schema} {limits : QueryLimits} {depth : Nat} {q : Query}
    (h : q.ValidTo s limits depth) : q.FitsIn s limits := by
  cases depth <;> exact h.1

theorem Query.ValidTo.of_at? {s : Schema} {limits : QueryLimits} {depth : Nat} {path : List Nat}
    {q n : Query} (h : q.ValidTo s limits depth) (hn : q.at? path = some n) :
    path.length ≤ depth ∧ n.ValidTo s limits (depth - path.length) := by
  induction path generalizing depth q with
  | nil =>
    cases hn
    exact ⟨Nat.zero_le depth, h⟩
  | cons place path ih =>
    obtain ⟨i, hi, hn⟩ := Option.bind_eq_some_iff.mp hn
    have hmem : i ∈ q.includes := List.mem_of_getElem? hi
    cases depth with
    | zero => simp [h.2] at hmem
    | succ depth =>
      obtain ⟨hle, hvalid⟩ := ih (h.2 i hmem) hn
      rw [List.length_cons, Nat.succ_sub_succ]
      exact ⟨Nat.succ_le_succ hle, hvalid⟩

theorem Query.ValidTo.fitsIn_of_at? {s : Schema} {limits : QueryLimits} {depth : Nat}
    {path : List Nat} {q n : Query} (h : q.ValidTo s limits depth) (hn : q.at? path = some n) :
    n.FitsIn s limits :=
  (h.of_at? hn).2.fitsIn

namespace Engine

/-- What the decision on a model and an action demands of the rows: nothing, or a restriction. A
denial is no such decision. -/
def Demands (e : Engine) (actor : Actor) (model : String) (action : Action) :
    Option Filter → Prop
  | none => ∃ rules, (e.decide model action actor).result = .ok ⟨.allow, rules⟩
  | some s => ∃ rules, (e.decide model action actor).result = .ok ⟨.restrict s, rules⟩

/-- A compiled include follows the relation of the include, and has a junction exactly when the
relation is routed through a model, with what the decision on reading this demands. -/
structure Follows (e : Engine) (actor : Actor) (i : Include Query)
    (k : CompiledInclude CompiledQuery) : Prop where
  relation : k.relation = i.relation.name
  kind : k.kind = i.relation.kind
  junction : match i.relation.through with
    | none => k.junction = none
    | some through => ∃ demand, e.Demands actor through .read demand ∧
        k.junction = some ⟨through, demand.getD .matchAll⟩

structure Enforces (e : Engine) (actor : Actor) (action : Action) (q : Query)
    (c : CompiledQuery) : Prop where
  model : c.model = q.model
  filter : ∃ demand, e.Demands actor q.model action demand ∧
    (c.filter = match demand with
      | none => q.filter
      | some s => .conj [q.filter, s]) ∧
    ∀ v, c.filter.eval v = .yes ↔ q.filter.eval v = .yes ∧ ∀ s ∈ demand, s.eval v = .yes
  includes : List.Forall₂ (e.Follows actor) q.includes c.includes
  sort : c.sort = q.sort
  page : c.page = q.page
  action : c.action = action
  actor : c.actor = actor.identity

variable {e : Engine} {actor : Actor} {action : Action}

theorem demands_of_restriction {model : String} {demand : Option Filter}
    (h : (e.restriction model action actor).result = .ok demand) :
    e.Demands actor model action demand := by
  rw [restriction, Run.result_bind] at h
  obtain ⟨⟨outcome, rules⟩, hdecide, h⟩ := Result.bind_eq_ok_iff.mp h
  cases outcome with
  | allow => cases h; exact ⟨rules, hdecide⟩
  | restrict s => cases h; exact ⟨rules, hdecide⟩
  | deny => cases h

theorem eval_addTo {f : Filter} {demand : Option Filter} {v : Condition → Truth} :
    (addTo f demand).eval v = .yes ↔ f.eval v = .yes ∧ ∀ s ∈ demand, s.eval v = .yes := by
  cases demand with
  | none => simp [addTo]
  | some s => simp [addTo, Filter.eval_and, Truth.and_eq_yes_iff]

theorem junction_of_compileJunction {r : Relation} {junction : Option JunctionFilter}
    (h : (e.compileJunction actor r).result = .ok junction) :
    match r.through with
    | none => junction = none
    | some through => ∃ demand, e.Demands actor through .read demand ∧
        junction = some ⟨through, demand.getD .matchAll⟩ := by
  cases hthrough : r.through with
  | none =>
    simp only [compileJunction, hthrough] at h
    cases h
    rfl
  | some through =>
    simp only [compileJunction, hthrough, Run.result_bind] at h
    obtain ⟨demand, hdemand, h⟩ := Result.bind_eq_ok_iff.mp h
    cases h
    exact ⟨demand, demands_of_restriction hdemand, rfl⟩

theorem forall₂_of_compileIncludes {includes : List (Include Query)}
    {compiled : List (CompiledInclude CompiledQuery)}
    (h : (e.compileIncludes actor includes).result = .ok compiled) :
    List.Forall₂ (fun i k => e.Follows actor i k ∧
      (e.compileNode actor .read i.query).result = .ok k.query) includes compiled := by
  induction includes generalizing compiled with
  | nil =>
    cases h
    exact .nil
  | cons i includes ih =>
    obtain ⟨relation, query⟩ := i
    simp only [compileIncludes, Run.result_bind] at h
    obtain ⟨junction, hjunction, h⟩ := Result.bind_eq_ok_iff.mp h
    obtain ⟨one, hone, h⟩ := Result.bind_eq_ok_iff.mp h
    obtain ⟨rest, hrest, h⟩ := Result.bind_eq_ok_iff.mp h
    cases h
    exact .cons ⟨⟨rfl, rfl, junction_of_compileJunction hjunction⟩, hone⟩ (ih hrest)

theorem enforces_of_compileNode {q : Query} {c : CompiledQuery}
    (h : (e.compileNode actor action q).result = .ok c) :
    e.Enforces actor action q c ∧ (e.compileIncludes actor q.includes).result = .ok c.includes := by
  obtain ⟨model, filter, includes, sort, page⟩ := q
  simp only [compileNode, Run.result_bind] at h
  obtain ⟨demand, hdemand, h⟩ := Result.bind_eq_ok_iff.mp h
  obtain ⟨compiled, hcompiled, h⟩ := Result.bind_eq_ok_iff.mp h
  cases h
  refine ⟨⟨rfl, ⟨demand, demands_of_restriction hdemand, ?_, fun v => eval_addTo⟩,
    (forall₂_of_compileIncludes hcompiled).imp fun i k h => h.1, rfl, rfl, rfl, rfl⟩, hcompiled⟩
  cases demand <;> rfl

theorem rel_getElem? {α β : Type} {R : α → β → Prop} {xs : List α} {ys : List β}
    (h : List.Forall₂ R xs ys) (place : Nat) : Option.Rel R xs[place]? ys[place]? := by
  induction h generalizing place with
  | nil => exact .none
  | cons hxy _ ih =>
    cases place with
    | zero => exact .some hxy
    | succ place => exact ih place

theorem enforces_at? {q : Query} {c : CompiledQuery} (path : List Nat)
    (h : (e.compileNode actor action q).result = .ok c) :
    Option.Rel (e.Enforces actor (if path = [] then action else .read))
      (q.at? path) (c.at? path) := by
  induction path generalizing action q c with
  | nil => exact .some (enforces_of_compileNode h).1
  | cons place path ih =>
    have hincludes := forall₂_of_compileIncludes (enforces_of_compileNode h).2
    have hplace := rel_getElem? hincludes place
    simp only [Query.at?, CompiledQuery.at?]
    generalize q.includes[place]? = i at hplace ⊢
    generalize c.includes[place]? = k at hplace ⊢
    cases hplace with
    | none => exact .none
    | some hik =>
      -- Below the root every decision is on a read, wherever the rest of the path leads.
      have hread := ih hik.2
      rwa [ite_self] at hread

end Engine

namespace Guard

/-- A guard cannot be got around. Whatever it compiles was read from the raw query, keeps its
include tree, and at every position of the tree enforces the decision on this position. -/
theorem compile_enforces {g : Guard} {model : String} {action : Action} {raw : Json} {actor : Actor}
    {c : CompiledQuery} (h : (g.compile model action raw actor).result = .ok c) :
    ∃ q, g.parse model raw = .ok q ∧ q.model = model ∧ ∀ path : List Nat,
      Option.Rel (fun n k => g.engine.Enforces actor (if path = [] then action else .read) n k ∧
          ∃ m, g.schema.model? n.model = some m ∧ ∀ i ∈ n.includes, m.includes i)
        (q.at? path) (c.at? path) := by
  unfold compile at h
  split at h
  · cases h
  · rename_i q hparse
    obtain ⟨hmodel, hvalid⟩ := Schema.valid_of_parse (Result.mapError_eq_ok_iff.mp hparse)
    refine ⟨q, hparse, hmodel, fun path => ?_⟩
    have henforces := Engine.enforces_at? path h
    have hfits : ∀ n, q.at? path = some n → n.FitsIn g.schema g.settings.limits := fun n hn =>
      hvalid.fitsIn_of_at? hn
    generalize q.at? path = n at henforces hfits ⊢
    generalize c.at? path = k at henforces ⊢
    cases henforces with
    | none => exact .none
    | some hnk =>
      obtain ⟨m, hm, hfits⟩ := hfits _ rfl
      exact .some ⟨hnk, m, hm, hfits.includes⟩

def shopSetup : Setup Unit := do
  Schema.shopModels.forM Builder.registerModel
  Builder.registerPolicy "order" .read <| .ofOutcome "cheap" fun _ =>
    .restrict (.leaf ⟨"total", .lt, .single (.float ⟨0x4059000000000000⟩)⟩)
  Builder.registerPolicy "order_tag" .read <| .ofOutcome "visible" fun _ =>
    .restrict (.leaf ⟨"visible", .is, .single (.bool true)⟩)

def shopBuilder : Builder := (shopSetup.run.run (.ofSettings {})).2

def shopGuard : Guard := ⟨⟨Schema.shop, shopBuilder.policies.sealUp, {}⟩⟩

/-- The guard lets customers be read with their cheap orders. -/
theorem shopGuard_compile : shopBuilder.build = .ok shopGuard ∧ ∃ c,
    (shopGuard.compile "customer" .read Schema.firstCustomers.toRaw .anonymous).result = .ok c ∧
      ∃ q, shopGuard.parse "customer" Schema.firstCustomers.toRaw = .ok q ∧
        ∃ n k, q.at? [0] = some n ∧ c.at? [0] = some k ∧
          shopGuard.engine.Enforces .anonymous .read n k := by
  have hvalid : Schema.firstCustomers.Valid Schema.shop {} := by decide +kernel
  have hparse : shopGuard.parse "customer" Schema.firstCustomers.toRaw =
      .ok Schema.firstCustomers :=
    Result.mapError_eq_ok_iff.mpr (Schema.parse_toRaw_of_valid hvalid)
  obtain ⟨c, hc, hsome⟩ : ∃ c,
      (shopGuard.engine.compile .read Schema.firstCustomers .anonymous).result = .ok c ∧
        (c.at? [0]).isSome = true := by
    refine ⟨_, rfl, ?_⟩
    rfl
  have hcompile : (shopGuard.compile "customer" .read Schema.firstCustomers.toRaw
      .anonymous).result = .ok c := by
    rw [compile, hparse]
    exact hc
  obtain ⟨q, hq, -, hpath⟩ := compile_enforces hcompile
  refine ⟨rfl, c, hcompile, q, hq, ?_⟩
  have horders := hpath [0]
  generalize q.at? [0] = n at horders ⊢
  generalize c.at? [0] = k at horders hsome ⊢
  cases horders with
  | none => cases hsome
  | some h => exact ⟨_, _, rfl, rfl, h.1⟩

end Guard

end RowPolicy
