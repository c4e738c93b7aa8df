import RowPolicy.Proofs.BuilderHistory
import RowPolicy.Proofs.FaultPlaces
import RowPolicy.Proofs.Refusal

/-!
Which models a guard is asked about. Main statement: once a guard is built, its policies are about
registered models only, and so is every decision that a query leads to; so a query on a registered
model is refused for what it says or by a policy, and never because a model is unknown.
-/
namespace RowPolicy

theorem Query.mem_requests_iff {q : Query} {action : Action} {request : String × Action} :
    request ∈ q.requests action ↔ request = (q.model, action) ∨ ∃ i ∈ q.includes,
      (∃ through, i.relation.through = some through ∧ request = (through, .read)) ∨
        request ∈ i.query.requests .read := by
  obtain ⟨model, filter, includes, sort, page⟩ := q
  have hincludes : request ∈ includesRequests includes ↔ ∃ i ∈ includes,
      (∃ through, i.relation.through = some through ∧ request = (through, .read)) ∨
        request ∈ i.query.requests .read := by
    induction includes with
    | nil => simp [includesRequests]
    | cons i includes ih =>
      simp only [includesRequests, List.mem_append, ih, List.mem_map, Option.mem_toList,
        List.exists_mem_cons_iff, or_assoc, eq_comm]
  rw [requests, List.mem_cons, hincludes]

theorem Query.ValidTo.contains_of_mem_requests {s : Schema} {limits : QueryLimits} {depth : Nat}
    {q : Query} (h : q.ValidTo s limits depth) (hsound : ∀ m ∈ s.models, m.SoundIn s)
    {action : Action} {request : String × Action} (hrequest : request ∈ q.requests action) :
    s.contains request.1 = true := by
  induction depth generalizing q action with
  | zero =>
    obtain ⟨⟨m, hm, -⟩, hnone⟩ := h
    rcases mem_requests_iff.mp hrequest with rfl | ⟨i, hi, -⟩
    · exact Option.isSome_iff_exists.mpr ⟨m, hm⟩
    · simp [hnone] at hi
  | succ depth ih =>
    obtain ⟨⟨m, hm, hfits⟩, hincludes⟩ := h
    rcases mem_requests_iff.mp hrequest with rfl | ⟨i, hi, ⟨through, hthrough, rfl⟩ | hdeep⟩
    · exact Option.isSome_iff_exists.mpr ⟨m, hm⟩
    · have hlinked : m.Linked s := (hsound m (List.mem_of_find?_eq_some hm)).linked
      have hrelation : i.relation ∈ m.relations :=
        List.mem_of_find?_eq_some (hfits.includes i hi).1
      obtain ⟨n, j, hn, -⟩ := hlinked.through i.relation hrelation through hthrough
      exact Option.isSome_iff_exists.mpr ⟨n, hn⟩
    · exact ih (hincludes i hi) hdeep

namespace Engine

variable {e : Engine} {actor : Actor}

theorem decide_ne_unknownModel {model : String} (h : e.schema.contains model = true)
    (action : Action) (name : String) :
    (e.decide model action actor).result ≠ .error (.unknownModel name) := by
  intro herror
  change (e.decideAs _ model action actor).result = _ at herror
  cases listed : e.policies.lookup model action with
  | none =>
    rw [result_decideAs_of_no_rules h listed] at herror
    split at herror <;> cases herror
  | some rules =>
    rw [result_decideAs_of_rules h listed] at herror
    revert herror
    cases (takeIn _ _ _ _ _).2 <;> exact nofun

/-- An error that a policy is behind: a missing rule, a denial, or a rule that ran out of time. -/
def PolicyError (request : String × Action) (error : Error) : Prop :=
  error = .rlsNotImplemented request.1 request.2.name ∨
    (∃ rules, error = .policyDenied request.1 request.2.name rules) ∨
      ∃ rule budget, error = .policyTimeout request.1 request.2.name rule budget

theorem policyError_of_refusal {request : String × Action} {error : Error}
    (hmodel : e.schema.contains request.1 = true)
    (h : e.refusal? actor request = some error) : PolicyError request error := by
  unfold refusal? at h
  split at h
  · rename_i cause hdecide
    cases h
    rcases decide_eq_error hdecide with rfl | hrule | htimeout
    · exact absurd hdecide (decide_ne_unknownModel hmodel _ _)
    · exact .inl hrule
    · exact .inr (.inr htimeout)
  · rename_i rules hdecide
    cases h
    exact .inr (.inl ⟨rules, rfl⟩)
  · cases h
  · cases h

theorem exists_policyError_of_compile {action : Action} {q : Query} {error : Error}
    (hmodels : ∀ request ∈ q.requests action, e.schema.contains request.1 = true)
    (h : (e.compile action q actor).result = .error error) :
    ∃ request ∈ q.requests action, PolicyError request error := by
  rw [← Result.error?_eq_some_iff, compile, Run.result_unlessCancelled, error?_compileNode] at h
  obtain ⟨request, hrequest, hrefusal⟩ := List.exists_of_findSome?_eq_some h
  exact ⟨request, hrequest, policyError_of_refusal (hmodels request hrequest) hrefusal⟩

end Engine

namespace Guard

open Builder (run)

/-- What is refused while it is read is refused with the fault of its reader, and no step leads to a
fault of the whole. -/
theorem exists_fault_of_parse {g : Guard} {model : String} {raw : Json} {cause : ParseError}
    (h : g.parse model raw = .error (.queryParse cause)) :
    ∃ f, readQuery g.schema g.settings.limits g.settings.limits.includeDepth.toNat model raw =
      .error f ∧ f.toParseError "" = cause := by
  rw [parse, Schema.parse] at h
  cases hread : readQuery g.schema g.settings.limits g.settings.limits.includeDepth.toNat
      model raw with
  | ok q => simp [hread] at h
  | error f =>
    simp only [hread, Result.mapError_error, Except.error.injEq, Error.queryParse.injEq] at h
    exact ⟨f, rfl, h⟩

theorem parse_eq_error {g : Guard} {model : String} {raw : Json} {error : Error}
    (h : g.parse model raw = .error error) : ∃ cause, error = .queryParse cause := by
  rw [parse] at h
  cases hparse : g.schema.parse g.settings.limits model raw with
  | ok q => simp [hparse] at h
  | error cause =>
    simp only [hparse, Result.mapError_error, Except.error.injEq] at h
    exact ⟨cause, h.symm⟩

variable {settings : Settings} {calls : List Builder.Call} {g : Guard}

theorem unknownModel_iff_of_parse (hbuild : (run (.ofSettings settings) calls).build = .ok g)
    {model : String} {raw : Json} {cause : ParseError}
    (h : g.parse model raw = .error (.queryParse cause)) :
    (cause.reason = .unknownModel ↔ g.schema.contains model = false) ∧
      (cause.reason = .unknownModel → cause.path = "") := by
  obtain ⟨f, hread, rfl⟩ := exists_fault_of_parse h
  cases hmodel : g.schema.contains model with
  | true =>
    have htarget : ∀ m ∈ g.schema.models, ∀ r ∈ m.relations, g.schema.contains r.target = true :=
      fun m hm => (Builder.soundIn_of_build hbuild hm).linked.target
    have hknown : f.OnKnown := Schema.onKnown_readQuery htarget hmodel raw f hread
    have hreason : (f.toParseError "").reason ≠ .unknownModel := hknown.reason_ne
    simp [hreason]
  | false =>
    rw [Schema.readQuery_of_unknown hmodel] at hread
    cases hread
    simp [Fault.toParseError, Defect.reason]

/-- Once a guard is built, every policy is about a registered model, and so is every decision that a
query asks for. A request that fails was refused while its query was read, or by a policy. A query is
refused for an unknown model only as a whole, when it is about a model that is not registered. -/
theorem models_of_build (hbuild : (run (.ofSettings settings) calls).build = .ok g) :
    (∀ model ∈ g.engine.policies.models, g.schema.contains model = true) ∧
    ∀ model action raw actor,
      (∀ q, g.parse model raw = .ok q → ∀ request ∈ q.requests action,
        g.schema.contains request.1 = true ∧
          ∀ name, (g.engine.decide request.1 request.2 actor).result ≠
            .error (.unknownModel name)) ∧
      (∀ error, (g.compile model action raw actor).result = .error error →
        (∃ cause, error = .queryParse cause ∧ g.parse model raw = .error error) ∨
          ∃ q, g.parse model raw = .ok q ∧
            ∃ request ∈ q.requests action, Engine.PolicyError request error) ∧
      ∀ cause, g.parse model raw = .error (.queryParse cause) →
        (cause.reason = .unknownModel ↔ g.schema.contains model = false) ∧
          (cause.reason = .unknownModel → cause.path = "") := by
  have hmodels : ∀ model raw action q, g.parse model raw = .ok q →
      ∀ request ∈ q.requests action, g.schema.contains request.1 = true := by
    intro model raw action q hparse request hrequest
    have hvalid := (Schema.valid_of_parse (Result.mapError_eq_ok_iff.mp hparse)).2
    exact hvalid.contains_of_mem_requests (fun m hm => Builder.soundIn_of_build hbuild hm) hrequest
  refine ⟨?_, fun model action raw actor => ⟨?_, ?_, ?_⟩⟩
  · obtain ⟨-, hpolicies, rfl⟩ := Builder.build_eq_ok_iff.mp hbuild
    exact hpolicies
  · intro q hparse request hrequest
    have hmodel := hmodels model raw action q hparse request hrequest
    exact ⟨hmodel, Engine.decide_ne_unknownModel hmodel request.2⟩
  · intro error herror
    rw [compile] at herror
    cases hparse : g.parse model raw with
    | error e =>
      rw [hparse] at herror
      cases herror
      obtain ⟨cause, rfl⟩ := parse_eq_error hparse
      exact .inl ⟨cause, rfl, rfl⟩
    | ok q =>
      rw [hparse] at herror
      exact .inr ⟨q, rfl, Engine.exists_policyError_of_compile
        (hmodels model raw action q hparse) herror⟩
  · intro cause
    exact unknownModel_iff_of_parse hbuild

def taglessCalls : List Builder.Call :=
  .policies (.require "tag" [.read]) :: Schema.hastyCalls.map .schema ++
    [.sealPolicies, .policies (.require "ghost" [.read])]

def taglessGuard : Guard := ⟨⟨Schema.shop, { required := [("tag", [.read])], isSealed := true }, {}⟩⟩

def orderTags : Json :=
  .obj [("include", .arr [.obj [("query", .obj [("include", .arr [.str "tags"])]),
    ("relation", .str "orders")]])]

/-- Two relations away a rule is found missing; a model that is not there is found missing at
once. -/
theorem taglessGuard_models : (run (.ofSettings {}) taglessCalls).build = .ok taglessGuard ∧
    (∃ q, taglessGuard.parse "customer" orderTags = .ok q ∧
      ("order_tag", Action.read) ∈ q.requests .read ∧
        taglessGuard.schema.contains "order_tag" = true) ∧
    (taglessGuard.compile "customer" .read orderTags .anonymous).result =
      .error (.rlsNotImplemented "tag" "read") ∧
    (∃ request, Engine.PolicyError request (.rlsNotImplemented "tag" "read") ∧
      taglessGuard.schema.contains request.1 = true) ∧
    ∃ cause, taglessGuard.parse "ghost" orderTags = .error (.queryParse cause) ∧
      cause.reason = .unknownModel ∧ cause.path = "" := by
  have hbuild : (run (.ofSettings {}) taglessCalls).build = .ok taglessGuard := by rfl
  obtain ⟨-, hmodels⟩ := models_of_build hbuild
  obtain ⟨hrequests, herrors, -⟩ := hmodels "customer" .read orderTags .anonymous
  obtain ⟨q, hq, hjunction⟩ : ∃ q, taglessGuard.parse "customer" orderTags = .ok q ∧
      ("order_tag", Action.read) ∈ q.requests .read := ⟨_, rfl, by decide⟩
  have hcompile : (taglessGuard.compile "customer" .read orderTags .anonymous).result =
      .error (.rlsNotImplemented "tag" "read") := by rfl
  obtain ⟨cause, hcause⟩ : ∃ cause, taglessGuard.parse "ghost" orderTags =
      .error (.queryParse cause) := ⟨_, rfl⟩
  obtain ⟨-, -, hunknown⟩ := hmodels "ghost" .read orderTags .anonymous
  obtain ⟨hreason, hpath⟩ := hunknown cause hcause
  have hghost : cause.reason = .unknownModel := hreason.mpr (by rfl)
  refine ⟨hbuild, ⟨q, hq, hjunction, (hrequests q hq _ hjunction).1⟩, hcompile, ?_, cause, hcause,
    hghost, hpath hghost⟩
  rcases herrors _ hcompile with ⟨cause, herror, -⟩ | ⟨q, hq, request, hrequest, hpolicy⟩
  · cases herror
  · exact ⟨request, hpolicy, (hrequests q hq request hrequest).1⟩

end Guard
end RowPolicy
