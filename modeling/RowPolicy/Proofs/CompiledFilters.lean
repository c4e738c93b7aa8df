import RowPolicy.Proofs.BuilderHistory
import RowPolicy.Proofs.Composition
import RowPolicy.Proofs.Conformance

/-!
The filters of compiled queries. A filter comes together from what a query says and from what the
rules restrict, and each part is checked before it is merged. Main statement: whatever the rules
return, every filter of a compiled query is in canonical form and suits the model it stands at, and
so do the filters of junctions.
-/
namespace RowPolicy

/-- A filter in canonical form, with conditions that a model admits and that suit the declarations
of its fields. -/
structure Filter.SoundFor (f : Filter) (m : Model) : Prop where
  canonical : f.isCanonical = true
  conditions : ∀ c ∈ f.conditions, m.admits c = true ∧ m.Suits c

theorem Filter.SoundFor.conj {parts : List Filter} {m : Model}
    (h : ∀ p ∈ parts, p.SoundFor m) : (Filter.conj parts).SoundFor m := by
  rw [conj_eq_merge]
  refine ⟨Connective.isCanonical_merge fun p hp => (h p hp).canonical, ?_⟩
  intro c hc
  obtain ⟨p, hp, hc⟩ := Connective.exists_of_mem_conditions_merge hc
  exact (h p hp).conditions c hc

theorem Schema.Settled.soundFor {s : Schema} (h : s.Settled) (hsealed : s.isSealed = true)
    {model : String} {m : Model} (hm : s.model? model = some m) {f : Filter}
    (hcanonical : f.isCanonical = true) (hadmitted : ∀ c ∈ f.conditions, m.admits c = true) :
    f.SoundFor m := by
  refine ⟨hcanonical, ?_⟩
  intro c hc
  exact ⟨hadmitted c hc, h.suits hsealed (List.mem_of_find?_eq_some hm) (hadmitted c hc)⟩

theorem Reply.exists_of_restriction? {check : Filter → Option Filter} {r : Reply} {name : String}
    {checked : Filter} (h : r.restriction? check = some (name, checked)) :
    ∃ f, check f = some checked := by
  unfold restriction? at h
  split at h
  · rename_i f houtcome
    obtain ⟨g, hg, hpair⟩ := Option.map_eq_some_iff.mp h
    cases hpair
    exact ⟨f, hg⟩
  · cases h

namespace Engine

variable {e : Engine} {actor : Actor} {model : String} {action : Action} {m : Model}

theorem contains_of_decide {decision : Decision}
    (h : (e.decide model action actor).result = .ok decision) :
    e.schema.contains model = true := by
  by_contra hmodel
  change (e.decideAs _ model action actor).result = _ at h
  rw [result_decideAs_of_unregistered (Bool.eq_false_iff.mpr hmodel)] at h
  cases h

/-- A restriction that comes out of a decision is a conjunction of filters that were checked. -/
theorem exists_checked_of_decide {f : Filter} {rules : List String}
    (h : (e.decide model action actor).result = .ok ⟨.restrict f, rules⟩) :
    ∃ parts, f = .conj parts ∧ ∀ p ∈ parts, ∃ g, e.check model g = some p := by
  have registered := contains_of_decide h
  change (e.decideAs _ model action actor).result = _ at h
  cases listed : e.policies.lookup model action with
  | none =>
    rw [result_decideAs_of_no_rules registered listed] at h
    split at h <;> cases h
  | some ruleList =>
    have complete := arrivalOrder_arrives e.settings.policy.concurrency.toNat
      (e.replies actor ruleList)
    by_cases hdenial : ∃ r ∈ (e.replies actor ruleList).map (·.2), r.denies (e.check model)
    · obtain ⟨_, _, _, _, hresult⟩ := decideAs_of_denial registered listed complete hdenial
      rw [hresult] at h
      cases h
    by_cases htimeout : ∃ r ∈ (e.replies actor ruleList).map (·.2), r.timedOut
    · obtain ⟨_, _, _, _, hresult⟩ :=
        decideAs_of_timeout registered listed complete hdenial htimeout
      rw [hresult] at h
      cases h
    rw [decideAs_of_restrictions registered listed complete hdenial htimeout] at h
    split at h
    · cases h
    · cases h
      refine ⟨_, rfl, ?_⟩
      intro p hp
      obtain ⟨⟨name, q⟩, hrestriction, rfl⟩ := List.mem_map.mp hp
      obtain ⟨r, -, hr⟩ := List.mem_filterMap.mp hrestriction
      exact Reply.exists_of_restriction? hr

section Settled

variable (hsettled : e.schema.Settled) (hsealed : e.schema.isSealed = true)
include hsettled hsealed

theorem soundFor_of_check (hm : e.schema.model? model = some m) {f checked : Filter}
    (h : e.check model f = some checked) : checked.SoundFor m := by
  have hread : e.schema.checkFilter e.settings.limits.filterDepth.toNat model f = .ok checked := by
    revert h
    rw [check]
    cases e.schema.checkFilter e.settings.limits.filterDepth.toNat model f with
    | ok g => exact fun h => congrArg Except.ok (Option.some.inj h)
    | error fault => exact nofun
  rw [Schema.checkFilter, Schema.readFilter] at hread
  obtain ⟨n, hn, hread⟩ := Result.bind_eq_ok_iff.mp hread
  have hmodel : n = m := Option.some.inj ((Schema.readModel_eq_ok_iff.mp hn).symm.trans hm)
  subst hmodel
  obtain ⟨hcanonical, hadmitted, -⟩ := valid_of_readFilter hread
  exact hsettled.soundFor hsealed hm hcanonical hadmitted

theorem soundFor_of_demands {demand : Option Filter} (h : e.Demands actor model action demand) :
    ∃ m ∈ e.schema.model? model, ∀ s ∈ demand, s.SoundFor m := by
  cases demand with
  | none =>
    obtain ⟨rules, hdecide⟩ := h
    obtain ⟨m, hm⟩ := Option.isSome_iff_exists.mp (contains_of_decide hdecide)
    exact ⟨m, hm, nofun⟩
  | some s =>
    obtain ⟨rules, hdecide⟩ := h
    obtain ⟨m, hm⟩ := Option.isSome_iff_exists.mp (contains_of_decide hdecide)
    obtain ⟨parts, rfl, hparts⟩ := exists_checked_of_decide hdecide
    refine ⟨m, hm, ?_⟩
    intro f hf
    cases hf
    apply Filter.SoundFor.conj
    intro p hp
    obtain ⟨g, hg⟩ := hparts p hp
    exact soundFor_of_check hsettled hsealed hm hg

theorem Enforces.soundFor {q : Query} {c : CompiledQuery} (h : e.Enforces actor action q c)
    (hm : e.schema.model? q.model = some m) (hq : q.filter.SoundFor m) : c.filter.SoundFor m := by
  obtain ⟨demand, hdemand, hfilter, -⟩ := h.filter
  obtain ⟨n, hn, hsound⟩ := soundFor_of_demands hsettled hsealed hdemand
  have hmodel : n = m := Option.some.inj (hn.symm.trans hm)
  subst hmodel
  rw [hfilter]
  cases demand with
  | none => exact hq
  | some s =>
    apply Filter.SoundFor.conj
    intro p hp
    rcases List.mem_pair.mp hp with rfl | rfl
    · exact hq
    · exact hsound _ rfl

theorem Enforces.soundFor_junction {q : Query} {c : CompiledQuery}
    (h : e.Enforces actor action q c) {k : CompiledInclude CompiledQuery} (hk : k ∈ c.includes)
    {j : JunctionFilter} (hj : k.junction = some j) :
    ∃ m ∈ e.schema.model? j.model, j.filter.SoundFor m := by
  obtain ⟨place, hplace⟩ := List.mem_iff_getElem?.mp hk
  have hrel := rel_getElem? h.includes place
  rw [hplace] at hrel
  generalize q.includes[place]? = i at hrel
  cases hrel with
  | some hfollows =>
    have hjunction := hfollows.junction
    split at hjunction
    · rw [hj] at hjunction
      cases hjunction
    · obtain ⟨demand, hdemand, hj'⟩ := hjunction
      rw [hj] at hj'
      cases hj'
      obtain ⟨m, hm, hsound⟩ := soundFor_of_demands hsettled hsealed hdemand
      refine ⟨m, hm, ?_⟩
      cases demand with
      | none =>
        show (Filter.conj []).SoundFor m
        exact Filter.SoundFor.conj nofun
      | some s => exact hsound s rfl

end Settled

end Engine

namespace Guard

open Builder (run)

theorem exists_of_compile {g : Guard} {model : String} {action : Action} {raw : Json}
    {actor : Actor} {c : CompiledQuery} (h : (g.compile model action raw actor).result = .ok c) :
    ∃ q, g.parse model raw = .ok q ∧ (g.engine.compileNode actor action q).result = .ok c := by
  rw [compile] at h
  cases hparse : g.parse model raw with
  | error error =>
    rw [hparse] at h
    cases h
  | ok q =>
    rw [hparse] at h
    exact ⟨q, rfl, h⟩

/-- Whatever its rules return, every query that a guard compiles has a sound filter at every
position, and at every junction. -/
theorem filters_of_build {settings : Settings} {calls : List Builder.Call} {g : Guard}
    (hbuild : (run (.ofSettings settings) calls).build = .ok g) {model : String} {action : Action}
    {raw : Json} {actor : Actor} {c : CompiledQuery}
    (hcompile : (g.compile model action raw actor).result = .ok c) :
    ∀ path k, c.at? path = some k →
      (∃ m ∈ g.schema.model? k.model, k.filter.SoundFor m) ∧
        ∀ i ∈ k.includes, ∀ j ∈ i.junction, ∃ m ∈ g.schema.model? j.model, j.filter.SoundFor m := by
  have hsettled : g.engine.schema.Settled := Builder.settled_of_build hbuild
  have hsealed : g.engine.schema.isSealed = true := (Builder.schema_of_build hbuild).2
  obtain ⟨q, hparse, hnode⟩ := exists_of_compile hcompile
  obtain ⟨-, hvalid⟩ := Schema.valid_of_parse (Result.mapError_eq_ok_iff.mp hparse)
  intro path k hk
  have hrel := Engine.enforces_at? path hnode
  rw [hk] at hrel
  cases hn : q.at? path with
  | none =>
    rw [hn] at hrel
    cases hrel
  | some n =>
    rw [hn] at hrel
    cases hrel with
    | some henforces =>
      obtain ⟨m, hm, hfits⟩ := hvalid.fitsIn_of_at? hn
      have hown : n.filter.SoundFor m :=
        hsettled.soundFor hsealed hm hfits.filter.canonical hfits.filter.admitted
      refine ⟨⟨m, ?_, henforces.soundFor hsettled hsealed hm hown⟩, ?_⟩
      · rw [henforces.model]
        exact hm
      · intro i hi j hj
        exact henforces.soundFor_junction hsettled hsealed hi hj

/-- Only cheap orders are read, and only visible tags; the rules say so in a roundabout way. -/
def wordyCalls : List Builder.Call :=
  Schema.shopModels.map (fun d => .schema (.register d)) ++
    [.policies (.register "order" .read <| .ofOutcome "cheap" fun _ =>
        .restrict (.all [.all [], .not (.not (.leaf ⟨"total", .lt, .single (.int 100)⟩))])),
      .policies (.register "order_tag" .read <| .ofOutcome "visible" fun _ =>
        .restrict (.any [.any [], .leaf ⟨"visible", .is, .single (.bool true)⟩]))]

def wordyGuard : Guard :=
  ⟨⟨Schema.shop, (run (.ofSettings {}) wordyCalls).policies.sealUp, {}⟩⟩

/-- The orders of the first customers come with the restriction in its canonical form. -/
theorem wordyGuard_filters : (run (.ofSettings {}) wordyCalls).build = .ok wordyGuard ∧ ∃ c k,
    (wordyGuard.compile "customer" .read Schema.firstCustomers.toRaw .anonymous).result = .ok c ∧
      c.at? [0] = some k ∧
      k.filter = .all [.not (.leaf ⟨"total", .is, .null⟩),
        .leaf ⟨"total", .lt, .single (.float ⟨0x4059000000000000⟩)⟩] ∧
      (∃ m ∈ wordyGuard.schema.model? k.model, k.filter.SoundFor m) ∧
      ∃ i ∈ k.includes, ∃ j ∈ i.junction,
        j.filter = .leaf ⟨"visible", .is, .single (.bool true)⟩ ∧
          ∃ m ∈ wordyGuard.schema.model? j.model, j.filter.SoundFor m := by
  have hbuild : (run (.ofSettings {}) wordyCalls).build = .ok wordyGuard := by rfl
  have hvalid : Schema.firstCustomers.Valid Schema.shop {} := by decide +kernel
  have hparse : wordyGuard.parse "customer" Schema.firstCustomers.toRaw =
      .ok Schema.firstCustomers :=
    Result.mapError_eq_ok_iff.mpr (Schema.parse_toRaw_of_valid hvalid)
  obtain ⟨c, k, i, j, hc, hk, hfilter, hi, hj, hjunction⟩ : ∃ c k i j,
      (wordyGuard.engine.compile .read Schema.firstCustomers .anonymous).result = .ok c ∧
        c.at? [0] = some k ∧
        k.filter = .all [.not (.leaf ⟨"total", .is, .null⟩),
          .leaf ⟨"total", .lt, .single (.float ⟨0x4059000000000000⟩)⟩] ∧
        i ∈ k.includes ∧ i.junction = some j ∧
          j.filter = .leaf ⟨"visible", .is, .single (.bool true)⟩ := by
    refine ⟨_, _, _, _, rfl, rfl, ?_, List.mem_singleton.mpr rfl, rfl, ?_⟩
    · decide +kernel
    · rfl
  have hcompile : (wordyGuard.compile "customer" .read Schema.firstCustomers.toRaw
      .anonymous).result = .ok c := by
    rw [compile, hparse]
    exact hc
  obtain ⟨hnode, hjunctions⟩ := filters_of_build hbuild hcompile [0] k hk
  exact ⟨hbuild, c, k, hcompile, hk, hfilter, hnode, i, hi, j, hj, hjunction,
    hjunctions i hi j hj⟩

end Guard
end RowPolicy
