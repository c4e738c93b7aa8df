import RowPolicy.Proofs.BuilderHistory
import RowPolicy.Proofs.Composition
import RowPolicy.Proofs.Enforcement
import RowPolicy.Template

/-!
What a compiled query owes to its actor. A template looks at an actor through its roles, through
whether it is authenticated, and through the attributes that its filter names. Main statement: where
all rules are templates, two actors that look the same to them fail with the same error or get
queries that are the same but for the identity on record.
-/
namespace RowPolicy

def placeholder? (text : String) : Option String :=
  match text.toList with
  | '$' :: '$' :: _ => none
  | '$' :: name => some (String.ofList name)
  | _ => none

namespace Json

mutual
/-- The names of the attributes that the texts in a value stand for, at every depth. -/
def placeholders : Json → List String
  | str text => (placeholder? text).toList
  | arr items => itemPlaceholders items
  | obj members => memberPlaceholders members
  | null => []
  | bool _ => []
  | num _ => []

def itemPlaceholders : List Json → List String
  | [] => []
  | item :: items => item.placeholders ++ itemPlaceholders items

def memberPlaceholders : List (String × Json) → List String
  | [] => []
  | (_, value) :: members => value.placeholders ++ memberPlaceholders members
end

end Json

variable {a b : Actor}

namespace Actor

theorem substituteText_congr {text : String}
    (h : ∀ name ∈ placeholder? text, a.resolve name = b.resolve name) :
    a.substituteText text = b.substituteText text := by
  unfold placeholder? at h
  unfold substituteText
  split
  · rfl
  · rename_i name hescape htext
    apply h
    rw [htext]
    split
    · rename_i rest hrest
      exact absurd (List.cons.inj hrest).2 (hescape rest)
    · rename_i hrest
      rw [(List.cons.inj hrest).2]
      rfl
    · rename_i hnone
      exact absurd rfl (hnone name)
  · rfl

mutual
theorem substitute_congr : (raw : Json) →
    (∀ name ∈ raw.placeholders, a.resolve name = b.resolve name) →
      a.substitute raw = b.substitute raw
  | .str text, h => substituteText_congr fun name hname => h name (Option.mem_toList.mpr hname)
  | .arr items, h => by
    have hitems := substituteItems_congr items h
    rw [substitute, substitute, hitems]
  | .obj members, h => by
    have hmembers := substituteMembers_congr members h
    rw [substitute, substitute, hmembers]
  | .null, _ => rfl
  | .bool _, _ => rfl
  | .num _, _ => rfl

theorem substituteItems_congr : (items : List Json) →
    (∀ name ∈ Json.itemPlaceholders items, a.resolve name = b.resolve name) →
      a.substituteItems items = b.substituteItems items
  | [], _ => rfl
  | item :: items, h => by
    have hitem := substitute_congr item fun name hname => h name (List.mem_append_left _ hname)
    have hitems := substituteItems_congr items fun name hname =>
      h name (List.mem_append_right _ hname)
    rw [substituteItems, substituteItems, hitem, hitems]

theorem substituteMembers_congr : (members : List (String × Json)) →
    (∀ name ∈ Json.memberPlaceholders members, a.resolve name = b.resolve name) →
      a.substituteMembers members = b.substituteMembers members
  | [], _ => rfl
  | (key, value) :: members, h => by
    have hvalue := substitute_congr value fun name hname => h name (List.mem_append_left _ hname)
    have hmembers := substituteMembers_congr members fun name hname =>
      h name (List.mem_append_right _ hname)
    rw [substituteMembers, substituteMembers, hvalue, hmembers]
end

end Actor

namespace Template

variable {t : Template}

structure SeesAlike (t : Template) (a b : Actor) : Prop where
  authenticated : a.authenticated = b.authenticated
  roles : ∀ role ∈ t.roles, a.hasRole role = b.hasRole role
  attributes : ∀ raw ∈ t.filter, ∀ name ∈ raw.placeholders, a.resolve name = b.resolve name

theorem SeesAlike.appliesTo (h : t.SeesAlike a b) : t.appliesTo a = t.appliesTo b := by
  have hroles : t.roles.map a.hasRole = t.roles.map b.hasRole := List.map_congr_left h.roles
  have hany (x : Actor) : t.roles.any x.hasRole = (t.roles.map x.hasRole).any id := by
    rw [List.any_map, Function.id_comp]
  rw [Template.appliesTo, Template.appliesTo, hany, hany, hroles]

theorem SeesAlike.restriction? (h : t.SeesAlike a b) : t.restriction? a = t.restriction? b := by
  cases hfilter : t.filter with
  | none => rw [Template.restriction?, Template.restriction?, hfilter]; rfl
  | some raw =>
    have hbound : a.substitute raw = b.substitute raw :=
      Actor.substitute_congr raw (h.attributes raw hfilter)
    show (t.filter.bind fun raw => _) = t.filter.bind fun raw => _
    rw [hfilter, Option.bind_some, Option.bind_some, hbound]

theorem SeesAlike.outcome (h : t.SeesAlike a b) : t.outcome a = t.outcome b := by
  rw [Template.outcome, Template.outcome, h.authenticated, h.appliesTo, h.restriction?]

end Template

namespace CompiledQuery

mutual
def withIdentity (i : Identity) : CompiledQuery → CompiledQuery
  | ⟨model, action, _, filter, includes, sort, page⟩ =>
    ⟨model, action, i, filter, includesWithIdentity i includes, sort, page⟩

def includesWithIdentity (i : Identity) :
    List (CompiledInclude CompiledQuery) → List (CompiledInclude CompiledQuery)
  | [] => []
  | ⟨relation, kind, junction, query⟩ :: includes =>
    ⟨relation, kind, junction, query.withIdentity i⟩ :: includesWithIdentity i includes
end

end CompiledQuery

namespace Engine

def SeesAlike (e : Engine) (a b : Actor) : Prop :=
  ∀ model action rules, e.policies.lookup model action = some rules →
    ∀ rule ∈ rules, rule.respond a = rule.respond b

variable {e : Engine} (h : e.SeesAlike a b)
include h

theorem replies_eq_of_seesAlike {model : String} {action : Action} {rules : List Rule}
    (listed : e.policies.lookup model action = some rules) :
    e.replies a rules = e.replies b rules := by
  apply List.map_congr_left
  intro rule hrule
  rw [Rule.reply, Rule.reply, h model action rules listed rule hrule]

theorem decide_eq_of_seesAlike (model : String) (action : Action) :
    (e.decide model action a).result = (e.decide model action b).result := by
  show (e.decideAs _ model action a).result = (e.decideAs _ model action b).result
  by_cases registered : e.schema.contains model = true
  · cases listed : e.policies.lookup model action with
    | none =>
      rw [result_decideAs_of_no_rules registered listed,
        result_decideAs_of_no_rules registered listed]
    | some rules =>
      rw [result_decideAs_of_rules registered listed, result_decideAs_of_rules registered listed,
        replies_eq_of_seesAlike h listed]
  · have hunregistered : e.schema.contains model = false := Bool.eq_false_iff.mpr registered
    rw [result_decideAs_of_unregistered hunregistered,
      result_decideAs_of_unregistered hunregistered]

theorem restriction_eq_of_seesAlike (model : String) (action : Action) :
    (e.restriction model action a).result = (e.restriction model action b).result := by
  rw [restriction, restriction, Run.result_bind, Run.result_bind, decide_eq_of_seesAlike h]

theorem compileJunction_eq_of_seesAlike (r : Relation) :
    (e.compileJunction a r).result = (e.compileJunction b r).result := by
  rw [compileJunction, compileJunction]
  cases r.through with
  | none => rfl
  | some model => simp only [Run.result_bind, restriction_eq_of_seesAlike h]

mutual
theorem compileNode_of_seesAlike (action : Action) : (q : Query) →
    (e.compileNode b action q).result =
      CompiledQuery.withIdentity b.identity <$> (e.compileNode a action q).result
  | ⟨model, filter, includes, sort, page⟩ => by
    have hrestriction := restriction_eq_of_seesAlike h model action
    have hincludes := compileIncludes_of_seesAlike includes
    simp only [compileNode, Run.result_bind, Run.result_pure, hrestriction, hincludes]
    cases (e.restriction model action b).result with
    | error error => rfl
    | ok security => cases (e.compileIncludes a includes).result <;> rfl

theorem compileIncludes_of_seesAlike : (includes : List (Include Query)) →
    (e.compileIncludes b includes).result =
      CompiledQuery.includesWithIdentity b.identity <$> (e.compileIncludes a includes).result
  | [] => rfl
  | ⟨relation, query⟩ :: includes => by
    have hjunction := compileJunction_eq_of_seesAlike h relation
    have hquery := compileNode_of_seesAlike .read query
    have hincludes := compileIncludes_of_seesAlike includes
    simp only [compileIncludes, Run.result_bind, Run.result_pure, hjunction, hquery, hincludes]
    cases (e.compileJunction b relation).result with
    | error error => rfl
    | ok junction =>
      cases (e.compileNode a .read query).result with
      | error error => rfl
      | ok compiled => cases (e.compileIncludes a includes).result <;> rfl
end

end Engine

namespace Guard

/-- Where all rules are templates, nothing of an actor but what some template mentions shows in an
error or in a compiled query, apart from the identity on record. -/
theorem compile_of_seesAlike {g : Guard} {templates : List Template}
    (htemplates : ∀ model action rules, g.engine.policies.lookup model action = some rules →
      ∀ rule ∈ rules, ∃ t ∈ templates, rule = t.rule)
    (halike : ∀ t ∈ templates, t.SeesAlike a b) (model : String) (action : Action) (raw : Json) :
    (∃ error, (g.compile model action raw a).result = .error error ∧
        (g.compile model action raw b).result = .error error) ∨
      ∃ c, (g.compile model action raw a).result = .ok c ∧
        (g.compile model action raw b).result = .ok (c.withIdentity b.identity) := by
  have hengine : g.engine.SeesAlike a b := by
    intro model action rules listed rule hrule
    obtain ⟨t, ht, rfl⟩ := htemplates model action rules listed rule hrule
    show Response.mk (some 0) (t.outcome a) = ⟨some 0, t.outcome b⟩
    rw [(halike t ht).outcome]
  rw [compile, compile]
  cases g.parse model raw with
  | error error => exact .inl ⟨error, rfl, rfl⟩
  | ok q =>
    have hnode := Engine.compileNode_of_seesAlike hengine action q
    show (∃ error, (g.engine.compileNode a action q).result = .error error ∧
        (g.engine.compileNode b action q).result = .error error) ∨
      ∃ c, (g.engine.compileNode a action q).result = .ok c ∧
        (g.engine.compileNode b action q).result = .ok (c.withIdentity b.identity)
    rw [hnode]
    cases (g.engine.compileNode a action q).result with
    | error error => exact .inl ⟨error, rfl, rfl⟩
    | ok c => exact .inr ⟨c, rfl, rfl⟩

/-- Authenticated clerks read the orders that their budget covers. -/
def affordable : Template where
  name := "affordable"
  effect := .restrict
  filter := some (.obj [("field", .str "total"), ("op", .str "lt"),
    ("value", .str "$claim.budget")])
  roles := ["clerk"]
  authenticated := true

def clerkCalls : List Builder.Call :=
  Schema.shopModels.map (fun d => .schema (.register d)) ++
    [.policies (.register "order" .read affordable.rule)]

def clerkGuard : Guard :=
  ⟨⟨Schema.shop, (Builder.run (.ofSettings {}) clerkCalls).policies.sealUp, {}⟩⟩

def clerk (roles : List String) (claims : Table Json) (session : String) : Actor where
  authenticated := true
  roles := roles ++ ["clerk"]
  claims := ("budget", .num (.ofInt64 100)) :: claims
  session := some session

/-- Two clerks with one budget get the same orders, and two strangers the same denial. -/
theorem clerkGuard_compile :
    (Builder.run (.ofSettings {}) clerkCalls).build = .ok clerkGuard ∧
      affordable.SeesAlike (clerk [] [] "day") (clerk ["auditor"] [("shift", .null)] "night") ∧
      affordable.SeesAlike .anonymous (Actor.anonymous.withSession "night") ∧
      (∃ c k, (clerkGuard.compile "customer" .read Schema.firstCustomers.toRaw
          (clerk [] [] "day")).result = .ok c ∧
        (clerkGuard.compile "customer" .read Schema.firstCustomers.toRaw
          (clerk ["auditor"] [("shift", .null)] "night")).result =
            .ok (c.withIdentity ⟨true, [], some "night"⟩) ∧
        c.actor = ⟨true, [], some "day"⟩ ∧ c.at? [0] = some k ∧
        k.filter = .all [.not (.leaf ⟨"total", .is, .null⟩),
          .leaf ⟨"total", .lt, .single (.float ⟨0x4059000000000000⟩)⟩]) ∧
      (clerkGuard.compile "order" .read (.obj []) .anonymous).result =
        .error (.policyDenied "order" "read" ["affordable"]) ∧
      (clerkGuard.compile "order" .read (.obj []) (Actor.anonymous.withSession "night")).result =
        .error (.policyDenied "order" "read" ["affordable"]) := by
  have hbuild : (Builder.run (.ofSettings {}) clerkCalls).build = .ok clerkGuard := by rfl
  have htemplates : ∀ model action rules,
      clerkGuard.engine.policies.lookup model action = some rules →
        ∀ rule ∈ rules, ∃ t ∈ [affordable], rule = t.rule := by
    have hrules : clerkGuard.engine.policies.rules =
        [("order", [(.read, [affordable.rule])])] := rfl
    intro model action rules listed rule hrule
    rw [Policies.lookup, hrules] at listed
    by_cases hmodel : "order" = model
    · by_cases haction : Action.read = action
      · have hone : [affordable.rule] = rules := by
          simpa [hmodel, haction, Policies.rulesFor?] using listed
        rw [← hone] at hrule
        exact ⟨affordable, List.mem_singleton_self _, List.mem_singleton.mp hrule⟩
      · simp [hmodel, haction, Policies.rulesFor?] at listed
    · simp [hmodel] at listed
  have hnames : ∀ raw ∈ affordable.filter, raw.placeholders = ["claim.budget"] := by
    intro raw hraw
    cases hraw
    rfl
  have hattributes {a b : Actor} (h : a.resolve "claim.budget" = b.resolve "claim.budget") :
      ∀ raw ∈ affordable.filter, ∀ name ∈ raw.placeholders, a.resolve name = b.resolve name := by
    intro raw hraw name hname
    rw [hnames raw hraw, List.mem_singleton] at hname
    rwa [hname]
  have hclerks : affordable.SeesAlike (clerk [] [] "day")
      (clerk ["auditor"] [("shift", .null)] "night") :=
    ⟨rfl, by simp [affordable, clerk, Actor.hasRole], hattributes rfl⟩
  have hstrangers : affordable.SeesAlike .anonymous (Actor.anonymous.withSession "night") :=
    ⟨rfl, fun _ _ => rfl, hattributes rfl⟩
  have hvalid : Schema.firstCustomers.Valid Schema.shop {} := by decide +kernel
  have hparse : clerkGuard.parse "customer" Schema.firstCustomers.toRaw =
      .ok Schema.firstCustomers :=
    Result.mapError_eq_ok_iff.mpr (Schema.parse_toRaw_of_valid hvalid)
  obtain ⟨c, k, hc, hactor, hk, hfilter⟩ : ∃ c k,
      (clerkGuard.engine.compile .read Schema.firstCustomers (clerk [] [] "day")).result = .ok c ∧
        c.actor = ⟨true, [], some "day"⟩ ∧ c.at? [0] = some k ∧
        k.filter = .all [.not (.leaf ⟨"total", .is, .null⟩),
          .leaf ⟨"total", .lt, .single (.float ⟨0x4059000000000000⟩)⟩] := by
    refine ⟨_, _, rfl, rfl, rfl, ?_⟩
    decide +kernel
  have hcompile : (clerkGuard.compile "customer" .read Schema.firstCustomers.toRaw
      (clerk [] [] "day")).result = .ok c := by
    rw [compile, hparse]
    exact hc
  have hdenied : (clerkGuard.compile "order" .read (.obj []) .anonymous).result =
      .error (.policyDenied "order" "read" ["affordable"]) := by rfl
  refine ⟨hbuild, hclerks, hstrangers, ⟨c, k, hcompile, ?_, hactor, hk, hfilter⟩, hdenied, ?_⟩
  · rcases compile_of_seesAlike htemplates (by simpa using hclerks) "customer" .read
      Schema.firstCustomers.toRaw with ⟨error, herror, -⟩ | ⟨d, hd, hother⟩
    · rw [hcompile] at herror
      cases herror
    · rw [hcompile] at hd
      cases hd
      exact hother
  · rcases compile_of_seesAlike htemplates (by simpa using hstrangers) "order" .read (.obj [])
      with ⟨error, herror, hother⟩ | ⟨d, hd, -⟩
    · rw [hdenied] at herror
      cases herror
      exact hother
    · rw [hdenied] at hd
      cases hd

end Guard
end RowPolicy
