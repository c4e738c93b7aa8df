import RowPolicy.Guard
import RowPolicy.Proofs.AuditTrail
import RowPolicy.Proofs.Interruption

/-!
Compilations that are cancelled. A compilation that is over before the cancellation is not affected
by it; any other ends just then, without a result, and only the decisions that were complete before
are on record. Main statement: this holds for every time of the cancellation and whatever rules say
in answer to it, since a decision looks at the cancellation before it looks at a reply.
-/
namespace RowPolicy

section Race

variable {check : Filter → Option Filter} {rules : List String} {t : Tally}
  {cancel elapsed : Milliseconds} {undisturbed reacting : List Arrival}

/-- Take replies in, looking at the cancellation before each of them and before the end. There is no
verdict if the cancellation comes first. -/
def takeInUntil (check : Filter → Option Filter) (rules : List String) (cancel : Milliseconds)
    (t : Tally) (elapsed : Milliseconds) : List Arrival → Milliseconds × Option Verdict
  | [] => if cancel ≤ elapsed then (cancel, none) else (elapsed, some (t.verdict rules))
  | (time, r, place) :: rest =>
    if cancel ≤ time then (cancel, none)
    else match t.add? check r place with
      | none => (time, some (.decided ⟨.deny, [r.rule]⟩))
      | some t => takeInUntil check rules cancel t time rest

/-- How replies come in when rules may react to a cancellation: before it they come as they would
without it, and from then on the other rules reply at any time and in any way. -/
structure Reacts (cancel : Milliseconds) (undisturbed reacting : List Arrival) : Prop where
  before : reacting.filter (·.1 < cancel) = undisturbed.filter (·.1 < cancel)
  sorted : reacting.Pairwise (·.1 ≤ ·.1)
  complete : reacting.length = undisturbed.length

theorem filter_eq_nil_of_le {a : Arrival} {arrived : List Arrival}
    (hsorted : (a :: arrived).Pairwise (·.1 ≤ ·.1)) (h : cancel ≤ a.1) :
    (a :: arrived).filter (·.1 < cancel) = [] := by
  apply List.filter_eq_nil_iff.mpr
  intro b hb
  have hle : a.1 ≤ b.1 := by
    rcases List.mem_cons.mp hb with rfl | hb
    · exact Nat.le_refl _
    · exact List.rel_of_pairwise_cons hsorted hb
  simpa using Nat.le_trans h hle

theorem Reacts.cons_cases {a b : Arrival} (hsorted : (a :: undisturbed).Pairwise (·.1 ≤ ·.1))
    (h : Reacts cancel (a :: undisturbed) (b :: reacting)) :
    (a.1 < cancel ∧ b = a ∧ Reacts cancel undisturbed reacting) ∨
      (cancel ≤ a.1 ∧ cancel ≤ b.1) := by
  have hlength : reacting.length = undisturbed.length := Nat.succ.inj h.complete
  by_cases ha : a.1 < cancel
  · by_cases hb : b.1 < cancel
    · have hbefore := h.before
      rw [List.filter_cons_of_pos (by simpa using hb), List.filter_cons_of_pos (by simpa using ha)]
        at hbefore
      obtain ⟨hhead, htail⟩ := List.cons.inj hbefore
      exact .inl ⟨ha, hhead, htail, h.sorted.of_cons, hlength⟩
    · have hbefore := h.before
      rw [filter_eq_nil_of_le h.sorted (Nat.le_of_not_lt hb),
        List.filter_cons_of_pos (by simpa using ha)] at hbefore
      cases hbefore
  · by_cases hb : b.1 < cancel
    · have hbefore := h.before
      rw [filter_eq_nil_of_le hsorted (Nat.le_of_not_lt ha),
        List.filter_cons_of_pos (by simpa using hb)] at hbefore
      cases hbefore
    · exact .inr ⟨Nat.le_of_not_lt ha, Nat.le_of_not_lt hb⟩

theorem le_takeIn {arrived : List Arrival} (helapsed : cancel ≤ elapsed)
    (harrived : ∀ a ∈ arrived, cancel ≤ a.1) (t : Tally) :
    cancel ≤ (takeIn check rules t elapsed arrived).1 := by
  induction arrived generalizing t elapsed with
  | nil => exact helapsed
  | cons a arrived ih =>
    obtain ⟨time, r, place⟩ := a
    have htime : cancel ≤ time := harrived _ List.mem_cons_self
    rw [takeIn]
    cases t.add? check r place with
    | none => exact htime
    | some t => exact ih htime (fun a ha => harrived a (List.mem_cons_of_mem _ ha)) t

/-- Whatever the rules say in answer to a cancellation, the verdict stands if it is there before
the cancellation, and otherwise there is none. -/
theorem takeInUntil_eq (hsorted : undisturbed.Pairwise (·.1 ≤ ·.1))
    (h : Reacts cancel undisturbed reacting) (t : Tally) (elapsed : Milliseconds) :
    takeInUntil check rules cancel t elapsed reacting =
      let (time, verdict) := takeIn check rules t elapsed undisturbed
      if cancel ≤ time then (cancel, none) else (time, some verdict) := by
  induction undisturbed generalizing reacting t elapsed with
  | nil =>
    obtain rfl := List.length_eq_zero_iff.mp h.complete
    rfl
  | cons a undisturbed ih =>
    cases reacting with
    | nil => cases h.complete
    | cons b reacting =>
      rcases h.cons_cases hsorted with ⟨hlt, rfl, hrest⟩ | ⟨ha, hb⟩
      · obtain ⟨time, r, place⟩ := b
        have hopen : ¬cancel ≤ time := Nat.not_le.mpr hlt
        rw [takeInUntil, takeIn, if_neg hopen]
        cases t.add? check r place with
        | none => exact (if_neg hopen).symm
        | some t => exact ih hsorted.of_cons hrest t time
      · have hall : ∀ u ∈ a :: undisturbed, cancel ≤ u.1 := by
          intro u hu
          rcases List.mem_cons.mp hu with rfl | hu
          · exact ha
          · exact Nat.le_trans ha (List.rel_of_pairwise_cons hsorted hu)
        -- With a reply to come, the time that has passed does not count.
        have hlate : cancel ≤ (takeIn check rules t elapsed (a :: undisturbed)).1 := by
          show cancel ≤ (takeIn check rules t cancel (a :: undisturbed)).1
          exact le_takeIn (Nat.le_refl cancel) hall t
        rw [takeInUntil, if_pos hb]
        exact (if_pos hlate).symm

end Race

namespace Engine

variable (e : Engine) (actor : Actor)

section Decision

variable {e actor} {model : String} {action : Action} {rules : List Rule}

def standing (e : Engine) (model : String) (actor : Actor) (rules : List Rule) :
    Milliseconds × Verdict :=
  takeIn (e.check model) (rules.map (·.name)) {} 0
    (arrivalOrder e.settings.policy.concurrency.toNat (e.replies actor rules))

theorem decide_of_rules (registered : e.schema.contains model = true)
    (listed : e.policies.lookup model action = some rules) :
    e.decide model action actor = Run.wait (e.standing model actor rules).1 >>= fun _ =>
      conclude actor model action (e.standing model actor rules).2 := by
  show e.decideAs (arrivalOrder _) model action actor = _
  simp only [decideAs, registered, listed, Bool.not_true, Bool.false_eq_true, if_false]
  rfl

/-- A decision fails at once on an unknown model or for want of a rule, waits for its rules, or is
open from the start. -/
theorem decide_cases (e : Engine) (model : String) (action : Action) (actor : Actor) :
    e.decide model action actor = .fail (.unknownModel model) ∨
      e.decide model action actor = (Run.record (actor.event model action .notImplemented []) >>=
        fun _ => .fail (.rlsNotImplemented model action.name)) ∨
      (∃ time verdict, e.decide model action actor =
        Run.wait time >>= fun _ => conclude actor model action verdict) ∨
      e.decide model action actor = conclude actor model action (.decided ⟨.allow, []⟩) := by
  by_cases registered : e.schema.contains model = true
  · cases listed : e.policies.lookup model action with
    | some rules => exact .inr (.inr (.inl ⟨_, _, decide_of_rules registered listed⟩))
    | none =>
      by_cases required : e.policies.requires model action = true
      · apply Or.inr ∘ Or.inl
        simp [decide, decideAs, registered, listed, required]
      · apply Or.inr ∘ Or.inr ∘ Or.inr
        simp [decide, decideAs, registered, listed, required]
  · apply Or.inl
    simp [decide, decideAs, registered]

theorem interruptible_conclude (verdict : Verdict) :
    (conclude actor model action verdict).Interruptible := by
  apply Run.Interruptible.bind (Run.Interruptible.record _)
  intro _
  cases verdict with
  | decided decision => exact Run.Interruptible.pure decision
  | timedOut rule budget => exact Run.Interruptible.fail _

theorem interruptible_decide (e : Engine) (model : String) (action : Action) (actor : Actor) :
    (e.decide model action actor).Interruptible := by
  rcases decide_cases e model action actor with h | h | ⟨time, verdict, h⟩ | h
  · rw [h]
    exact Run.Interruptible.fail _
  · rw [h]
    exact (Run.Interruptible.record _).bind fun _ => Run.Interruptible.fail _
  · rw [h]
    exact (Run.Interruptible.wait time).bind fun _ => interruptible_conclude verdict
  · rw [h]
    exact interruptible_conclude _

theorem events_decide (e : Engine) (model : String) (action : Action) (actor : Actor) :
    (e.decide model action actor).finish.events =
      (e.decide model action actor).finish.recorded.map
        ((e.decide model action actor).finish.elapsed, ·) := by
  rcases decide_cases e model action actor with h | h | ⟨time, verdict, h⟩ | h
  · rw [h]
    rfl
  · rw [h]
    rfl
  · rw [h]
    cases verdict <;> rfl
  · rw [h]
    rfl

/-- A decision among replies as they come in, with the cancellation looked at before each. -/
def decideUntil (e : Engine) (cancel : Milliseconds) (model : String) (action : Action)
    (actor : Actor) (rules : List Rule) (arrived : List Arrival) : Trace Decision :=
  match takeInUntil (e.check model) (rules.map (·.name)) cancel {} 0 arrived with
  | (elapsed, none) => ⟨elapsed, [], .error .cancelled⟩
  | (elapsed, some verdict) =>
    (⟨elapsed, [], .ok ()⟩ : Trace Unit).andThen fun _ =>
      (conclude actor model action verdict).finish

theorem trace_conclude (verdict : Verdict) (cancel : Option Milliseconds) :
    (conclude actor model action verdict).trace cancel =
      (conclude actor model action verdict).finish := by
  cases verdict <;> rfl

theorem trace_decide_of_reacts {cancel : Milliseconds} {reacting : List Arrival}
    (registered : e.schema.contains model = true)
    (listed : e.policies.lookup model action = some rules)
    (h : Reacts cancel
      (arrivalOrder e.settings.policy.concurrency.toNat (e.replies actor rules)) reacting) :
    (e.decide model action actor).trace (some cancel) =
      e.decideUntil cancel model action actor rules reacting := by
  have hloop : takeInUntil (e.check model) (rules.map (·.name)) cancel {} 0 reacting =
      if cancel ≤ (e.standing model actor rules).1 then (cancel, none)
      else ((e.standing model actor rules).1, some (e.standing model actor rules).2) :=
    takeInUntil_eq (Schedule.sortByKey_pairwise _) h {} 0
  rw [decideUntil, hloop, decide_of_rules registered listed, Run.trace_bind]
  simp only [trace_conclude]
  by_cases hlate : cancel ≤ (e.standing model actor rules).1
  · simp [Run.wait, hlate, Trace.andThen]
  · simp [Run.wait, hlate]

end Decision

theorem finish_restriction (model : String) (action : Action) :
    (e.restriction model action actor).finish.elapsed =
        (e.decide model action actor).finish.elapsed ∧
      (e.restriction model action actor).finish.events =
        (e.decide model action actor).finish.events := by
  rw [restriction, Run.finish_bind]
  cases hdecide : (e.decide model action actor).finish.result with
  | error error => rw [Trace.andThen_of_error hdecide]; exact ⟨rfl, rfl⟩
  | ok decision =>
    rw [Trace.andThen_of_ok hdecide]
    cases decision.outcome <;> exact ⟨rfl, List.append_nil _⟩

def decideAll : List (String × Action) → Run Unit
  | [] => return ()
  | request :: requests => do
    let _ ← e.restriction request.1 request.2 actor
    decideAll requests

theorem decideAll_append (requests more : List (String × Action)) :
    e.decideAll actor (requests ++ more) =
      e.decideAll actor requests >>= fun _ => e.decideAll actor more := by
  induction requests with
  | nil => exact (Run.pure_bind _ _).symm
  | cons request requests ih =>
    rw [List.cons_append, decideAll, decideAll, ih, Run.bind_assoc]

theorem compileJunction_discard (r : Relation) :
    (e.compileJunction actor r >>= fun _ => pure ()) =
      e.decideAll actor (r.through.toList.map (·, .read)) := by
  rw [compileJunction]
  cases r.through with
  | none => exact Run.pure_bind _ _
  | some model => exact Run.bind_assoc _ _ _

mutual
theorem compileNode_discard (action : Action) : (q : Query) →
    (e.compileNode actor action q >>= fun _ => pure ()) = e.decideAll actor (q.requests action)
  | ⟨model, filter, includes, sort, page⟩ => by
    have hincludes := compileIncludes_discard includes
    simp only [compileNode, Query.requests, decideAll, Run.bind_assoc, Run.pure_bind, hincludes]

theorem compileIncludes_discard : (includes : List (Include Query)) →
    (e.compileIncludes actor includes >>= fun _ => pure ()) =
      e.decideAll actor (includesRequests includes)
  | [] => Run.pure_bind _ _
  | ⟨relation, query⟩ :: includes => by
    have hjunction := compileJunction_discard e actor relation
    have hquery := compileNode_discard .read query
    have hincludes := compileIncludes_discard includes
    simp only [compileIncludes, includesRequests, decideAll_append, ← hjunction, ← hquery,
      ← hincludes, Run.bind_assoc, Run.pure_bind]
end

theorem interruptible_restriction (model : String) (action : Action) :
    (e.restriction model action actor).Interruptible := by
  apply (interruptible_decide e model action actor).bind
  intro decision
  cases decision.outcome with
  | allow => exact Run.Interruptible.pure none
  | restrict filter => exact Run.Interruptible.pure (some filter)
  | deny => exact Run.Interruptible.fail _

theorem interruptible_compileJunction (r : Relation) :
    (e.compileJunction actor r).Interruptible := by
  rw [compileJunction]
  cases r.through with
  | none => exact Run.Interruptible.pure none
  | some model =>
    exact (interruptible_restriction e actor model .read).bind fun _ => Run.Interruptible.pure _

mutual
theorem interruptible_compileNode (action : Action) : (q : Query) →
    (e.compileNode actor action q).Interruptible
  | ⟨model, filter, includes, sort, page⟩ => by
    have hincludes := interruptible_compileIncludes includes
    rw [compileNode]
    apply (interruptible_restriction e actor model action).bind
    intro security
    exact hincludes.bind fun _ => Run.Interruptible.pure _

theorem interruptible_compileIncludes : (includes : List (Include Query)) →
    (e.compileIncludes actor includes).Interruptible
  | [] => Run.Interruptible.pure []
  | ⟨relation, query⟩ :: includes => by
    have hquery := interruptible_compileNode .read query
    have hincludes := interruptible_compileIncludes includes
    rw [compileIncludes]
    apply (interruptible_compileJunction e actor relation).bind
    intro junction
    apply hquery.bind
    intro compiled
    exact hincludes.bind fun _ => Run.Interruptible.pure _
end

/-- Decisions that are made one after the other from a time on, each behind the time at which it is
complete. -/
def completions (start : Milliseconds) :
    List (String × Action) → List (Milliseconds × String × Action)
  | [] => []
  | request :: requests =>
    let complete := start + (e.decide request.1 request.2 actor).finish.elapsed
    (complete, request) :: completions complete requests

def records (c : Milliseconds × String × Action) : List (Milliseconds × Event) :=
  (e.decide c.2.1 c.2.2 actor).finish.recorded.map (c.1, ·)

theorem shift_events_restriction (start : Milliseconds) (request : String × Action) :
    Trace.shift start (e.restriction request.1 request.2 actor).finish.events =
      e.records actor
        (start + (e.decide request.1 request.2 actor).finish.elapsed, request) := by
  rw [(finish_restriction e actor request.1 request.2).2, events_decide, Trace.shift, List.map_map]
  rfl

theorem shift_events_decideAll (requests : List (String × Action)) (start : Milliseconds) :
    Trace.shift start (e.decideAll actor requests).finish.events =
      (e.completions actor start (e.asked actor requests)).flatMap (e.records actor) := by
  induction requests generalizing start with
  | nil => rfl
  | cons request requests ih =>
    have hfirst := shift_events_restriction e actor start request
    have helapsed := (finish_restriction e actor request.1 request.2).1
    have hrefusal := error?_restriction e actor request.1 request.2
    rw [decideAll, Run.finish_bind, asked]
    cases hresult : (e.restriction request.1 request.2 actor).finish.result with
    | error error =>
      have hrefused : e.refusal? actor request = some error := by
        rw [← hrefusal, Run.result, hresult]
        rfl
      rw [Trace.andThen_of_error hresult, hrefused]
      simp [completions, hfirst]
    | ok security =>
      have hgranted : e.refusal? actor request = none := by
        rw [← hrefusal, Run.result, hresult]
        rfl
      rw [Trace.andThen_of_ok hresult, hgranted, Trace.shift_append, hfirst, Trace.shift_shift,
        helapsed, ih]
      rfl

theorem events_compile (action : Action) (q : Query) :
    (e.compile action q actor).finish.events =
      (e.completions actor 0 (e.asked actor (q.requests action))).flatMap (e.records actor) := by
  rw [← shift_events_decideAll, Trace.shift_zero, ← compileNode_discard, Run.finish_bind]
  show (e.compileNode actor action q).finish.events = _
  cases hresult : (e.compileNode actor action q).finish.result with
  | error error => rw [Trace.andThen_of_error hresult]
  | ok c => rw [Trace.andThen_of_ok hresult]; exact (List.append_nil _).symm

theorem filter_flatMap_records (t : Milliseconds)
    (complete : List (Milliseconds × String × Action)) :
    (complete.flatMap (e.records actor)).filter (·.1 < t) =
      (complete.filter (·.1 < t)).flatMap (e.records actor) := by
  induction complete with
  | nil => rfl
  | cons c complete ih =>
    rw [List.flatMap_cons, List.filter_append, ih]
    by_cases h : c.1 < t
    · simp [records, h, List.filter_map, Function.comp_def]
    · simp [records, h, List.filter_map, Function.comp_def]

/-- A cancellation at some time leaves a compilation alone that is over before, and ends any other
just then, with nothing but the cancellation for a result. On record are the decisions that were
complete before. What the rules say in answer to it makes no difference to any decision, and a query
that is not read is refused whatever the time. -/
theorem compile_cancelled (e : Engine) (actor : Actor) (action : Action) (q : Query)
    (t : Milliseconds) :
    let undisturbed := (e.compile action q actor).finish
    let cancelled := (e.compile action q actor).trace (some t)
    (undisturbed.elapsed < t → cancelled = undisturbed) ∧
      (t ≤ undisturbed.elapsed → cancelled.elapsed = t ∧ cancelled.result = .error .cancelled) ∧
      cancelled.events =
        ((e.completions actor 0 (e.asked actor (q.requests action))).filter (·.1 < t)).flatMap
          (e.records actor) ∧
      (∀ model action rules left reacting, e.schema.contains model = true →
        e.policies.lookup model action = some rules →
        Reacts left (arrivalOrder e.settings.policy.concurrency.toNat (e.replies actor rules))
          reacting →
        (e.decide model action actor).trace (some left) =
          e.decideUntil left model action actor rules reacting) ∧
      ∀ g : Guard, g.engine = e → ∀ model raw,
        (∀ error, g.parse model raw = .error error → ∀ cancel,
          (g.compile model action raw actor).trace cancel = ⟨0, [], .error error⟩) ∧
        (g.parse model raw = .ok q →
          g.compile model action raw actor = e.compile action q actor) := by
  intro undisturbed cancelled
  have hinterruptible := interruptible_compileNode e actor action q
  have hcut : cancelled = undisturbed.cut t := hinterruptible.trace_unlessCancelled t
  refine ⟨fun hbefore => ?_, fun hafter => ?_, ?_, ?_, ?_⟩
  · rw [hcut, Trace.cut_of_lt hbefore]
  · rw [hcut, Trace.cut_of_le hafter]
    exact ⟨rfl, rfl⟩
  · have htimely : undisturbed.IsTimely := hinterruptible.timely
    rw [hcut, htimely.events_cut, events_compile, filter_flatMap_records]
  · intro model action rules left reacting registered listed hreacts
    exact trace_decide_of_reacts registered listed hreacts
  · rintro g rfl model raw
    refine ⟨fun error hparse cancel => ?_, fun hparse => ?_⟩
    · rw [Guard.compile, hparse]
      rfl
    · rw [Guard.compile, hparse]

/-- The rule for orders waits for the cancellation, and would deny in answer to it. -/
def stubborn : Rule := ⟨"stubborn", none, fun _ => ⟨none, .deny⟩⟩

def patientEngine : Engine where
  schema := ⟨[⟨"customer", [], [⟨"orders", "order", .many, none⟩], none⟩, ⟨"order", [], [], none⟩],
    true⟩
  policies :=
    { rules := [("customer", [(.read, [⟨"slow", none, fun _ => ⟨some 10, .allow⟩⟩])]),
        ("order", [(.read, [stubborn])])]
      isSealed := true }
  settings := {}

/-- After the decision on customers a cancellation ends the compilation, whatever the other rule
says; when the rule has run out of its time the cancellation comes too late. -/
theorem patientEngine_compile_cancelled :
    let run := patientEngine.compile .read customersWithOrders .anonymous
    (run.finish.elapsed < 3000 ∧ run.trace (some 3000) = run.finish ∧
      run.finish.result = .error (.policyTimeout "order" "read" "stubborn" 2000)) ∧
    (15 ≤ run.finish.elapsed ∧ (run.trace (some 15)).elapsed = 15 ∧
      (run.trace (some 15)).result = .error .cancelled ∧
      (run.trace (some 15)).events =
        [(10, Actor.anonymous.event "customer" .read .allow ["slow"])]) ∧
    (Reacts 5 [(2000, ⟨"stubborn", 2000, none⟩, 0)] [(5, ⟨"stubborn", 2000, some .deny⟩, 0)] ∧
      (patientEngine.decide "order" .read .anonymous).trace (some 5) =
        patientEngine.decideUntil 5 "order" .read .anonymous [stubborn]
          [(5, ⟨"stubborn", 2000, some .deny⟩, 0)] ∧
      patientEngine.decideUntil 5 "order" .read .anonymous [stubborn]
          [(5, ⟨"stubborn", 2000, some .deny⟩, 0)] = ⟨5, [], .error .cancelled⟩) ∧
    (∃ error, Guard.parse ⟨patientEngine⟩ "customer" (.arr []) = .error error ∧
      (Guard.compile ⟨patientEngine⟩ "customer" .read (.arr []) .anonymous).trace (some 0) =
        ⟨0, [], .error error⟩) ∧
    Guard.parse ⟨patientEngine⟩ "customer" customersWithOrders.toRaw = .ok customersWithOrders ∧
      Guard.compile ⟨patientEngine⟩ "customer" .read customersWithOrders.toRaw .anonymous =
        run := by
  intro run
  have helapsed : run.finish.elapsed = 2010 := by rfl
  obtain ⟨hlate, -⟩ := compile_cancelled patientEngine .anonymous .read customersWithOrders 3000
  obtain ⟨-, hearly, hevents, hreacting, hfacade⟩ :=
    compile_cancelled patientEngine .anonymous .read customersWithOrders 15
  have hreacts : Reacts 5 [(2000, ⟨"stubborn", 2000, none⟩, 0)]
      [(5, ⟨"stubborn", 2000, some .deny⟩, 0)] :=
    ⟨rfl, List.pairwise_singleton _ _, rfl⟩
  have hbefore : run.finish.elapsed < 3000 := by rw [helapsed]; decide
  have hafter : 15 ≤ run.finish.elapsed := by rw [helapsed]; decide
  obtain ⟨hend, hresult⟩ := hearly hafter
  have hparse : Guard.parse ⟨patientEngine⟩ "customer" customersWithOrders.toRaw =
      .ok customersWithOrders := by rfl
  refine ⟨⟨hbefore, hlate hbefore, rfl⟩, ⟨hafter, hend, hresult, ?_⟩,
    ⟨hreacts, ?_, rfl⟩, ⟨_, rfl, ?_⟩, hparse, ?_⟩
  · rw [hevents]
    rfl
  · exact hreacting "order" .read [stubborn] 5 _ rfl rfl hreacts
  · exact (hfacade ⟨patientEngine⟩ rfl "customer" (.arr [])).1 _ rfl (some 0)
  · exact (hfacade ⟨patientEngine⟩ rfl "customer" _).2 hparse

end Engine
end RowPolicy
