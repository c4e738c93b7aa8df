import RowPolicy.Run

/-!
Runs that are cancelled. Cutting a trace off at a time keeps what was over before and loses the
rest, the result with it. Main statement: a run that is put together from interruptible runs is
interruptible, which means that a cancellation cuts its trace off and changes nothing else.
-/
namespace RowPolicy

variable {α β γ : Type}

namespace Trace

def shift (start : Milliseconds) (events : List (Milliseconds × Event)) :
    List (Milliseconds × Event) :=
  events.map fun event => (start + event.1, event.2)

@[simp] theorem shift_zero (events : List (Milliseconds × Event)) : shift 0 events = events := by
  simp [shift]

@[simp] theorem shift_append (start : Milliseconds) (events more : List (Milliseconds × Event)) :
    shift start (events ++ more) = shift start events ++ shift start more :=
  List.map_append

theorem shift_shift (start more : Milliseconds) (events : List (Milliseconds × Event)) :
    shift start (shift more events) = shift (start + more) events := by
  simp [shift, Function.comp_def, Nat.add_assoc]

variable {x : Trace α} {f : α → Trace β}

theorem andThen_of_error {error : Error} (h : x.result = .error error) :
    x.andThen f = ⟨x.elapsed, x.events, .error error⟩ := by
  rw [andThen, h]

theorem andThen_of_ok {a : α} (h : x.result = .ok a) :
    x.andThen f =
      ⟨x.elapsed + (f a).elapsed, x.events ++ shift x.elapsed (f a).events, (f a).result⟩ := by
  rw [andThen, h]
  rfl

/-- A trace cut off at a time, unless it is over before. -/
def cut (t : Milliseconds) (x : Trace α) : Trace α :=
  if x.elapsed < t then x else ⟨t, x.events.filter (·.1 < t), .error .cancelled⟩

theorem cut_of_lt {t : Milliseconds} (h : x.elapsed < t) : x.cut t = x := if_pos h

theorem cut_of_le {t : Milliseconds} (h : t ≤ x.elapsed) :
    x.cut t = ⟨t, x.events.filter (·.1 < t), .error .cancelled⟩ :=
  if_neg (Nat.not_lt.mpr h)

def IsTimely (x : Trace α) : Prop := ∀ event ∈ x.events, event.1 ≤ x.elapsed

theorem IsTimely.filter_eq_self {t : Milliseconds} (hx : x.IsTimely) (h : x.elapsed < t) :
    x.events.filter (·.1 < t) = x.events := by
  apply List.filter_eq_self.mpr
  intro event hevent
  have hle := hx event hevent
  exact decide_eq_true (Nat.lt_of_le_of_lt hle h)

/-- Whether it is over before or not, what is on record is what came before the time. -/
theorem IsTimely.events_cut (hx : x.IsTimely) (t : Milliseconds) :
    (x.cut t).events = x.events.filter (·.1 < t) := by
  by_cases h : x.elapsed < t
  · rw [cut_of_lt h, hx.filter_eq_self h]
  · rw [cut_of_le (Nat.le_of_not_lt h)]

theorem IsTimely.andThen (hx : x.IsTimely) (hf : ∀ a, (f a).IsTimely) : (x.andThen f).IsTimely := by
  cases hresult : x.result with
  | error error =>
    rw [andThen_of_error hresult]
    exact hx
  | ok a =>
    rw [andThen_of_ok hresult]
    intro event hevent
    show event.1 ≤ x.elapsed + (f a).elapsed
    rcases List.mem_append.mp hevent with hfirst | hrest
    · have hle := hx event hfirst
      exact Nat.le_add_right_of_le hle
    · obtain ⟨later, hlater, rfl⟩ := List.mem_map.mp hrest
      have hle := hf a later hlater
      exact Nat.add_le_add_left hle _

/-- What is over before the time, with what goes on behind it cut off when the rest of the time is
over, is the whole cut off at the time. -/
theorem andThen_cut_of_lt {t : Milliseconds} (hx : x.IsTimely) (h : x.elapsed < t) :
    (x.andThen fun a => (f a).cut (t - x.elapsed)) = (x.andThen f).cut t := by
  cases hresult : x.result with
  | error error =>
    rw [andThen_of_error hresult, andThen_of_error hresult, cut_of_lt]
    exact h
  | ok a =>
    rw [andThen_of_ok hresult, andThen_of_ok hresult]
    by_cases hrest : (f a).elapsed < t - x.elapsed
    · have hwhole : x.elapsed + (f a).elapsed < t := Nat.lt_sub_iff_add_lt'.mp hrest
      rw [cut_of_lt hrest, cut_of_lt hwhole]
    · have hle : t - x.elapsed ≤ (f a).elapsed := Nat.le_of_not_lt hrest
      have hwhole : t ≤ x.elapsed + (f a).elapsed := Nat.sub_le_iff_le_add'.mp hle
      have htime : x.elapsed + (t - x.elapsed) = t := Nat.add_sub_of_le (Nat.le_of_lt h)
      have hshift : shift x.elapsed ((f a).events.filter (·.1 < t - x.elapsed)) =
          (shift x.elapsed (f a).events).filter (·.1 < t) := by
        rw [shift, shift, List.filter_map]
        congr 2
        funext event
        simp only [Function.comp, decide_eq_decide]
        exact Nat.lt_sub_iff_add_lt'
      rw [cut_of_le hle, cut_of_le hwhole, List.filter_append, hx.filter_eq_self h, ← hshift, htime]

theorem andThen_cut_of_le {t : Milliseconds} (h : t ≤ x.elapsed) :
    (x.cut t).andThen f = (x.andThen f).cut t := by
  have hcut : (x.cut t).andThen f = ⟨t, x.events.filter (·.1 < t), .error .cancelled⟩ := by
    rw [cut_of_le h]
    rfl
  rw [hcut]
  cases hresult : x.result with
  | error error =>
    rw [andThen_of_error hresult, cut_of_le]
    exact h
  | ok a =>
    have hwhole : t ≤ x.elapsed + (f a).elapsed := Nat.le_trans h (Nat.le_add_right _ _)
    have hlate : (shift x.elapsed (f a).events).filter (·.1 < t) = [] := by
      apply List.filter_eq_nil_iff.mpr
      intro event hevent
      obtain ⟨later, -, rfl⟩ := List.mem_map.mp hevent
      have hle : t ≤ x.elapsed + later.1 := Nat.le_trans h (Nat.le_add_right _ _)
      simpa using hle
    rw [andThen_of_ok hresult, cut_of_le hwhole, List.filter_append, hlate, List.append_nil]

end Trace

namespace Run

open Trace (shift andThen_of_error andThen_of_ok)

theorem ext_trace {x y : Run α} (h : ∀ cancel, x.trace cancel = y.trace cancel) : x = y :=
  congrArg Run.mk (funext h)

theorem trace_bind_of_error {x : Run α} {f : α → Run β} {cancel : Option Milliseconds}
    {error : Error} (h : (x.trace cancel).result = .error error) :
    (x >>= f).trace cancel = ⟨(x.trace cancel).elapsed, (x.trace cancel).events, .error error⟩ := by
  rw [trace_bind, andThen_of_error h]

theorem trace_bind_of_ok {x : Run α} {f : α → Run β} {cancel : Option Milliseconds} {a : α}
    (h : (x.trace cancel).result = .ok a) :
    (x >>= f).trace cancel =
      ⟨(x.trace cancel).elapsed +
          ((f a).trace (cancel.map (· - (x.trace cancel).elapsed))).elapsed,
        (x.trace cancel).events ++ shift (x.trace cancel).elapsed
          ((f a).trace (cancel.map (· - (x.trace cancel).elapsed))).events,
        ((f a).trace (cancel.map (· - (x.trace cancel).elapsed))).result⟩ := by
  rw [trace_bind, andThen_of_ok h]

protected theorem pure_bind (a : α) (f : α → Run β) : (Pure.pure a : Run α) >>= f = f a := by
  apply ext_trace
  intro cancel
  rw [trace_bind_of_ok rfl]
  simp

protected theorem bind_assoc (x : Run α) (f : α → Run β) (g : β → Run γ) :
    x >>= f >>= g = x >>= fun a => f a >>= g := by
  apply ext_trace
  intro cancel
  cases hx : (x.trace cancel).result with
  | error error =>
    have hfirst := trace_bind_of_error (f := f) hx
    rw [trace_bind_of_error hx, trace_bind_of_error (by rw [hfirst]), hfirst]
  | ok a =>
    have hfirst := trace_bind_of_ok (f := f) hx
    rw [trace_bind_of_ok hx]
    cases hf : ((f a).trace (cancel.map (· - (x.trace cancel).elapsed))).result with
    | error error =>
      rw [trace_bind_of_error hf, trace_bind_of_error (by rw [hfirst]; exact hf), hfirst]
    | ok b =>
      have hrest (time more : Milliseconds) :
          (cancel.map (· - time)).map (· - more) = cancel.map (· - (time + more)) := by
        simp [Function.comp_def, Nat.sub_sub]
      rw [trace_bind_of_ok hf, trace_bind_of_ok (by rw [hfirst]; exact hf), hfirst]
      simp only [hrest, Trace.shift_append, Trace.shift_shift, List.append_assoc, Nat.add_assoc]

/-- A cancellation cuts the run off and changes nothing else. -/
structure Interruptible (x : Run α) : Prop where
  timely : x.finish.IsTimely
  trace : ∀ t, 0 < t → x.trace (some t) = x.finish.cut t

namespace Interruptible

theorem of_instant {x : Run α} (htimely : x.finish.IsTimely) (helapsed : x.finish.elapsed = 0)
    (htrace : ∀ cancel, x.trace cancel = x.finish) : x.Interruptible where
  timely := htimely
  trace t ht := by
    rw [htrace, Trace.cut_of_lt]
    rw [helapsed]
    exact ht

theorem pure (a : α) : (Pure.pure a : Run α).Interruptible :=
  of_instant nofun rfl fun _ => rfl

theorem fail (e : Error) : (Run.fail e : Run α).Interruptible :=
  of_instant nofun rfl fun _ => rfl

theorem record (e : Event) : (Run.record e).Interruptible := by
  refine of_instant (fun event hevent => ?_) rfl fun _ => rfl
  rw [List.mem_singleton.mp hevent]
  exact Nat.le_refl 0

theorem wait (duration : Milliseconds) : (Run.wait duration).Interruptible where
  timely := nofun
  trace t _ := by
    by_cases h : t ≤ duration
    · rw [Trace.cut_of_le h, Run.wait]
      exact if_pos h
    · rw [Trace.cut_of_lt (Nat.lt_of_not_le h), Run.wait]
      exact if_neg h

theorem bind {x : Run α} {f : α → Run β} (hx : x.Interruptible)
    (hf : ∀ a, (f a).Interruptible) : (x >>= f).Interruptible where
  timely := hx.timely.andThen fun a => (hf a).timely
  trace t ht := by
    have htrace := hx.trace t ht
    rw [trace_bind, htrace, finish_bind]
    by_cases h : x.finish.elapsed < t
    · have hrest : 0 < t - x.finish.elapsed := Nat.sub_pos_of_lt h
      rw [Trace.cut_of_lt h, ← Trace.andThen_cut_of_lt hx.timely h]
      congr 1
      funext a
      exact (hf a).trace _ hrest
    · have hle : t ≤ x.finish.elapsed := Nat.le_of_not_lt h
      rw [← Trace.andThen_cut_of_le hle, Trace.cut_of_le hle]
      rfl

/-- A run that does not even start when it was cancelled before is cut off at whatever time. -/
theorem trace_unlessCancelled {x : Run α} (hx : x.Interruptible) (t : Milliseconds) :
    x.unlessCancelled.trace (some t) = x.finish.cut t := by
  by_cases h : t = 0
  · subst h
    rw [Trace.cut_of_le (Nat.zero_le _), List.filter_eq_nil_iff.mpr (by simp)]
    rfl
  · have hsome : some t ≠ some 0 := fun hzero => h (Option.some.inj hzero)
    show (if some t = some 0 then _ else x.trace (some t)) = x.finish.cut t
    rw [if_neg hsome]
    exact hx.trace t (Nat.pos_of_ne_zero h)

end Interruptible

end Run
end RowPolicy
