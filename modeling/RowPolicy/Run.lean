import RowPolicy.Audit
import RowPolicy.Error

/-!
Runs of the policy engine. A run takes time, leaves audit events behind, each at its time, and ends
with a value or an error. Time passes only in waits, and there a cancellation is noticed; what
goes on after a wait has that much less time until the cancellation.
-/
namespace RowPolicy

/-- What a run leaves behind. -/
structure Trace (α : Type) where
  elapsed : Milliseconds
  events : List (Milliseconds × Event)
  result : Except Error α

namespace Trace

/-- The trace of a run that goes on after another with the error or the value of that one. -/
def andThen {α β : Type} (x : Trace α) (f : α → Trace β) : Trace β :=
  match x.result with
  | .error e => ⟨x.elapsed, x.events, .error e⟩
  | .ok a =>
    let y := f a
    ⟨x.elapsed + y.elapsed, x.events ++ y.events.map fun (t, e) => (x.elapsed + t, e), y.result⟩

def recorded {α : Type} (x : Trace α) : List Event := x.events.map (·.2)

end Trace

/-- A run, as a function of the time until it is cancelled, if it is. -/
structure Run (α : Type) where
  trace : Option Milliseconds → Trace α

namespace Run

def pure {α : Type} (a : α) : Run α := ⟨fun _ => ⟨0, [], .ok a⟩⟩

def fail {α : Type} (e : Error) : Run α := ⟨fun _ => ⟨0, [], .error e⟩⟩

def record (e : Event) : Run Unit := ⟨fun _ => ⟨0, [(0, e)], .ok ()⟩⟩

/-- Wait for some time. A cancellation that comes before the wait is over ends it, also one at its
very end. -/
def wait (duration : Milliseconds) : Run Unit := ⟨fun cancel =>
  match cancel with
  | none => ⟨duration, [], .ok ()⟩
  | some t => if t ≤ duration then ⟨t, [], .error .cancelled⟩ else ⟨duration, [], .ok ()⟩⟩

def bind {α β : Type} (x : Run α) (f : α → Run β) : Run β := ⟨fun cancel =>
  let first := x.trace cancel
  first.andThen fun a => (f a).trace (cancel.map (· - first.elapsed))⟩

instance : Monad Run where
  pure := Run.pure
  bind := Run.bind

/-- Do not even start when the cancellation came before. -/
def unlessCancelled {α : Type} (x : Run α) : Run α := ⟨fun cancel =>
  if cancel = some 0 then ⟨0, [], .error .cancelled⟩ else x.trace cancel⟩

def finish {α : Type} (x : Run α) : Trace α := x.trace none

@[simp] theorem trace_pure {α : Type} (a : α) (cancel : Option Milliseconds) :
    (Pure.pure a : Run α).trace cancel = ⟨0, [], .ok a⟩ := rfl

@[simp] theorem trace_fail {α : Type} (e : Error) (cancel : Option Milliseconds) :
    (fail e : Run α).trace cancel = ⟨0, [], .error e⟩ := rfl

theorem trace_bind {α β : Type} (x : Run α) (f : α → Run β) (cancel : Option Milliseconds) :
    (x >>= f).trace cancel = (x.trace cancel).andThen fun a =>
      (f a).trace (cancel.map (· - (x.trace cancel).elapsed)) := rfl

@[simp] theorem finish_bind {α β : Type} (x : Run α) (f : α → Run β) :
    (x >>= f).finish = x.finish.andThen fun a => (f a).finish := rfl

def result {α : Type} (x : Run α) : Except Error α := x.finish.result

@[simp] theorem result_pure {α : Type} (a : α) : (Pure.pure a : Run α).result = .ok a := rfl

@[simp] theorem result_fail {α : Type} (e : Error) : (fail e : Run α).result = .error e := rfl

@[simp] theorem result_record (e : Event) : (record e).result = .ok () := rfl

@[simp] theorem result_wait (duration : Milliseconds) : (wait duration).result = .ok () := rfl

@[simp] theorem result_unlessCancelled {α : Type} (x : Run α) :
    x.unlessCancelled.result = x.result := rfl

@[simp] theorem result_bind {α β : Type} (x : Run α) (f : α → Run β) :
    (x >>= f).result = x.result >>= fun a => (f a).result := by
  simp only [result, finish_bind, Trace.andThen]
  cases x.finish.result <;> rfl

end Run
end RowPolicy
