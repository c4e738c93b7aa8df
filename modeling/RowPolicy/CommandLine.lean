import RowPolicy.Declarations
import RowPolicy.JsonReader

/-!
What the command line does: compile one query for one actor under declared models and policies,
and report the compiled query, or the error, as JSON.
-/
namespace RowPolicy

structure Request where
  declarations : Option String := none
  settings : Option String := none
  model : Option String := none
  action : String := "read"
  query : String := "\x7b\x7d"
  actor : Option String := none

structure Report where
  code : UInt8
  output : Option Json

def Error.report (e : Error) : Json :=
  let place := match e with
    | .queryParse cause => [("path", .str cause.path), ("reason", .str cause.reason.code)]
    | _ => []
  .obj ([("error", .str e.code), ("message", .str e.message)] ++ place)

namespace Request

def guard? (r : Request) : Option Guard := do
  let settings ← match r.settings with
    | none => some {}
    | some text => Settings.ofToml? text
  let (.ok (), builder) := ((Declarations.load (← r.declarations)).run.run (.ofSettings settings))
    | none
  let .ok guard := builder.build | none
  return guard

def actor? (r : Request) : Option Actor :=
  match r.actor with
  | none => some .anonymous
  | some text => Actor.form.ofText? text

/-- Compile what is asked for; nothing if the request itself is faulty. -/
def compile? (r : Request) (model : String) : Option (Except Error CompiledQuery) := do
  let guard ← r.guard?
  let raw ← Json.parse? r.query
  let actor ← r.actor?
  return (guard.compile model (.ofName r.action) raw actor).finish.result

def answer (r : Request) : Report :=
  match r.model with
  | none => ⟨2, none⟩
  | some model =>
    match r.compile? model with
    | none => ⟨1, none⟩
    | some (.ok compiled) => ⟨0, some compiled.toJson⟩
    | some (.error e) => ⟨1, some e.report⟩

end Request
end RowPolicy
