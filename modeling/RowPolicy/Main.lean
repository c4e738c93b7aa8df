import RowPolicy.CommandLine

/-!
The command line program.
-/
namespace RowPolicy.CommandLine

/-- The options, each under its long and its short name, and the file names they give. -/
structure Options where
  declarations : Option String := none
  settings : String := "rowpolicy.toml"
  request : Request := {}

def Options.set? (o : Options) (name value : String) : Option Options :=
  match name with
  | "--declarations" | "-d" => some { o with declarations := some value }
  | "--config" | "-c" => some { o with settings := value }
  | "--model" | "-m" => some { o with request := { o.request with model := some value } }
  | "--action" | "-a" => some { o with request := { o.request with action := value } }
  | "--query" | "-q" => some { o with request := { o.request with query := value } }
  | "--actor" => some { o with request := { o.request with actor := some value } }
  | _ => none

def Options.ofArguments? (o : Options) : List String → Option Options
  | [] => some o
  | name :: value :: rest => do (← o.set? name value).ofArguments? rest
  | [_] => none

def contents? (file : String) : IO (Option String) := do
  try
    return some (← IO.FS.readFile file)
  catch _ =>
    return none

def run (o : Options) : IO UInt32 := do
  let some file := o.declarations
    | IO.eprintln "the option --declarations is missing"
      return 2
  let request : Request :=
    { o.request with declarations := ← contents? file, settings := ← contents? o.settings }
  let report := request.answer
  if let some json := report.output then IO.println (json.pretty 0)
  return report.code.toUInt32

end RowPolicy.CommandLine

open RowPolicy.CommandLine in
def main (args : List String) : IO UInt32 :=
  match Options.ofArguments? {} args with
  | some options => run options
  | none => do
    IO.eprintln "an option is unknown or has no value"
    return 2
