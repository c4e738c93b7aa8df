import RowPolicy.Text

/-!
Actions that a query is compiled for. Four are built in, two of them under a second name; any
other name, in lower case, is an action of the application.
-/
namespace RowPolicy

inductive Action where
  | read | create | update | delete
  | custom (name : String)
deriving DecidableEq

namespace Action

def ofName (name : String) : Action :=
  match asciiLower name with
  | "read" => read
  | "select" => read
  | "create" => create
  | "insert" => create
  | "update" => update
  | "delete" => delete
  | other => custom other

def name : Action → String
  | read => "read"
  | create => "create"
  | update => "update"
  | delete => "delete"
  | custom name => name

/-- The built-in actions come first, in this order, the others by name. -/
def rank : Action → Nat
  | read => 0
  | create => 1
  | update => 2
  | delete => 3
  | custom _ => 4

def le (a b : Action) : Bool :=
  a.rank < b.rank || a.rank == b.rank && (a.name < b.name || a.name == b.name)

end Action
end RowPolicy
