import RowPolicy.Duration

/-!
Settings: how large a query may be, and how policies are registered and run.
-/
namespace RowPolicy

structure QueryLimits where
  includeDepth : UInt64 := 4
  filterDepth : UInt64 := 32
  pageSize : UInt64 := 1000
deriving DecidableEq

inductive Duplicates where
  | replace | error
deriving DecidableEq

def Duplicates.name : Duplicates → String
  | replace => "replace"
  | error => "error"

structure PolicySettings where
  timeout : UInt64 := 2000
  concurrency : UInt64 := 8
  duplicates : Duplicates := .replace
  requireByDefault : Bool := false
deriving DecidableEq

structure Settings where
  limits : QueryLimits := {}
  policy : PolicySettings := {}
deriving DecidableEq

/-- The time a rule has when it sets none of its own. -/
def PolicySettings.budget (s : PolicySettings) : Milliseconds := s.timeout.toNat

end RowPolicy
