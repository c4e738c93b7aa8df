import RowPolicy.Form
import RowPolicy.Settings

/-!
The JSON form of settings; whatever is left out has its default.
-/
namespace RowPolicy

namespace QueryLimits

def form : Form QueryLimits :=
  let start : QueryLimits := {}
  .record <| QueryLimits.mk <$> .withDefault "max_include_depth" start.includeDepth .count
    <*> .withDefault "max_filter_depth" start.filterDepth .count
    <*> .withDefault "max_limit" start.pageSize .count

def toJson (l : QueryLimits) : Json :=
  .obj [("max_filter_depth", .ofUInt64 l.filterDepth),
    ("max_include_depth", .ofUInt64 l.includeDepth), ("max_limit", .ofUInt64 l.pageSize)]

end QueryLimits

def Duplicates.form : Form Duplicates := .choice fun
  | "replace" => some .replace
  | "error" => some .error
  | _ => none

namespace PolicySettings

def form : Form PolicySettings :=
  let start : PolicySettings := {}
  .record <| PolicySettings.mk <$> .withDefault "timeout_ms" start.timeout .count
    <*> .withDefault "max_concurrent_rules" start.concurrency .count
    <*> .withDefault "duplicate_registration" start.duplicates Duplicates.form
    <*> .withDefault "require_rls_by_default" start.requireByDefault .truth

def toJson (s : PolicySettings) : Json :=
  .obj [("duplicate_registration", .str s.duplicates.name),
    ("max_concurrent_rules", .ofUInt64 s.concurrency),
    ("require_rls_by_default", .bool s.requireByDefault), ("timeout_ms", .ofUInt64 s.timeout)]

end PolicySettings

namespace Settings

def form : Form Settings := .record <|
  Settings.mk <$> .withDefault "parser" {} QueryLimits.form
    <*> .withDefault "policy" {} PolicySettings.form

def toJson (s : Settings) : Json :=
  .obj [("parser", s.limits.toJson), ("policy", s.policy.toJson)]

end Settings
end RowPolicy
