/-!
Spans of time in whole milliseconds, as a message shows them: in seconds from one second on, with
no more digits than needed, and in milliseconds below that.
-/
namespace RowPolicy

abbrev Milliseconds := Nat

namespace Milliseconds

/-- The thousandths behind the point, without trailing zeros. -/
def fraction (ms : Nat) : String :=
  if ms = 0 then ""
  else
    let digits := [ms / 100, ms / 10 % 10, ms % 10].map fun d => Char.ofNat (48 + d)
    "." ++ String.ofList (digits.reverse.dropWhile (· == '0')).reverse

def text (ms : Milliseconds) : String :=
  if ms = 0 then "0ns"
  else if ms < 1000 then toString ms ++ "ms"
  else toString (ms / 1000) ++ fraction (ms % 1000) ++ "s"

end Milliseconds
end RowPolicy
