/-!
Small operations on text.
-/
namespace RowPolicy

/-- Letters of ASCII in lower case; all other characters stay. -/
def asciiLower (s : String) : String := s.map Char.toLower

def cutAtDot (text : String) : String × Option String :=
  let cs := text.toList
  match cs.dropWhile (· != '.') with
  | [] => (text, none)
  | _ :: rest => (String.ofList (cs.takeWhile (· != '.')), some (String.ofList rest))

end RowPolicy
