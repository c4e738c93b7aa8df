import RowPolicy.Json
import RowPolicy.Digits

/-!
JSON text in its compact form: no blanks, only the escapes that a reader cannot do without, and
floats with the fewest digits that read back.
-/
namespace RowPolicy

/-- Floats in JSON text are positional from `1e-5` up to `1e16`, and of two shortest decimals that
are equally near the even one is written. -/
def Double.jsonText (x : Double) : String :=
  let sign := if x.signed then "-" else ""
  if x.isZero then sign ++ "0.0"
  else
    let d := Decimal.shortest .toEven x
    let text := if -5 ≤ d.order ∧ d.order < 16 then d.positional ['.', '0'] else d.scientific
    sign ++ String.ofList text

/-- A float as a message shows it: always positional, a whole number without a point. -/
def Double.display (x : Double) : String :=
  let sign := if x.signed then "-" else ""
  if !x.isFinite then (if x.fractionField = 0 then sign ++ "inf" else "NaN")
  else if x.isZero then sign ++ "0"
  else sign ++ String.ofList ((Decimal.shortest .up x).positional [])

def Number.text : Number → String
  | .int i _ => toString i
  | .float x _ => x.jsonText

namespace Json

def hexDigit (n : Nat) : Char := if n < 10 then Char.ofNat (48 + n) else Char.ofNat (87 + n)

def escape (c : Char) : List Char :=
  if c = '"' then ['\\', '"']
  else if c = '\\' then ['\\', '\\']
  else if c = '\n' then ['\\', 'n']
  else if c = '\r' then ['\\', 'r']
  else if c = '\t' then ['\\', 't']
  else if c.toNat = 8 then ['\\', 'b']
  else if c.toNat = 12 then ['\\', 'f']
  else if c.toNat < 32 then
    ['\\', 'u', '0', '0', hexDigit (c.toNat / 16), hexDigit (c.toNat % 16)]
  else [c]

def quote (s : String) : String := "\"" ++ String.ofList (s.toList.flatMap escape) ++ "\""

mutual
def text : Json → String
  | null => "null"
  | bool true => "true"
  | bool false => "false"
  | num n => n.text
  | str s => quote s
  | arr items => "[" ++ textItems items ++ "]"
  | obj members => "\x7b" ++ textMembers members ++ "\x7d"

def textItems : List Json → String
  | [] => ""
  | [item] => item.text
  | item :: items => item.text ++ "," ++ textItems items

def textMembers : List (String × Json) → String
  | [] => ""
  | [(key, value)] => quote key ++ ":" ++ value.text
  | (key, value) :: members => quote key ++ ":" ++ value.text ++ "," ++ textMembers members
end

def indent (level : Nat) : String := "\n" ++ String.ofList (List.replicate (2 * level) ' ')

mutual
/-- The value over several lines, with two blanks for each level; empty containers stay closed. -/
def pretty (level : Nat) : Json → String
  | arr [] => "[]"
  | arr (item :: items) =>
    "[" ++ prettyItems (level + 1) (item :: items) ++ indent level ++ "]"
  | obj [] => "\x7b\x7d"
  | obj (member :: members) =>
    "\x7b" ++ prettyMembers (level + 1) (member :: members) ++ indent level ++ "\x7d"
  | null => "null"
  | bool b => (bool b).text
  | num n => n.text
  | str s => quote s

def prettyItems (level : Nat) : List Json → String
  | [] => ""
  | [item] => indent level ++ item.pretty level
  | item :: items => indent level ++ item.pretty level ++ "," ++ prettyItems level items

def prettyMembers (level : Nat) : List (String × Json) → String
  | [] => ""
  | [(key, value)] => indent level ++ quote key ++ ": " ++ value.pretty level
  | (key, value) :: members =>
    indent level ++ quote key ++ ": " ++ value.pretty level ++ "," ++ prettyMembers level members
end

end Json
end RowPolicy
