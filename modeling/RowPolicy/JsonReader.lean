import RowPolicy.Form

/-!
Reading JSON text. The text is cut into tokens, and the tokens are folded into a tree with a stack
of the containers that are still open. In this tree texts and numbers are as they are written; what
they stand for is asked only where the form of the data looks, and only there are containers held
to nest at most `maxNesting` deep. A number is read as an integer when its text has neither point
nor exponent and it fits sixty-four bits.
-/
namespace RowPolicy.Json

/-- Containers around a value, itself included; one more is refused. -/
def maxNesting : Nat := 127

def isBlank (c : Char) : Bool := c = ' ' || c = '\n' || c = '\t' || c = '\r'

def hexValue? (c : Char) : Option Nat :=
  if '0' ≤ c ∧ c ≤ '9' then some (c.toNat - 48)
  else if 'a' ≤ c ∧ c ≤ 'f' then some (c.toNat - 87)
  else if 'A' ≤ c ∧ c ≤ 'F' then some (c.toNat - 55)
  else none

def unit? (a b c d : Char) : Option Nat := do
  return (((← hexValue? a) * 16 + (← hexValue? b)) * 16 + (← hexValue? c)) * 16 + (← hexValue? d)

def escaped? : Char → Option Char
  | '"' => some '"'
  | '\\' => some '\\'
  | '/' => some '/'
  | 'b' => some (Char.ofNat 8)
  | 'f' => some (Char.ofNat 12)
  | 'n' => some '\n'
  | 'r' => some '\r'
  | 't' => some '\t'
  | _ => none

/-- The rest of a text after its opening quote: what is written up to the closing quote, and what
stands behind that. Every escape has a right shape, and no control character is bare. -/
def quoted? : List Char → Option (List Char × List Char)
  | [] => none
  | '"' :: rest => some ([], rest)
  | '\\' :: 'u' :: a :: b :: c :: d :: rest => do
    let _ ← unit? a b c d
    let (written, rest) ← quoted? rest
    return ('\\' :: 'u' :: a :: b :: c :: d :: written, rest)
  | '\\' :: c :: rest => do
    let _ ← escaped? c
    let (written, rest) ← quoted? rest
    return ('\\' :: c :: written, rest)
  | c :: rest => do
    if c = '\\' ∨ c.toNat < 32 then none
    let (written, rest) ← quoted? rest
    return (c :: written, rest)

/-- The characters that a written text stands for. Two code units are joined when the first opens
a surrogate pair, and a surrogate that stands alone is refused. -/
def unescape? : List Char → Option (List Char)
  | [] => some []
  | '\\' :: 'u' :: a :: b :: c :: d :: '\\' :: 'u' :: e :: f :: g :: h :: rest => do
    let high ← unit? a b c d
    let low ← unit? e f g h
    if 0xd800 ≤ high ∧ high < 0xdc00 then
      if 0xdc00 ≤ low ∧ low < 0xe000 then
        let c := Char.ofNat (0x10000 + (high - 0xd800) * 0x400 + (low - 0xdc00))
        return c :: (← unescape? rest)
      else none
    else if 0xdc00 ≤ high ∧ high < 0xe000 then none
    else return Char.ofNat high :: (← unescape? ('\\' :: 'u' :: e :: f :: g :: h :: rest))
  | '\\' :: 'u' :: a :: b :: c :: d :: rest => do
    let code ← unit? a b c d
    if 0xd800 ≤ code ∧ code < 0xe000 then none
    else return Char.ofNat code :: (← unescape? rest)
  | '\\' :: c :: rest => do return (← escaped? c) :: (← unescape? rest)
  | c :: rest => do return c :: (← unescape? rest)

def text? (written : List Char) : Option String := (unescape? written).map String.ofList

structure Numeral where
  negative : Bool
  whole : List Char
  fraction : Option (List Char)
  exponent : Option (Bool × List Char)

def isDigit (c : Char) : Bool := '0' ≤ c && c ≤ '9'

def digitValue (c : Char) : Nat := c.toNat - 48

def naturalOf (digits : List Char) : Nat := digits.foldl (fun n c => n * 10 + digitValue c) 0

def numeral? (text : List Char) : Option (Numeral × List Char) := do
  let (negative, text) := match text with
    | '-' :: rest => (true, rest)
    | rest => (false, rest)
  let whole := text.takeWhile isDigit
  let text := text.dropWhile isDigit
  if whole.isEmpty || (whole.head? = some '0' && whole.length ≠ 1) then none
  let (fraction, text) ← match text with
    | '.' :: rest =>
      let digits := rest.takeWhile isDigit
      if digits.isEmpty then none else some (some digits, rest.dropWhile isDigit)
    | rest => some (none, rest)
  let exponentOf (rest : List Char) : Option (Option (Bool × List Char) × List Char) :=
    let (down, rest) := match rest with
      | '-' :: r => (true, r)
      | '+' :: r => (false, r)
      | r => (false, r)
    let digits := rest.takeWhile isDigit
    if digits.isEmpty then none else some (some (down, digits), rest.dropWhile isDigit)
  let (exponent, text) ← match text with
    | 'e' :: rest => exponentOf rest
    | 'E' :: rest => exponentOf rest
    | rest => some (none, rest)
  return (⟨negative, whole, fraction, exponent⟩, text)

/-- Digits are taken up while the number they spell fits sixty-four bits. -/
def takeUp : Nat → List Char → Nat × List Char
  | n, [] => (n, [])
  | n, c :: rest =>
    let more := n * 10 + digitValue c
    if more < 0x10000000000000000 then takeUp more rest else (n, c :: rest)

/-- The float a numeral stands for. Digits beyond sixty-four bits only move the point. -/
def Numeral.double? (n : Numeral) : Option Double := do
  let (digits, dropped) := takeUp 0 n.whole
  let fraction := n.fraction.getD []
  let (digits, unread) := takeUp digits fraction
  let point : Int := dropped.length - (fraction.length - unread.length : Nat)
  let power : Int := match n.exponent with
    | none => 0
    | some (true, e) => - (naturalOf e : Int)
    | some (false, e) => naturalOf e
  let magnitude ← Double.ofScaled? digits (point + power)
  return if n.negative then magnitude.neg else magnitude

def Numeral.number? (n : Numeral) : Option Number :=
  let float := n.double?.bind Number.ofDouble?
  match n.fraction, n.exponent with
  | none, none =>
    let value := naturalOf n.whole
    if n.negative && value == 0 then float
    else
      match Number.ofInt? (if n.negative then -value else value) with
      | some number => some number
      | none => float
  | _, _ => float

inductive Written where
  | word (value : Json)
  | text (written : List Char)
  | number (n : Numeral)
  | array (items : List Written)
  | object (members : List (List Char × Written))

inductive Token where
  | openArray | closeArray | openObject | closeObject | comma | colon
  | scalar (value : Written)

def token? : List Char → Option (Token × List Char)
  | '[' :: rest => some (.openArray, rest)
  | ']' :: rest => some (.closeArray, rest)
  | '\x7b' :: rest => some (.openObject, rest)
  | '\x7d' :: rest => some (.closeObject, rest)
  | ',' :: rest => some (.comma, rest)
  | ':' :: rest => some (.colon, rest)
  | '"' :: rest => (quoted? rest).map fun (written, rest) => (.scalar (.text written), rest)
  | 'n' :: 'u' :: 'l' :: 'l' :: rest => some (.scalar (.word .null), rest)
  | 't' :: 'r' :: 'u' :: 'e' :: rest => some (.scalar (.word (.bool true)), rest)
  | 'f' :: 'a' :: 'l' :: 's' :: 'e' :: rest => some (.scalar (.word (.bool false)), rest)
  | text => (numeral? text).map fun (n, rest) => (.scalar (.number n), rest)

/-- All tokens of a text; each takes at least one character, so the text's length bounds them. -/
def tokens? : Nat → List Char → Option (List Token)
  | _, [] => some []
  | 0, _ :: _ => none
  | fuel + 1, c :: rest =>
    if isBlank c then tokens? fuel rest
    else do
      let (token, rest) ← token? (c :: rest)
      return token :: (← tokens? fuel rest)

inductive Frame where
  | array (items : List Written)
  | object (members : List (List Char × Written)) (key : List Char)

inductive Expected where
  | value | firstItem | firstKey | key | colon (key : List Char) | separator | nothing

structure State where
  stack : List Frame
  expected : Expected
  result : Option Written

/-- A complete value goes into the innermost container, or is the result. -/
def State.complete (stack : List Frame) (value : Written) : State :=
  match stack with
  | [] => ⟨[], .nothing, some value⟩
  | .array items :: stack => ⟨.array (value :: items) :: stack, .separator, none⟩
  | .object members key :: stack =>
    ⟨.object ((key, value) :: members) key :: stack, .separator, none⟩

def step (state : State) (token : Token) : Option State :=
  match state.expected, token, state.stack with
  | .nothing, _, _ => none
  | .value, .scalar v, stack => some (.complete stack v)
  | .firstItem, .scalar v, stack => some (.complete stack v)
  | .value, .openArray, stack => some ⟨.array [] :: stack, .firstItem, none⟩
  | .firstItem, .openArray, stack => some ⟨.array [] :: stack, .firstItem, none⟩
  | .value, .openObject, stack => some ⟨.object [] [] :: stack, .firstKey, none⟩
  | .firstItem, .openObject, stack => some ⟨.object [] [] :: stack, .firstKey, none⟩
  | .firstItem, .closeArray, .array _ :: stack => some (.complete stack (.array []))
  | .firstKey, .closeObject, .object _ _ :: stack => some (.complete stack (.object []))
  | .firstKey, .scalar (.text key), stack => some ⟨stack, .colon key, none⟩
  | .key, .scalar (.text key), stack => some ⟨stack, .colon key, none⟩
  | .colon key, .colon, .object members _ :: stack =>
    some ⟨.object members key :: stack, .value, none⟩
  | .separator, .comma, .array items :: stack => some ⟨.array items :: stack, .value, none⟩
  | .separator, .comma, .object members k :: stack => some ⟨.object members k :: stack, .key, none⟩
  | .separator, .closeArray, .array items :: stack => some (.complete stack (.array items.reverse))
  | .separator, .closeObject, .object members _ :: stack =>
    some (.complete stack (.object members.reverse))
  | _, _, _ => none

def written? (text : String) : Option Written := do
  let tokens ← tokens? text.length text.toList
  let state ← tokens.foldlM step ⟨[], .value, none⟩
  state.result

namespace Written

mutual
/-- The value that stands where a shape looks, the members of its objects in the order in which
they are written. At most `depth` containers may nest in it. -/
def toJson? : Nat → Shape → Written → Option Json
  | _, _, word value => some value
  | _, _, text written => (text? written).map .str
  | _, _, number n => n.number?.map .num
  | 0, _, array _ => none
  | 0, _, object _ => none
  | depth + 1, shape, array items => (itemsToJson? depth shape items).map .arr
  | depth + 1, shape, object members => (membersToJson? depth shape members).map .obj

def itemsToJson? : Nat → Shape → List Written → Option (List Json)
  | _, _, [] => some []
  | depth, shape, item :: items => do
    let (first, rest) ← shape.next?
    return (← item.toJson? depth first) :: (← itemsToJson? depth rest items)

def membersToJson? : Nat → Shape → List (List Char × Written) → Option (List (String × Json))
  | _, _, [] => some []
  | depth, shape, (key, value) :: members => do
    let key ← text? key
    match shape.member? key with
    | none => membersToJson? depth shape members
    | some part =>
      return (key, ← value.toJson? depth part) :: (← membersToJson? depth shape members)
end

end Written

def parse? (text : String) : Option Json :=
  ((written? text).bind (·.toJson? maxNesting .json)).map tidy

end RowPolicy.Json

namespace RowPolicy

def Form.ofText? {α : Type} (form : Form α) (text : String) : Option α :=
  ((Json.written? text).bind (·.toJson? Json.maxNesting form.shape)).bind form.ofJson?

end RowPolicy
