import RowPolicy.JsonReader
import RowPolicy.Timestamp
import RowPolicy.Toml

/-!
Reading TOML text. A document is a sequence of lines, each with a header, an assignment or nothing,
and possibly a comment. Readers take the text from their part on and give back the text behind it.
-/
namespace RowPolicy.TomlReader

/-- So many containers at most stand around a value, and so many keys in a path. -/
def maxNesting : Nat := 79

def isBlank (c : Char) : Bool := c == ' ' || c == '\t'

/-- Characters of ASCII that show something, tabs, and all beyond ASCII. -/
def isPlain (c : Char) : Bool := c == '\t' || (' ' ≤ c && c ≤ '~') || '\x7f' < c

def isDigit (c : Char) : Bool := '0' ≤ c && c ≤ '9'

def isBareKey (c : Char) : Bool :=
  isDigit c || ('a' ≤ c && c ≤ 'z') || ('A' ≤ c && c ≤ 'Z') || c == '-' || c == '_'

def skipBlanks (text : List Char) : List Char := text.dropWhile isBlank

def newline? : List Char → Option (List Char)
  | '\n' :: rest => some rest
  | '\r' :: '\n' :: rest => some rest
  | _ => none

def skipComment : List Char → List Char
  | '#' :: rest => rest.dropWhile isPlain
  | text => text

def endOfLine? (text : List Char) : Option (List Char) :=
  match skipComment (skipBlanks text) with
  | [] => some []
  | rest => newline? rest

def skipLines : Nat → List Char → List Char
  | 0, text => text
  | fuel + 1, text =>
    match skipComment (skipBlanks text) with
    | '\n' :: rest => skipLines fuel rest
    | '\r' :: '\n' :: rest => skipLines fuel rest
    | rest => rest

def codePoint? (digits : List Char) : Option Char := do
  let n ← digits.foldlM (fun n c => (Json.hexValue? c).map (n * 16 + ·)) 0
  if h : n.isValidChar then some (Char.ofNatAux n h) else none

def escape? : List Char → Option (Char × List Char)
  | 'b' :: rest => some (Char.ofNat 8, rest)
  | 't' :: rest => some ('\t', rest)
  | 'n' :: rest => some ('\n', rest)
  | 'f' :: rest => some (Char.ofNat 12, rest)
  | 'r' :: rest => some ('\r', rest)
  | '"' :: rest => some ('"', rest)
  | '\\' :: rest => some ('\\', rest)
  | 'u' :: rest => do
    let digits := rest.take 4
    if digits.length = 4 then some (← codePoint? digits, rest.drop 4) else none
  | 'U' :: rest => do
    let digits := rest.take 8
    if digits.length = 8 then some (← codePoint? digits, rest.drop 8) else none
  | _ => none

def basicText? : Nat → List Char → Option (List Char × List Char)
  | 0, _ => none
  | _ + 1, '"' :: rest => some ([], rest)
  | fuel + 1, '\\' :: rest => do
    let (c, rest) ← escape? rest
    let (text, rest) ← basicText? fuel rest
    return (c :: text, rest)
  | fuel + 1, c :: rest => do
    if !isPlain c then none
    let (text, rest) ← basicText? fuel rest
    return (c :: text, rest)
  | _ + 1, [] => none

def literalText? : List Char → Option (List Char × List Char)
  | [] => none
  | '\'' :: rest => some ([], rest)
  | c :: rest => do
    if !isPlain c then none
    let (text, rest) ← literalText? rest
    return (c :: text, rest)

def skipSpace : List Char → List Char
  | '\r' :: '\n' :: rest => skipSpace rest
  | c :: rest => if isBlank c || c == '\n' then skipSpace rest else c :: rest
  | [] => []

/-- A backslash that ends a line takes the blanks and line breaks behind it along. -/
def joinLines? (text : List Char) : Option (List Char) :=
  (newline? (skipBlanks text)).map skipSpace

/-- The rest of a text over several lines, closed by three quotes. Up to two more quotes before
the closing ones belong to the text. -/
def longText? (quote : Char) (escapes : Bool) : Nat → List Char → Option (List Char × List Char)
  | 0, _ => none
  | _ + 1, [] => none
  | fuel + 1, c :: rest => do
    let take (c : Char) (rest : List Char) : Option (List Char × List Char) := do
      let (text, rest) ← longText? quote escapes fuel rest
      return (c :: text, rest)
    if c == quote then
      let quotes := (c :: rest).takeWhile (· == quote)
      if 3 ≤ quotes.length then
        let kept := min (quotes.length - 3) 2
        some (List.replicate kept quote, (c :: rest).drop (kept + 3))
      else take c rest
    else match newline? (c :: rest) with
      | some rest => take '\n' rest
      | none =>
        if c == '\\' && escapes then
          match joinLines? rest with
          | some rest => longText? quote escapes fuel rest
          | none => do
            let (c, rest) ← escape? rest
            take c rest
        else if isPlain c then take c rest
        else none

/-- A line break right behind the opening quotes is not part of the text. -/
def afterOpening (text : List Char) : List Char := (newline? text).getD text

def quoted? : List Char → Option (String × List Char)
  | '"' :: '"' :: '"' :: rest => do
    let (text, rest) ← longText? '"' true (rest.length + 1) (afterOpening rest)
    return (String.ofList text, rest)
  | '"' :: rest => do
    let (text, rest) ← basicText? (rest.length + 1) rest
    return (String.ofList text, rest)
  | '\'' :: '\'' :: '\'' :: rest => do
    let (text, rest) ← longText? '\'' false (rest.length + 1) (afterOpening rest)
    return (String.ofList text, rest)
  | '\'' :: rest => do
    let (text, rest) ← literalText? rest
    return (String.ofList text, rest)
  | _ => none

def simpleKey? : List Char → Option (String × List Char)
  | '"' :: rest => do
    let (text, rest) ← basicText? (rest.length + 1) rest
    return (String.ofList text, rest)
  | '\'' :: rest => do
    let (text, rest) ← literalText? rest
    return (String.ofList text, rest)
  | text =>
    let name := text.takeWhile isBareKey
    if name.isEmpty then none else some (String.ofList name, text.dropWhile isBareKey)

def keyPath? : Nat → List Char → Option (List String × List Char)
  | 0, _ => none
  | fuel + 1, text => do
    let (key, rest) ← simpleKey? (skipBlanks text)
    match skipBlanks rest with
    | '.' :: rest => do
      let (path, rest) ← keyPath? fuel rest
      return (key :: path, rest)
    | rest => return ([key], rest)

/-- The digits of a number, with single underscores between them, which are dropped. -/
def digits (accept : Char → Bool) : List Char → List Char × List Char
  | '_' :: c :: rest =>
    if accept c then
      let (ds, rest) := digits accept rest
      (c :: ds, rest)
    else ([], '_' :: c :: rest)
  | c :: rest =>
    if accept c then
      let (ds, rest) := digits accept rest
      (c :: ds, rest)
    else ([], c :: rest)
  | [] => ([], [])

def digits? (accept : Char → Bool) : List Char → Option (List Char × List Char)
  | c :: rest => if accept c then some (digits accept (c :: rest)) else none
  | [] => none

def sign : List Char → Bool × List Char
  | '-' :: rest => (true, rest)
  | '+' :: rest => (false, rest)
  | text => (false, text)

/-- A decimal integer; a leading zero stands alone. -/
def decimal? (text : List Char) : Option (List Char × List Char) :=
  match text with
  | '0' :: rest => some (['0'], rest)
  | _ => digits? isDigit text

def integer? (negative : Bool) (base : Nat) (ds : List Char) : Option TomlValue := do
  let n ← ds.foldlM (fun n c => (Json.hexValue? c).map (n * base + ·)) 0
  let i : Int := if negative then -(n : Int) else n
  if i < 0x8000000000000000 then (Number.ofInt? i).map .integer else none

def float? (negative : Bool) (whole fraction : List Char) (exponent : Bool × List Char) :
    Option TomlValue :=
  let power : Int := Json.naturalOf exponent.2
  let power := if exponent.1 then -power else power
  let x := Double.ofDecimal negative (Json.naturalOf (whole ++ fraction)) (power - fraction.length)
  if x = Double.infinity false then none else some (.float x)

def exponent? : List Char → Option ((Bool × List Char) × List Char)
  | c :: rest =>
    if c == 'e' || c == 'E' then do
      let (down, rest) := sign rest
      let (ds, rest) ← digits? isDigit rest
      return ((down, ds), rest)
    else none
  | [] => none

def number? (text : List Char) : Option (TomlValue × List Char) :=
  match text with
  | '0' :: 'x' :: rest => radix? 16 (fun c => (Json.hexValue? c).isSome) rest
  | '0' :: 'o' :: rest => radix? 8 (fun c => '0' ≤ c && c ≤ '7') rest
  | '0' :: 'b' :: rest => radix? 2 (fun c => c == '0' || c == '1') rest
  | _ =>
    let (negative, rest) := sign text
    match rest with
    | 'i' :: 'n' :: 'f' :: rest => some (.float (.infinity negative), rest)
    | 'n' :: 'a' :: 'n' :: rest => some (.float .notANumber, rest)
    | _ => do
      let (whole, rest) ← decimal? rest
      match rest with
      | '.' :: afterPoint => do
        let (fraction, rest) ← digits? isDigit afterPoint
        match exponent? rest with
        | some (e, rest) => return (← float? negative whole fraction e, rest)
        | none => return (← float? negative whole fraction (false, []), rest)
      | _ =>
        match exponent? rest with
        | some (e, rest) => return (← float? negative whole [] e, rest)
        | none => return (← integer? negative 10 whole, rest)
where
  radix? (base : Nat) (accept : Char → Bool) (rest : List Char) :
      Option (TomlValue × List Char) := do
    let (ds, rest) ← digits? accept rest
    return (← integer? false base ds, rest)

def twoDigits (n : Nat) : List Char := [Char.ofNat (48 + n / 10), Char.ofNat (48 + n % 10)]

def date? (text : List Char) : Option (List Char × List Char) := do
  let rest ← Timestamp.date? text
  return (text.take 10, rest)

/-- A fraction of a second, cut to nine digits and without trailing zeros. -/
def fraction (ds : List Char) : List Char :=
  match ((ds.take 9).reverse.dropWhile (· == '0')).reverse with
  | [] => []
  | kept => '.' :: kept

def time? (text : List Char) : Option (List Char × List Char) := do
  let (hour, rest) ← Timestamp.twoDigits? text
  let (minute, rest) ← Timestamp.twoDigits? (← Timestamp.skip? (· == ':') rest)
  let (second, rest) ← Timestamp.twoDigits? (← Timestamp.skip? (· == ':') rest)
  if 23 < hour || 59 < minute || 60 < second then none
  match rest with
  | '.' :: c :: more =>
    if isDigit c then
      let ds := (c :: more).takeWhile isDigit
      return (text.take 8 ++ fraction ds, (c :: more).dropWhile isDigit)
    else return (text.take 8, rest)
  | _ => return (text.take 8, rest)

/-- An offset and the text behind it; an offset of nothing has a plus sign. -/
def offset? : List Char → Option (List Char × List Char)
  | 'Z' :: rest => some (['Z'], rest)
  | 'z' :: rest => some (['Z'], rest)
  | c :: rest => do
    if c != '+' && c != '-' then none
    let (hours, rest) ← Timestamp.twoDigits? rest
    let (minutes, rest) ← Timestamp.twoDigits? (← Timestamp.skip? (· == ':') rest)
    if 23 < hours || 59 < minutes then none
    let c := if hours = 0 ∧ minutes = 0 then '+' else c
    return (c :: twoDigits hours ++ ':' :: twoDigits minutes, rest)
  | [] => none

def datetime? (text : List Char) : Option (TomlValue × List Char) :=
  match date? text with
  | some (date, rest) =>
    let plain := some (.datetime (String.ofList date), rest)
    match rest with
    | c :: rest =>
      if c == 'T' || c == 't' || c == ' ' then
        match time? rest with
        | some (time, rest) =>
          match offset? rest with
          | some (offset, rest) =>
            some (.datetime (String.ofList (date ++ 'T' :: time ++ offset)), rest)
          | none => some (.datetime (String.ofList (date ++ 'T' :: time)), rest)
        | none => plain
      else plain
    | [] => plain
  | none =>
    match time? text with
    | some (time, rest) => some (.datetime (String.ofList time), rest)
    | none => none

def plainValue? (text : List Char) : Option (TomlValue × List Char) :=
  match quoted? text with
  | some (s, rest) => some (.text s, rest)
  | none =>
    match text with
    | 't' :: 'r' :: 'u' :: 'e' :: rest => some (.truth true, rest)
    | 'f' :: 'a' :: 'l' :: 's' :: 'e' :: rest => some (.truth false, rest)
    | _ =>
      match datetime? text with
      | some found => some found
      | none => number? text

abbrev ValueReader := List Char → Option (TomlValue × List Char)

/-- The items of an array behind its opening bracket; a comma may follow the last. -/
def items? (read : ValueReader) : Nat → List Char → Option (List TomlValue × List Char)
  | 0, _ => none
  | fuel + 1, text =>
    match skipLines text.length text with
    | ']' :: rest => some ([], rest)
    | text => do
      let (item, rest) ← read text
      match skipLines rest.length rest with
      | ']' :: rest => return ([item], rest)
      | ',' :: rest => do
        let (more, rest) ← items? read fuel rest
        return (item :: more, rest)
      | _ => none

def assignment? (read : ValueReader) (text : List Char) :
    Option ((List String × TomlValue) × List Char) := do
  let (path, rest) ← keyPath? text.length text
  if maxNesting < path.length then none
  match rest with
  | '=' :: rest => do
    let (value, rest) ← read (skipBlanks rest)
    return ((path, value), rest)
  | _ => none

/-- The assignments of an inline table from the first on; no comma follows the last. -/
def assignments? (read : ValueReader) :
    Nat → List Char → Option (List (List String × TomlValue) × List Char)
  | 0, _ => none
  | fuel + 1, text => do
    let (one, rest) ← assignment? read text
    match skipBlanks rest with
    | '\x7d' :: rest => return ([one], rest)
    | ',' :: rest => do
      let (more, rest) ← assignments? read fuel rest
      return (one :: more, rest)
    | _ => none

def value? : Nat → ValueReader
  | depth + 1, '[' :: rest => do
    let (items, rest) ← items? (value? depth) rest.length rest
    return (.array items, rest)
  | depth + 1, '\x7b' :: rest =>
    match skipBlanks rest with
    | '\x7d' :: rest => some (.table [], rest)
    | rest => do
      let (assignments, rest) ← assignments? (value? depth) rest.length rest
      return (← TomlValue.ofAssignments? assignments, rest)
  | _, text => plainValue? text

def header? (text : List Char) : Option (TomlStatement × List Char) := do
  let checked (path : List String) : Option (List String) :=
    if maxNesting < path.length then none else some path
  match text with
  | '[' :: '[' :: rest => do
    let (path, rest) ← keyPath? rest.length rest
    match rest with
    | ']' :: ']' :: rest => return (.arrayHeader (← checked path), rest)
    | _ => none
  | '[' :: rest => do
    let (path, rest) ← keyPath? rest.length rest
    match rest with
    | ']' :: rest => return (.header (← checked path), rest)
    | _ => none
  | _ => none

def statement? (text : List Char) : Option (Option TomlStatement × List Char) :=
  match text with
  | [] => some (none, [])
  | c :: _ =>
    if c == '[' then (header? text).map fun (s, rest) => (some s, rest)
    else if c == '#' || c == '\n' || c == '\r' then some (none, text)
    else (assignment? (value? maxNesting) text).map fun ((path, v), rest) =>
      (some (.assign path v), rest)

def statements? : Nat → List Char → Option (List TomlStatement)
  | _, [] => some []
  | 0, _ :: _ => none
  | fuel + 1, text => do
    let (one, rest) ← statement? (skipBlanks text)
    let more ← statements? fuel (← endOfLine? rest)
    return one.toList ++ more

/-- The table a document holds; a byte order mark may stand before it. -/
def parse? (text : String) : Option TomlValue := do
  let chars := match text.toList with
    | '\ufeff' :: rest => rest
    | chars => chars
  TomlDocument.ofStatements? (← statements? chars.length chars)

end RowPolicy.TomlReader

namespace RowPolicy

def Form.ofToml? {α : Type} (form : Form α) (text : String) : Option α := do
  let document ← TomlReader.parse? text
  form.ofJson? (← document.toJson? form.shape).tidy

end RowPolicy
