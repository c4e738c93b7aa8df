/-!
Timestamps after RFC 3339: a calendar date, one separator, a time of day with seconds up to sixty
and any number of fractional digits, and an offset of less than a day.
-/
namespace RowPolicy.Timestamp

def twoDigits? : List Char → Option (Nat × List Char)
  | a :: b :: rest =>
    if a.isDigit && b.isDigit then some ((a.toNat - 48) * 10 + (b.toNat - 48), rest) else none
  | _ => none

def skip? (p : Char → Bool) : List Char → Option (List Char)
  | c :: rest => if p c then some rest else none
  | [] => none

def isLeap (year : Nat) : Bool := year % 4 == 0 && (year % 100 != 0 || year % 400 == 0)

def daysIn (year month : Nat) : Nat :=
  if month = 2 then (if isLeap year then 29 else 28)
  else if month = 4 ∨ month = 6 ∨ month = 9 ∨ month = 11 then 30
  else 31

def isDate (year month day : Nat) : Bool :=
  1 ≤ month && month ≤ 12 && 1 ≤ day && day ≤ daysIn year month

def date? (text : List Char) : Option (List Char) := do
  let (century, text) ← twoDigits? text
  let (year, text) ← twoDigits? text
  let (month, text) ← twoDigits? (← skip? (· == '-') text)
  let (day, text) ← twoDigits? (← skip? (· == '-') text)
  if isDate (century * 100 + year) month day then some text else none

def fraction? : List Char → Option (List Char)
  | '.' :: rest => (skip? Char.isDigit rest).map (·.dropWhile Char.isDigit)
  | text => some text

/-- The text behind a time of day. A leap second may stand in any minute. -/
def time? (text : List Char) : Option (List Char) := do
  let (hour, text) ← twoDigits? text
  let (minute, text) ← twoDigits? (← skip? (· == ':') text)
  let (second, text) ← twoDigits? (← skip? (· == ':') text)
  if hour ≤ 23 ∧ minute ≤ 59 ∧ second ≤ 60 then fraction? text else none

/-- The text behind an offset; its sign may be the minus sign of typography. -/
def offset? : List Char → Option (List Char)
  | 'Z' :: rest => some rest
  | 'z' :: rest => some rest
  | text => do
    let (hours, text) ← twoDigits? (← skip? (fun c => c == '+' || c == '-' || c == '\u2212') text)
    let (minutes, text) ← twoDigits? (← skip? (· == ':') text)
    if hours ≤ 23 ∧ minutes ≤ 59 then some text else none

def isValid (text : String) : Bool :=
  let rest := do
    let text ← date? text.toList
    let text ← time? (← skip? (fun c => c == 'T' || c == 't' || c == ' ') text)
    offset? text
  rest == some []

end RowPolicy.Timestamp
