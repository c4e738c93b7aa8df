import RowPolicy.Double
import RowPolicy.Table

/-!
JSON values. A number is an integer of sixty-four bits, signed or unsigned, or a finite binary64
value, and the two kinds never mix: `1` and `1.0` are different numbers. Objects are tables; a
tidy value has the members of every object sorted by key, each key once.
-/
namespace RowPolicy

inductive Number where
  | int (value : Int) (inRange : -0x8000000000000000 ≤ value ∧ value < 0x10000000000000000)
  | float (value : Double) (finite : value.isFinite = true)
deriving DecidableEq

namespace Number

def ofInt? (i : Int) : Option Number :=
  if h : -0x8000000000000000 ≤ i ∧ i < 0x10000000000000000 then some (.int i h) else none

def ofDouble? (x : Double) : Option Number :=
  if h : x.isFinite = true then some (.float x h) else none

def ofInt64 (i : Int64) : Number :=
  .int i.toInt ⟨by have := i.le_toInt; omega, by have := i.toInt_lt; omega⟩

def ofUInt64 (n : UInt64) : Number :=
  .int n.toNat ⟨by omega, by have := n.toNat_lt; omega⟩

/-- A signed integer; a float never counts as one, whatever its value. -/
def toInt64? : Number → Option Int64
  | .int i _ => if i < 0x8000000000000000 then some (Int64.ofInt i) else none
  | .float _ _ => none

def toUInt64? : Number → Option UInt64
  | .int i _ => if 0 ≤ i then some (UInt64.ofNat i.toNat) else none
  | .float _ _ => none

def toDouble : Number → Double
  | .int i _ => Double.ofInt i
  | .float x _ => x

end Number

inductive Json where
  | null
  | bool (b : Bool)
  | num (n : Number)
  | str (s : String)
  | arr (items : List Json)
  | obj (members : List (String × Json))

namespace Json

def isNull : Json → Bool
  | null => true
  | _ => false

def str? : Json → Option String
  | str s => some s
  | _ => none

def bool? : Json → Option Bool
  | bool b => some b
  | _ => none

def arr? : Json → Option (List Json)
  | arr items => some items
  | _ => none

def obj? : Json → Option (Table Json)
  | obj members => some members
  | _ => none

def uint64? : Json → Option UInt64
  | num n => n.toUInt64?
  | _ => none

def ofInt64 (i : Int64) : Json := num (.ofInt64 i)

def ofUInt64 (n : UInt64) : Json := num (.ofUInt64 n)

def ofNat (n : Nat) : Json := num (.ofUInt64 (UInt64.ofNat n))

/-- A value that is not finite has no JSON form but null. -/
def ofDouble (x : Double) : Json :=
  match Number.ofDouble? x with
  | some n => num n
  | none => null

def ofStrings (texts : List String) : Json := arr (texts.map str)

def ofOption {α : Type} (f : α → Json) : Option α → Json
  | none => null
  | some a => f a

/-- An object from its members, sorted; of a repeated key the last member stands. -/
def mkObj (members : List (String × Json)) : Json := obj (Table.ofList members)

mutual
/-- Sort the members of every object, at every depth. -/
def tidy : Json → Json
  | arr items => arr (tidyItems items)
  | obj members => obj (tidyMembers [] members)
  | null => null
  | bool b => bool b
  | num n => num n
  | str s => str s

def tidyItems : List Json → List Json
  | [] => []
  | item :: items => item.tidy :: tidyItems items

def tidyMembers (sorted : List (String × Json)) : List (String × Json) → List (String × Json)
  | [] => sorted
  | (key, value) :: members => tidyMembers (Table.insert key value.tidy sorted) members
end

end Json
end RowPolicy
