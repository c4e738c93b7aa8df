import RowPolicy.JsonText

/-!
Scalars: the values that conditions compare fields with and that identify subjects. A number is
an integer when it is a signed integer of sixty-four bits, and a float otherwise.
-/
namespace RowPolicy

inductive Scalar where
  | bool (b : Bool)
  | int (i : Int64)
  | float (x : Double)
  | text (s : String)
deriving DecidableEq

namespace Scalar

def ofNumber (n : Number) : Scalar :=
  match n.toInt64? with
  | some i => .int i
  | none => .float n.toDouble

def ofJson? : Json → Option Scalar
  | .bool b => some (.bool b)
  | .num n => some (ofNumber n)
  | .str s => some (.text s)
  | _ => none

def toJson : Scalar → Json
  | bool b => .bool b
  | int i => .ofInt64 i
  | float x => .ofDouble x
  | text s => .str s

/-- A scalar as a message shows it, text in single quotes. -/
def display : Scalar → String
  | bool b => if b then "true" else "false"
  | int i => toString i.toInt
  | float x => x.display
  | text s => "'" ++ s ++ "'"

def listOfJson? : List Json → Option (List Scalar)
  | [] => some []
  | item :: items => do return (← ofJson? item) :: (← listOfJson? items)

end Scalar
end RowPolicy
