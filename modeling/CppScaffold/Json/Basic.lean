import CppScaffold.Json.Real
import CppScaffold.Text.Quoted

/-!
# JSON values

The fields of an object keep the order in which they were first written.
-/

namespace CppScaffold

inductive Json where
  | null
  | bool (b : Bool)
  | int (i : Int)
  | real (x : Real64)
  | str (s : Text)
  /-- A string that is no text, as it holds half of a surrogate pair alone; its code points. -/
  | unpaired (points : List Nat)
  | arr (items : List Json)
  | obj (fields : List (Text × Json))
  deriving Inhabited

namespace Json

instance : Coe Int Json := ⟨Json.int⟩
instance : Coe Bool Json := ⟨Json.bool⟩

def text (s : String) : Json := .str s.toList

def nat (n : Nat) : Json := .int n

def object (fields : List (String × Json)) : Json :=
  .obj (fields.map fun (name, value) => (name.toList, value))

def ofOption {α : Type} (f : α → Json) : Option α → Json
  | none => .null
  | some a => f a

def ofList {α : Type} (f : α → Json) (as : List α) : Json := .arr (as.map f)

def insertField (name : Text) (value : Json) : List (Text × Json) → List (Text × Json)
  | [] => [(name, value)]
  | (n, v) :: rest =>
    if n = name then (n, value) :: rest else (n, v) :: insertField name value rest

/-- The value of a field among the fields of an object. -/
def lookup? (name : Text) : List (Text × Json) → Option Json
  | [] => none
  | (n, v) :: rest => if n = name then some v else lookup? name rest

def get? (name : String) : Json → Option Json
  | .obj fields => lookup? name.toList fields
  | _ => none

def items : Json → List Json
  | .arr xs => xs
  | _ => []

def fields : Json → List (Text × Json)
  | .obj fs => fs
  | _ => []

def str? : Json → Option Text
  | .str s => some s
  | _ => none

def int? : Json → Option Int
  | .int i => some i
  | _ => none

def isHalfPair (n : Nat) : Bool := 0xd800 ≤ n && n < 0xe000

def ofPoints (points : List Nat) : Json :=
  if points.any isHalfPair then .unpaired points else .str (points.map Char.ofNat)

/-- The text of the given code points, with the replacement character for half of a pair. -/
def legible (points : List Nat) : Text :=
  points.map fun n => if isHalfPair n then Char.ofNat 0xfffd else Char.ofNat n

def isTruthy : Json → Bool
  | .null => false
  | .bool b => b
  | .int i => i != 0
  | .real x => !x.isZero
  | .str s => !s.isEmpty
  | .unpaired points => !points.isEmpty
  | .arr xs => !xs.isEmpty
  | .obj fs => !fs.isEmpty

/-- The number that a value denotes where numbers are compared: truth values count as 0 and 1. -/
def wholeNumber? : Json → Option Int
  | .int i => some i
  | .bool b => some (if b then 1 else 0)
  | .real x => x.toInt?
  | _ => none

def kindName : Json → Text
  | .null => "NoneType"
  | .bool _ => "bool"
  | .int _ => "int"
  | .real _ => "float"
  | .str _ | .unpaired _ => "str"
  | .arr _ => "list"
  | .obj _ => "dict"

def displayReal : Real64 → Text
  | .nan => "nan"
  | .infinite negative => if negative then "-inf" else "inf"
  | x => x.render

def shownPoints (points : List Nat) : Text :=
  let shownPoint (n : Nat) : Text :=
    if isHalfPair n then '\\' :: 'u' :: Text.hex 4 n else Text.quoteChar '\'' (Char.ofNat n)
  '\'' :: points.flatMap shownPoint ++ ['\'']

mutual

def shown : Json → Text
  | .null => "None"
  | .bool b => if b then "True" else "False"
  | .int i => Text.ofInt i
  | .real x => displayReal x
  | .str s => Text.quoted s
  | .unpaired points => shownPoints points
  | .arr xs => '[' :: Text.join ", " (shownItems xs) ++ [']']
  | .obj fs => '{' :: Text.join ", " (shownFields fs) ++ ['}']

def shownItems : List Json → List Text
  | [] => []
  | x :: xs => shown x :: shownItems xs

def shownFields : List (Text × Json) → List Text
  | [] => []
  | (n, v) :: rest => (Text.quoted n ++ ": " ++ shown v) :: shownFields rest

end

/-- A value as it stands in the middle of a message: a text without quotes. -/
def spoken : Json → Text
  | .str s => s
  | v => shown v

end Json

end CppScaffold
