import CppScaffold.Error
import CppScaffold.Json.Basic

/-!
# Comparing values

Numbers are compared by what they denote, truth values as 0 and 1, and objects without regard to the order of fields.
Only numbers, texts and arrays have an order, each among themselves.
-/

namespace CppScaffold

namespace Real64

def fraction? : Real64 → Option (Int × Nat)
  | .finite negative m e =>
    let n : Int := if e < 0 then m else m * twoTo e.natAbs
    some (if negative then -n else n, if e < 0 then e.natAbs else 0)
  | _ => none

def less (x y : Real64) : Bool :=
  match x, y with
  | .nan, _ | _, .nan => false
  | .infinite a, .infinite b => a && !b
  | .infinite a, _ => a
  | _, .infinite b => !b
  | x, y =>
    match x.fraction?, y.fraction? with
    | some (a, k), some (b, l) => a * twoTo l < b * twoTo k
    | _, _ => false

/-- The sum of two numbers, rounded to the nearest number. -/
def add (x y : Real64) : Real64 :=
  match x, y with
  | .nan, _ | _, .nan => .nan
  | .infinite a, .infinite b => if a = b then .infinite a else .nan
  | .infinite a, _ | _, .infinite a => .infinite a
  | x, y =>
    match x.fraction?, y.fraction? with
    | some (a, k), some (b, l) =>
      let n : Int := a * twoTo l + b * twoTo k
      if n = 0 then .finite (x matches .finite true _ _ && y matches .finite true _ _) 0 0
      else ofQuotient (n < 0) n.natAbs (twoTo (k + l))
    | _, _ => .nan

end Real64

namespace Json

def exactReal (i : Int) : Real64 := .finite (i < 0) i.natAbs 0

/-- The number that a value denotes; truth values count as 0 and 1. -/
def number? : Json → Option Real64
  | .real x => some x
  | .int i => some (exactReal i)
  | .bool b => some (exactReal (if b then 1 else 0))
  | _ => none

def sameNumber (x y : Real64) : Bool :=
  x == y || (!(x matches .nan) && !(y matches .nan) && !x.less y && !y.less x)

mutual

def same (a b : Json) : Bool :=
  match a, b with
  | .null, .null => true
  | .str s, .str t => s == t
  | .unpaired s, .unpaired t => s == t
  | .arr xs, .arr ys => xs.length == ys.length && sameItems xs ys
  | .obj fs, .obj gs => fs.length == gs.length && sameFields fs gs
  | .bool b, v => (number? v).any (sameNumber (exactReal (if b then 1 else 0)))
  | .int i, v => (number? v).any (sameNumber (exactReal i))
  | .real x, v => (number? v).any (sameNumber x)
  | _, _ => false

def sameItems (xs ys : List Json) : Bool :=
  match xs, ys with
  | x :: xs, y :: ys => same x y && sameItems xs ys
  | _, _ => true

def sameFields (fs gs : List (Text × Json)) : Bool :=
  match fs with
  | [] => true
  | (n, v) :: rest =>
    (match lookup? n gs with
      | some w => same v w
      | none => false) && sameFields rest gs

end

def textLess : Text → Text → Bool
  | _, [] => false
  | [], _ :: _ => true
  | a :: as, b :: bs => a.toNat < b.toNat || (a == b && textLess as bs)

def notOrdered (a b : Json) : Fault :=
  .wrongType ("'<' not supported between instances of '" ++ a.kindName ++ "' and '"
    ++ b.kindName ++ ['\''])

mutual

def less (a b : Json) : Outcome Bool :=
  match a, b with
  | .str s, .str t => .ok (textLess s t)
  | .arr xs, .arr ys => lessItems xs ys
  | a, b =>
    match number? a, number? b with
    | some x, some y => .ok (x.less y)
    | _, _ => .error (notOrdered a b)

def lessItems (xs ys : List Json) : Outcome Bool :=
  match xs, ys with
  | _, [] => .ok false
  | [], _ :: _ => .ok true
  | x :: xs, y :: ys => if same x y then lessItems xs ys else less x y

end

end Json

namespace Sorting

variable {α : Type} (less : α → α → Outcome Bool)

/-- The place of a new item between the places `low` and `high` of sorted items: after all that it is not less
than. The items are halved again and again. -/
def placeIn (x : α) (items : List α) : Nat → Nat → Nat → Outcome Nat
  | 0, low, _ => .ok low
  | fuel + 1, low, high =>
    if low < high then
      match items[(low + high) / 2]? with
      | none => .ok low
      | some y => do
        if ← less x y then placeIn x items fuel low ((low + high) / 2)
        else placeIn x items fuel ((low + high) / 2 + 1) high
    else .ok low

def insert (items : List α) (x : α) : Outcome (List α) := do
  let i ← placeIn less x items items.length 0 items.length
  return items.take i ++ x :: items.drop i

/-- How many items go on a run that is at `prev`: each less than the one before if the run is descending, and
none less than the one before if not. -/
def runLength (descending : Bool) (prev : α) : List α → Outcome Nat
  | [] => .ok 0
  | x :: rest => do
    if (← less x prev) == descending then return (← runLength descending x rest) + 1 else return 0

/-- The items in order. The run at their start is taken as it is, or reversed if it is descending, and the other
items are put into it one after the other. -/
def sortBy (items : List α) : Outcome (List α) :=
  match items with
  | a :: b :: rest => do
    let descending ← less b a
    let n ← runLength less descending b rest
    let run := items.take (n + 2)
    (items.drop (n + 2)).foldlM (insert less) (if descending then run.reverse else run)
  | _ => .ok items

end Sorting

end CppScaffold
