import CppScaffold.Text.Basic

/-!
# Numbers with a fraction

A number denotes the nearest binary number with 53 significant bits, and is written with the fewest digits that denote
the same. All arithmetic is exact.
-/

namespace CppScaffold

/-- A binary floating point number with 53 significant bits. -/
inductive Real64 where
  | finite (negative : Bool) (mantissa : Nat) (exponent : Int)
  | infinite (negative : Bool)
  | nan
  deriving DecidableEq, Repr

namespace Real64

def twoTo (n : Nat) : Nat := Nat.pow 2 n

def tenTo (n : Nat) : Nat := Nat.pow 10 n

/-- The quotient rounded to the nearest integer, a half to the even neighbour. -/
def roundDiv (num den : Nat) : Nat :=
  let q := num / den
  let r := num % den
  if 2 * r > den || (2 * r == den && q % 2 == 1) then q + 1 else q

/-- The nearest number to the positive quotient `num / den`, a half to the even neighbour. -/
def ofQuotient (negative : Bool) (num den : Nat) : Real64 :=
  let guess : Int := (Nat.log2 num : Int) - Nat.log2 den - 52
  -- The quotient over `2 ^ e` lies between `2 ^ 51` and `2 ^ 53` for the guess; take the exponent
  -- at which it has 53 bits, but none below that of the smallest number.
  let scaled (e : Int) : Nat × Nat :=
    if e < 0 then (num * twoTo e.natAbs, den) else (num, den * twoTo e.natAbs)
  let e := let (n, d) := scaled guess; if n / d < twoTo 52 then guess - 1 else guess
  let e := max e (-1074)
  let (n, d) := scaled e
  let m := roundDiv n d
  let (m, e) := if m = twoTo 53 then (twoTo 52, e + 1) else (m, e)
  if e > 971 then .infinite negative else .finite negative m e

def ofDecimal (negative : Bool) (digits : Nat) (exponent : Int) : Real64 :=
  if digits = 0 then .finite negative 0 0
  else
    let size : Int := (Nat.toDigits 10 digits).length + exponent
    if size > 310 then .infinite negative
    else if size < -330 then .finite negative 0 0
    else if exponent < 0 then ofQuotient negative digits (tenTo exponent.natAbs)
    else ofQuotient negative (digits * tenTo exponent.natAbs) 1

def isZero : Real64 → Bool
  | .finite _ m _ => m == 0
  | _ => false

def toInt? : Real64 → Option Int
  | .finite negative m e =>
    let n := if e < 0 then (if m % twoTo e.natAbs = 0 then some (m / twoTo e.natAbs) else none)
      else some (m * twoTo e.natAbs)
    n.map fun n => if negative then -(n : Int) else n
  | _ => none

def truncate? : Real64 → Option Int
  | .finite negative m e =>
    let n := if e < 0 then m / twoTo e.natAbs else m * twoTo e.natAbs
    some (if negative then -(n : Int) else n)
  | _ => none

/-- The exponent `k` for which a positive quotient lies between `10 ^ (k - 1)` and `10 ^ k`, searched
downwards from `k`. -/
def decimalSize (num den : Nat) : Nat → Int → Int
  | 0, k => k
  | fuel + 1, k =>
    let smaller := if k - 1 < 0 then num * tenTo (k - 1).natAbs < den else num < den * tenTo (k - 1).natAbs
    if smaller then decimalSize num den fuel (k - 1) else k

/-- The decimal with at most `count` digits that denotes `m * 2 ^ e` and is nearest to it, as digits and exponent. -/
def shortestWith (m : Nat) (e : Int) (size : Int) (count : Nat) : Option (Nat × Int) :=
  let (num, den) := if e < 0 then (m, twoTo e.natAbs) else (m * twoTo e.natAbs, 1)
  let k : Int := size - count
  let (num, den) := if k < 0 then (num * tenTo k.natAbs, den) else (num, den * tenTo k.natAbs)
  let low := num / den
  let denotes (d : Nat) : Bool := ofDecimal false d k == .finite false m e
  let nearer := roundDiv num den
  let other := if nearer = low then low + 1 else low
  if denotes nearer then some (nearer, k)
  else if denotes other then some (other, k)
  else none

def shortestFrom (m : Nat) (e size : Int) : List Nat → Nat × Int
  | [] => (0, 0)
  | count :: rest =>
    match shortestWith m e size count with
    | some r => r
    | none => shortestFrom m e size rest

/-- The digits and the decimal exponent of the shortest decimal that denotes the positive number
`m * 2 ^ e`. -/
def shortest (m : Nat) (e : Int) : Nat × Int :=
  let (num, den) := if e < 0 then (m, twoTo e.natAbs) else (m * twoTo e.natAbs, 1)
  shortestFrom m e (decimalSize num den 800 310) ((List.range 17).map (· + 1))

/-- The text of a number: positional from `10 ^ -4` up to `10 ^ 16`, with an exponent of at least two
digits beyond. -/
def render : Real64 → Text
  | .nan => "NaN"
  | .infinite negative => if negative then "-Infinity" else "Infinity"
  | .finite negative m e =>
    let sign : Text := if negative then ['-'] else []
    if m = 0 then sign ++ "0.0"
    else
      let (d, k) := shortest m e
      let digits := Text.dropEndWhile (· == '0') (Text.ofNat d)
      let point : Int := (Text.ofNat d).length + k
      let body : Text :=
        if -4 < point && point ≤ 16 then
          if point ≤ 0 then "0." ++ List.replicate point.natAbs '0' ++ digits
          else if digits.length ≤ point.toNat then
            digits ++ List.replicate (point.toNat - digits.length) '0' ++ ".0"
          else digits.take point.toNat ++ '.' :: digits.drop point.toNat
        else
          let fraction := if digits.length ≤ 1 then [] else '.' :: digits.drop 1
          let x := point - 1
          let exponent := Text.ofNat x.natAbs
          digits.take 1 ++ fraction ++ 'e' :: (if x < 0 then '-' else '+')
            :: (if exponent.length < 2 then '0' :: exponent else exponent)
      sign ++ body

end Real64

end CppScaffold
