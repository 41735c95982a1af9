import CppScaffold.Error
import CppScaffold.Json.Basic

/-!
# Reading JSON

`NaN`, `Infinity` and `-Infinity` are numbers, and the last of several fields of one name wins, at the place of the
first. A text that is nested too deeply is refused as soon as the depth is passed.
-/

namespace CppScaffold.Json

open Text

inductive ParseError where
  | malformed
  | tooDeep (container : Text)
  deriving DecidableEq, Repr

def orMalformed {α : Type} : Option α → Except ParseError α
  | some a => .ok a
  | none => .error .malformed

def skipBlanks (t : Text) : Text :=
  t.dropWhile fun c => c == ' ' || c == '\t' || c == '\n' || c == '\r'

def fourHexDigits? : Text → Option (Nat × Text)
  | a :: b :: c :: d :: rest => do
    let a ← hexDigit? a
    let b ← hexDigit? b
    let c ← hexDigit? c
    let d ← hexDigit? d
    return (a * 4096 + b * 256 + c * 16 + d, rest)
  | _ => none

def shortEscape? (c : Char) : Option Char :=
  match c with
  | '"' => some '"'
  | '\\' => some '\\'
  | '/' => some '/'
  | 'b' => some (Char.ofNat 8)
  | 'f' => some (Char.ofNat 12)
  | 'n' => some '\n'
  | 'r' => some '\r'
  | 't' => some '\t'
  | _ => none

/-- Reads a string after its opening quote. `acc` holds the code points read so far, in reverse. -/
def readString : Nat → List Nat → Text → Option (List Nat × Text)
  | 0, _, _ => none
  | fuel + 1, acc, t =>
    match t with
    | '"' :: rest => some (acc.reverse, rest)
    | '\\' :: 'u' :: rest => do
      let (n, rest) ← fourHexDigits? rest
      match rest with
      | '\\' :: 'u' :: more =>
        match fourHexDigits? more with
        | some (m, after) =>
          if 0xd800 ≤ n && n < 0xdc00 && 0xdc00 ≤ m && m < 0xe000 then
            readString fuel ((0x10000 + (n - 0xd800) * 1024 + (m - 0xdc00)) :: acc) after
          else readString fuel (n :: acc) rest
        | none => readString fuel (n :: acc) rest
      | _ => readString fuel (n :: acc) rest
    | '\\' :: c :: rest => do
      let c ← shortEscape? c
      readString fuel (c.toNat :: acc) rest
    | c :: rest => if c.toNat < 32 then none else readString fuel (c.toNat :: acc) rest
    | [] => none

def readFraction : Text → Text × Text
  | '.' :: rest =>
    let ds := rest.takeWhile Char.isDigit
    if ds.isEmpty then ([], '.' :: rest) else (ds, rest.drop ds.length)
  | t => ([], t)

def readExponent (t : Text) : Option Int × Text :=
  match t with
  | e :: rest =>
    if e == 'e' || e == 'E' then
      let (negative, body) := match rest with
        | '-' :: more => (true, more)
        | '+' :: more => (false, more)
        | _ => (false, rest)
      let ds := body.takeWhile Char.isDigit
      if ds.isEmpty then (none, t)
      else
        let n : Int := digitsValue ds
        (some (if negative then -n else n), body.drop ds.length)
    else (none, t)
  | [] => (none, [])

def readNumber (t : Text) : Option (Json × Text) :=
  let (negative, body) := match t with
    | '-' :: rest => (true, rest)
    | _ => (false, t)
  let ds := match body with
    | '0' :: _ => ['0']
    | _ => body.takeWhile Char.isDigit
  if ds.isEmpty then
    if negative && "Infinity".toList.isPrefixOf body then some (.real (.infinite true), body.drop 8)
    else none
  else
    let rest := body.drop ds.length
    let (fraction, rest) := readFraction rest
    let (exponent, rest) := readExponent rest
    if fraction.isEmpty && exponent.isNone then
      if ds.length > maxDigits then none
      else
        let n : Int := digitsValue ds
        some (.int (if negative then -n else n), rest)
    else
      let e := exponent.getD 0 - fraction.length
      some (.real (Real64.ofDecimal negative (digitsValue (ds ++ fraction)) e), rest)

mutual

def readValue : Nat → Nat → Text → Except ParseError (Json × Text)
  | 0, _, _ => .error .malformed
  | fuel + 1, levels, t =>
    match t with
    | '"' :: rest => orMalformed ((readString (rest.length + 1) [] rest).map fun (s, r) => (ofPoints s, r))
    | '[' :: rest =>
      match levels, skipBlanks rest with
      | 0, _ => .error (.tooDeep "array")
      | _, ']' :: r => .ok (.arr [], r)
      | levels + 1, r => (readItems fuel levels r).map fun (xs, r) => (.arr xs, r)
    | '{' :: rest =>
      match levels, skipBlanks rest with
      | 0, _ => .error (.tooDeep "object")
      | _, '}' :: r => .ok (.obj [], r)
      | levels + 1, r => (readFields fuel levels [] r).map fun (fs, r) => (.obj fs, r)
    | 'n' :: 'u' :: 'l' :: 'l' :: r => .ok (.null, r)
    | 't' :: 'r' :: 'u' :: 'e' :: r => .ok (.bool true, r)
    | 'f' :: 'a' :: 'l' :: 's' :: 'e' :: r => .ok (.bool false, r)
    | 'N' :: 'a' :: 'N' :: r => .ok (.real .nan, r)
    | 'I' :: r =>
      if "nfinity".toList.isPrefixOf r then .ok (.real (.infinite false), r.drop 7) else .error .malformed
    | t => orMalformed (readNumber t)

def readItems : Nat → Nat → Text → Except ParseError (List Json × Text)
  | 0, _, _ => .error .malformed
  | fuel + 1, levels, t => do
    let (x, rest) ← readValue fuel levels t
    match skipBlanks rest with
    | ']' :: r => return ([x], r)
    | ',' :: r =>
      let (xs, r) ← readItems fuel levels (skipBlanks r)
      return (x :: xs, r)
    | _ => .error .malformed

/-- Reads the fields of an object up to its closing brace; `acc` holds those read so far. -/
def readFields : Nat → Nat → List (Text × Json) → Text → Except ParseError (List (Text × Json) × Text)
  | 0, _, _, _ => .error .malformed
  | fuel + 1, levels, acc, t =>
    match t with
    | '"' :: rest => do
      let (name, rest) ← orMalformed (readString (rest.length + 1) [] rest)
      match skipBlanks rest with
      | ':' :: r =>
        let (v, rest) ← readValue fuel levels (skipBlanks r)
        let acc := insertField (legible name) v acc
        match skipBlanks rest with
        | '}' :: r => return (acc, r)
        | ',' :: r => readFields fuel levels acc (skipBlanks r)
        | _ => .error .malformed
      | _ => .error .malformed
    | _ => .error .malformed

end

def parse (levels : Nat) (t : Text) : Except ParseError Json := do
  let (v, rest) ← readValue (t.length + 1) levels (skipBlanks t)
  if (skipBlanks rest).isEmpty then return v else .error .malformed

def fileLevels : Nat := 980

def ofFileText (t : Text) : Outcome (Option Json) :=
  match parse fileLevels t with
  | .ok v => .ok (some v)
  | .error .malformed => .ok none
  | .error (.tooDeep container) => .error (.nestedTooDeeply container)

end CppScaffold.Json
