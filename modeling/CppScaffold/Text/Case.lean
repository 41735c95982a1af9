import CppScaffold.Text.Basic
import CppScaffold.Text.CaseTable

/-!
# Upper and lower case

Full case mappings: a character may become several, and a capital sigma becomes a final sigma where
it ends a word.
-/

namespace CppScaffold.Text

def shiftCase (n : Nat) : List (Nat × Nat × Nat × Int) → Option Nat
  | [] => none
  | (first, last, step, shift) :: rest =>
    if first ≤ n && n ≤ last && (n - first) % step == 0 then some (n + shift).toNat
    else shiftCase n rest

def expandCase (n : Nat) : List (Nat × List Nat) → Option (List Nat)
  | [] => none
  | (m, image) :: rest => if n == m then some image else expandCase n rest

def upperChar (c : Char) : Text :=
  if c.toNat < 128 then [c.toUpper]
  else match expandCase c.toNat upperExpansions with
    | some image => image.map Char.ofNat
    | none => [((shiftCase c.toNat upperShifts).map Char.ofNat).getD c]

def lowerChar (c : Char) : Text :=
  if c.toNat < 128 then [c.toLower]
  else match expandCase c.toNat lowerExpansions with
    | some image => image.map Char.ofNat
    | none => [((shiftCase c.toNat lowerShifts).map Char.ofNat).getD c]

def toUpper (t : Text) : Text :=
  t.flatMap upperChar

def nextIsCased (t : Text) : Bool :=
  match t.dropWhile (fun c => inRuns c.toNat caseIgnorableRuns) with
  | [] => false
  | c :: _ => inRuns c.toNat casedRuns

def toLowerFrom (passed : Text) : Text → Text
  | [] => []
  | c :: rest =>
    let image :=
      if c == 'Σ' then (if nextIsCased passed && !nextIsCased rest then ['ς'] else ['σ'])
      else lowerChar c
    image ++ toLowerFrom (c :: passed) rest

def toLower (t : Text) : Text :=
  toLowerFrom [] t

end CppScaffold.Text
