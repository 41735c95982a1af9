import CppScaffold.Text.WordTable

/-!
# Texts

A text is a sequence of characters, and offsets count them. Character classes and the elementary operations on texts.
-/

namespace CppScaffold

/-- A text is the list of its characters; an offset into it counts characters. -/
abbrev Text := List Char

instance : Coe String Text := ⟨String.toList⟩

namespace Text

/-! ## Character classes -/

/-- Whether a number lies in one of the given runs. They are given by how many numbers come before the next run
and how many are in it, in turn. -/
def inRuns (n : Nat) : List Nat → Bool
  | gap :: size :: rest =>
    if n < gap then false else if n < gap + size then true else inRuns (n - (gap + size)) rest
  | _ => false

/-- White space: the blanks and line breaks of the whole character set, not only of ASCII. -/
def isBlank (c : Char) : Bool :=
  let n := c.toNat
  (9 ≤ n && n ≤ 13) || (28 ≤ n && n ≤ 32) || n == 0x85 || n == 0xa0 || n == 0x1680
    || (0x2000 ≤ n && n ≤ 0x200a) || n == 0x2028 || n == 0x2029 || n == 0x202f || n == 0x205f
    || n == 0x3000

def isLetterOrDigit (c : Char) : Bool :=
  if c.toNat < 128 then c.isAlphanum else inRuns c.toNat wordRuns

/-- The characters of which words are made: letters, digits and the low line. -/
def isWordChar (c : Char) : Bool :=
  c == '_' || isLetterOrDigit c

def isIdentifierStart (c : Char) : Bool :=
  c == '_' || c.isAlpha

def isBreak (c : Char) : Bool :=
  c == '\r' || c == '\n'

def isSpaceOrTab (c : Char) : Bool :=
  c == ' ' || c == '\t'

/-! ## Cutting -/

/-- The offset that a signed index denotes: a negative one counts from the end, one outside is moved to the nearer end.
-/
def resolveIndex (length : Nat) (i : Int) : Nat :=
  if i < 0 then (i + length).toNat else min i.toNat length

def upTo (t : Text) (i : Int) : Text :=
  t.take (resolveIndex t.length i)

def startingAt (t : Text) (i : Int) : Text :=
  t.drop (resolveIndex t.length i)

def between (t : Text) (start stop : Nat) : Text :=
  (t.drop start).take (stop - start)

def slice (t : Text) (start stop : Int) : Text :=
  between t (resolveIndex t.length start) (resolveIndex t.length stop)

/-! ## Searching -/

/-- The offset of the first occurrence of `part` at or after the current place, whose own offset is
`offset`. -/
def findFrom (part : Text) (offset : Nat) : Text → Option Nat
  | [] => if part.isEmpty then some offset else none
  | c :: rest => if part.isPrefixOf (c :: rest) then some offset else findFrom part (offset + 1) rest

def find? (part t : Text) : Option Nat :=
  findFrom part 0 t

def findAfter? (part t : Text) (start : Int) : Option Nat :=
  findFrom part (resolveIndex t.length start) (startingAt t start)

def findLast? (part t : Text) : Option Nat :=
  (find? part.reverse t.reverse).map fun i => t.length - i - part.length

def occursIn (part t : Text) : Bool :=
  (find? part t).isSome

/-! ## Trimming -/

def dropEndWhile (p : Char → Bool) (t : Text) : Text :=
  (t.reverse.dropWhile p).reverse

def trimStart (t : Text) : Text :=
  t.dropWhile isBlank

def trimEnd (t : Text) : Text :=
  dropEndWhile isBlank t

def trim (t : Text) : Text :=
  trimEnd (trimStart t)

def trimWhile (p : Char → Bool) (t : Text) : Text :=
  dropEndWhile p (t.dropWhile p)

def dropFinalBreak (t : Text) : Text :=
  if ['\n'].isSuffixOf t then t.dropLast else t

def indentation (t : Text) : Text :=
  t.takeWhile isBlank

def isAllBlank (t : Text) : Bool :=
  t.all isBlank

/-! ## Replacing and splitting -/

/-- A text with every occurrence of `old`, from left to right, replaced. The counter holds how many
characters still belong to the occurrence replaced last. -/
def replaceFrom (old new : Text) : Nat → Text → Text
  | _, [] => []
  | n + 1, _ :: rest => replaceFrom old new n rest
  | 0, c :: rest =>
    if !old.isEmpty && old.isPrefixOf (c :: rest) then
      new ++ replaceFrom old new (old.length - 1) rest
    else c :: replaceFrom old new 0 rest

def replace (old new t : Text) : Text :=
  replaceFrom old new 0 t

def splitAtChar (sep : Char) : Text → List Text
  | [] => [[]]
  | c :: rest =>
    if c == sep then [] :: splitAtChar sep rest
    else match splitAtChar sep rest with
      | [] => [[c]]
      | piece :: pieces => (c :: piece) :: pieces

def join (sep : Text) (pieces : List Text) : Text :=
  List.intercalate sep pieces

def afterLast (sep : Char) (t : Text) : Text :=
  (t.reverse.takeWhile (· != sep)).reverse

/-- The characters that end a line for `splitLines`, which are more than the breaks that documents count. -/
def isLineSeparator (c : Char) : Bool :=
  let n := c.toNat
  (10 ≤ n && n ≤ 13) || (28 ≤ n && n ≤ 30) || n == 0x85 || n == 0x2028 || n == 0x2029

/-- The lines after `line` (in reverse); a return before a feed is the same separator, and one at the very end begins
no line. -/
def splitLinesFrom (line : Text) : Text → List Text
  | [] => if line.isEmpty then [] else [line.reverse]
  | '\r' :: '\n' :: rest => line.reverse :: splitLinesFrom [] rest
  | c :: rest =>
    if isLineSeparator c then line.reverse :: splitLinesFrom [] rest
    else splitLinesFrom (c :: line) rest

def splitLines (t : Text) : List Text :=
  splitLinesFrom [] t

def ofNat (n : Nat) : Text :=
  Nat.toDigits 10 n

/-- The decimal digits of a number, after a minus sign if it is negative. -/
def ofInt (i : Int) : Text :=
  if i < 0 then '-' :: ofNat i.natAbs else ofNat i.natAbs

def hexDigit? (c : Char) : Option Nat :=
  if '0' ≤ c && c ≤ '9' then some (c.toNat - '0'.toNat)
  else if 'a' ≤ c && c ≤ 'f' then some (c.toNat - 'a'.toNat + 10)
  else if 'A' ≤ c && c ≤ 'F' then some (c.toNat - 'A'.toNat + 10)
  else none

def digitsValue (t : Text) : Nat :=
  t.foldl (fun n c => n * 10 + (c.toNat - '0'.toNat)) 0

def le : Text → Text → Bool
  | [], _ => true
  | _ :: _, [] => false
  | a :: s, b :: t => if a.toNat < b.toNat then true else if b.toNat < a.toNat then false else le s t

end Text

end CppScaffold
