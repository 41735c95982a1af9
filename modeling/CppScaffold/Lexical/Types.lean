import CppScaffold.Lexical.Spacing

/-!
# Types in the head of a function

The return type before a function's name or after an arrow, parameters without default values, and the names of
built-in types.
-/

namespace CppScaffold.Types

open Text Recognizer

def qualifiedName : Recognizer :=
  andThen identifier (repeated (seq [blanks, exactly "::", blanks, identifierPart]))

/-- The words that may stand before the last word of a leading return type and belong to it. -/
def typeModifiers : List Text :=
  ["const", "volatile", "unsigned", "signed", "long", "short"].map String.toList

def isQualifierWord (w : Text) : Bool :=
  w == "const" || w == "volatile"

/-- Goes through the names before a function, the last one first, and gives the offset at which the
return type begins, as far as it is known. -/
def leadingStart (masked : Text) : Option Nat → List Span → Option Nat
  | start, [] => start
  | none, s :: rest =>
    leadingStart masked (if isQualifierWord (extract masked s) then none else some s.start) rest
  | some start, s :: rest =>
    if typeModifiers.contains (extract masked s) then leadingStart masked (some s.start) rest
    else some start

/-- The return type at the end of the text that stands before a function's name. -/
def leadingReturnType (t : Text) : Text :=
  let masked := Mask.angleBrackets (Mask.nonSource t true) true
  match leadingStart masked none (findAll qualifiedName masked).reverse with
  | some start => t.drop start
  | none => t

/-- A piece of a return type after an arrow: a name with its template arguments and parentheses, or marks of references
and pointers. -/
def trailingPiece : Recognizer :=
  firstOf [
    seq [qualifiedName, optional (andThen blanks (emptyPair '<' '>')),
      atMost 2 (andThen blanks (emptyPair '(' ')'))],
    firstOf [exactly "&&", exactly "&"],
    some1 (· == '*')]

def isQualifierPiece (w : Text) : Bool :=
  isQualifierWord w || w == "&" || w == "&&" || (!w.isEmpty && w.all (· == '*'))

/-- Goes through the pieces after an arrow and gives the offset at which the return type ends, as far
as it is known. -/
def trailingEnd (masked : Text) : Option Nat → List Span → Option Nat
  | stop, [] => stop
  | none, s :: rest =>
    trailingEnd masked (if isQualifierPiece (extract masked s) then none else some s.stop) rest
  | some stop, s :: rest =>
    if isQualifierPiece (extract masked s) then trailingEnd masked (some s.stop) rest else some stop

def trailingReturnType (t : Text) : Text :=
  let masked := Mask.angleBrackets (Mask.parentheses (Mask.nonSource t true) true) true
  match trailingEnd masked none (findAll trailingPiece masked) with
  | some stop => t.take stop
  | none => t

/-- The pieces of a parameter list, of which `pieces` are the masked texts, without their default
values. -/
def withoutDefaults (t : Text) : List Text → List Text
  | [] => []
  | piece :: rest =>
    let kept := match find? ['='] piece with
      | some i => trimEnd (t.take i)
      | none => t.take piece.length
    kept :: withoutDefaults (t.drop (piece.length + 1)) rest

def stripDefaultValues (t : Text) : Text :=
  let masked := Mask.nestedGroups (Mask.nonSource t true)
  join [','] (withoutDefaults t (splitAtChar ',' masked))

def primitiveNames : List Text :=
  let sized := ["8", "16", "32", "64"].flatMap fun n => ["int" ++ n ++ "_t", "uint" ++ n ++ "_t"]
  let names := ["void", "bool", "char", "wchar_t", "char8_t", "char16_t", "char32_t", "int", "short",
    "long", "signed", "unsigned", "float", "double", "size_t"] ++ sized
  names.map String.toList

def isPrimitive (t : Text) : Bool :=
  !(t.contains '<' && t.contains '>') && hasMatch (anyWord primitiveNames) t

/-- The number of characters up to the last semicolon of the run of blanks and semicolons that begins
a text. -/
def statementEnd (t : Text) : Nat :=
  let run := t.takeWhile fun c => isBlank c || c == ';'
  (dropEndWhile (· != ';') run).length

end CppScaffold.Types
