import CppScaffold.Document.Text
import CppScaffold.Lexical.Types

/-!
# Parameter lists

The parameters between top-level commas are taken apart into type, name and default, as they are written; the name
belongs at `nameIndex` in the type.
-/

namespace CppScaffold

open Text

structure Parameter where
  raw : Text
  type : Text
  name : Text
  defaultValue : Text
  range : Range
  nameIndex : Nat
  deriving DecidableEq, Repr

namespace Parameter

def isVariadic (p : Parameter) : Bool := p.raw == "..."

/-- The type without regard to spacing, comments and attributes. -/
def normalizedType (p : Parameter) : Text := Spacing.normalizeSource p.type

/-- After a mark of a pointer or reference the written style is kept: `int *` takes the name at once, `int*` after a
space. -/
def nameSeparator (head : Text) : Text :=
  match head.getLast? with
  | none => []
  | some c =>
    if isBlank c || c == '(' then []
    else if c == '*' || c == '&' then
      match (dropEndWhile (fun c => c == '*' || c == '&') head).getLast? with
      | some d => if isBlank d || d == '(' then [] else [' ']
      | none => [' ']
    else [' ']

def withName (p : Parameter) (newName : Text) : Text :=
  if p.isVariadic then p.raw
  else if newName.isEmpty then p.type
  else
    let head := p.type.take p.nameIndex
    head ++ nameSeparator head ++ newName ++ p.type.drop p.nameIndex

/-- The type and the name, without the default value. -/
def declaration (p : Parameter) : Text := p.withName p.name

/-! ## Taking a parameter apart -/

open Recognizer

def emptyBrackets : Recognizer :=
  repeated (andThen blanks (emptyPair '[' ']'))

/-- Accepts an identifier and the array brackets after it, at the end of a text. -/
def nameAtEnd : Recognizer :=
  seq [identifier, emptyBrackets, atLastLineEnd]

/-- What is left of a declarator such as `(*f)(int)` or `(&a)[3]` at the end of a text once groups are masked. -/
def nestedDeclarator : Recognizer :=
  seq [emptyPair '(' ')',
    firstOf [
      seq [blanks, emptyPair '(' ')', atLastLineEnd],
      seq [blanks, emptyPair '[' ']', emptyBrackets, atLastLineEnd]]]

def identifierAtEnd : Recognizer :=
  seq [identifier, blanks, atEnd]

/-- Accepts a text of one or two of the words `const` and `volatile`. -/
def qualifiersOnly : Recognizer :=
  let qualifier := firstOf [exactly "const", exactly "volatile"]
  seq [qualifier, optional (andThen blanks1 qualifier), blanks, atEnd]

def leadingIdentifier (t : Text) : Text :=
  t.take ((identifierPart none t).getD 0)

def splitName (declaration : Text) (start : Nat) (name : Text) : Option (Text × Text × Nat) :=
  let type := trimEnd (declaration.take start)
  if !type.isEmpty && !Types.isQualifierWord name
      && (matchStart? qualifiersOnly (Spacing.normalizeSource type)).isNone then
    some (type ++ declaration.drop (start + name.length), name, type.length)
  else none

def splitNestedName (declaration partlyMasked masked : Text) : Option (Text × Text × Nat) := do
  let nested ← search? nestedDeclarator masked
  let close ← findAfter? [')'] partlyMasked nested.start
  let inner := declaration.take close
  let innerMasked := Mask.nonSource inner true
  let place ← search? identifierAtEnd innerMasked
  let name := leadingIdentifier (innerMasked.drop place.start)
  if Types.isQualifierWord name then none
  else some (inner.take place.start ++ declaration.drop (place.start + name.length), name, place.start)

/-- The type, the name and the place of the name, for a parameter without its default value. -/
def splitDeclaration (declaration partlyMasked masked : Text) : Text × Text × Nat :=
  let unnamed := (declaration, [], declaration.length)
  match search? nameAtEnd masked with
  | some place =>
    if place.start > 0 then
      (splitName declaration place.start (leadingIdentifier (masked.drop place.start))).getD unnamed
    else unnamed
  | none => (splitNestedName declaration partlyMasked masked).getD unnamed

/-- Takes apart a parameter without blanks at its ends; in `partlyMasked` literals are masked and in `masked` groups
too. -/
def ofPiece (raw partlyMasked masked : Text) (range : Range) : Parameter :=
  match find? ['='] masked with
  | none =>
    let (type, name, nameIndex) := splitDeclaration raw partlyMasked masked
    ⟨raw, type, name, [], range, nameIndex⟩
  | some i =>
    let masked := trimEnd (masked.take i)
    let n := masked.length
    let (type, name, nameIndex) := splitDeclaration (raw.take n) (partlyMasked.take n) masked
    ⟨raw, type, name, trim (raw.drop (i + 1)), range, nameIndex⟩

end Parameter

structure ParameterList where
  parameters : List Parameter
  range : Range
  deriving DecidableEq, Repr

namespace ParameterList

open Recognizer

/-- Accepts three dots at the end of a list, with the comma before them or at its start. -/
def variadicTail : Recognizer := fun prev t =>
  let dots := seq [blanks, exactly "...", blanks, atEnd]
  let first : Recognizer := fun prev t => if prev.isNone then dots prev t else none
  firstOf [first, andThen (char (· == ',')) dots] prev t

def variadicParameter (range : Range) : Parameter :=
  let dots := "..."
  ⟨dots, dots, dots, [], range, 0⟩

/-- The parameter in a piece that is not blank; the text begins at `offset` in the document. -/
def parsePiece (document : TextDocument) (offset : Int) (text partlyMasked masked : Text) (piece : Span) :
    Option Parameter :=
  let m := extract masked piece
  if isAllBlank m then none
  else
    let start := piece.start + (indentation m).length
    let stop := piece.start + (trimEnd m).length
    let range := document.rangeAt (offset + start) (offset + stop)
    some (Parameter.ofPiece (between text start stop) (between partlyMasked start stop)
      (between masked start stop) range)

def parseIn (document : TextDocument) (offset : Int) (text : Text) : ParameterList :=
  let partlyMasked := Mask.nonSource text false
  let masked := Mask.nestedGroups partlyMasked
  let tail := search? variadicTail masked
  let body := match tail with
    | some s => masked.take s.start
    | none => masked
  let named := (findAll (some1 (· != ',')) body).filterMap
    (parsePiece document offset text partlyMasked body)
  let variadic := match tail with
    | some s =>
      let dots := (findAfter? "..." masked s.start).getD 0
      [variadicParameter (document.rangeAt (offset + dots) (offset + dots + 3))]
    | none => []
  ⟨named ++ variadic, document.rangeAt offset (offset + text.length)⟩

def parse (text : Text) : ParameterList :=
  parseIn { uri := "untitled:parameters", text := text } 0 text

/-- The types and names of the parameters, without regard to spacing. -/
def keys (l : ParameterList) : List (Text × Text) :=
  l.parameters.map fun p => (p.normalizedType, p.name)

def typeKeys (l : ParameterList) : List Text :=
  l.parameters.map (·.normalizedType)

def isEqual (a b : ParameterList) : Bool := a.keys == b.keys

def isReordered (a b : ParameterList) : Bool := a.keys != b.keys && a.keys.isPerm b.keys

def typesAreEqual (a b : ParameterList) : Bool := a.typeKeys == b.typeKeys

def typesAreReordered (a b : ParameterList) : Bool :=
  a.typeKeys != b.typeKeys && a.typeKeys.isPerm b.typeKeys

def withDefault (p : Parameter) : Text :=
  if p.defaultValue.isEmpty then p.declaration else p.declaration ++ " = " ++ p.defaultValue

def declarations (l : ParameterList) (withDefaults : Bool) : Text :=
  join ", " (l.parameters.map fun p => if withDefaults then withDefault p else p.declaration)

end ParameterList

end CppScaffold
