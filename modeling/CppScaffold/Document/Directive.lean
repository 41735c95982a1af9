import CppScaffold.Lexical.Mask
import CppScaffold.Placement
import CppScaffold.Settings

/-!
# Includes and header guards

The files that a document includes, where a further include goes, and whether the document is guarded against repeated
inclusion.
-/

namespace CppScaffold.TextDocument

open Text Recognizer

/-! ## Includes -/

def directive (name : String) : Recognizer :=
  seq [blanks, char (· == '#'), blanks, exactly name.toList]

def includeDirective : Recognizer :=
  let isMark (c : Char) : Bool := c == '<' || c == '"'
  let isEnd (c : Char) : Bool := c == '>' || c == '"'
  seq [atLineStart, directive "include", blanks, char isMark, some1 (!isEnd ·), char isEnd]

def includedFiles (d : TextDocument) : List Text :=
  let masked := Mask.comments d.text true
  (findAll includeDirective masked).map fun s =>
    ((extract masked s).dropWhile fun c => c != '<' && c != '"').tail.dropLast

inductive IncludeKind where
  | system
  | project
  deriving DecidableEq, Repr

def includeOf : IncludeKind → Recognizer
  | .system => seq [directive "include", blanks, char (· == '<'), some1 (· != '>'), char (· == '>')]
  | .project => seq [directive "include", blanks, char (· == '"'), some1 (· != '"'), char (· == '"')]

def includeKind? (line : Text) : Option IncludeKind :=
  [IncludeKind.system, .project].find? fun k => (matchStart? (includeOf k) line).isSome

structure IncludeBlock where
  kind : IncludeKind
  size : Nat
  stop : Nat

/-- The blocks of include directives; `current` is the kind of the block that began at line `start`. -/
def blocksFrom (current : Option IncludeKind) (start line : Nat) : List (Option IncludeKind) → List IncludeBlock
  | [] =>
    match current with
    | some k => [⟨k, line - start, line⟩]
    | none => []
  | k :: rest =>
    if k = current then blocksFrom current start (line + 1) rest
    else
      match current with
      | some c => ⟨c, line - start, line⟩ :: blocksFrom k line (line + 1) rest
      | none => blocksFrom k line (line + 1) rest

def includeBlocks (d : TextDocument) : List IncludeBlock :=
  blocksFrom none 0 0 ((splitLines (Mask.comments d.text true)).map includeKind?)

def largestBlock? (kind : IncludeKind) (blocks : List IncludeBlock) : Option IncludeBlock :=
  (blocks.filter (·.kind = kind)).foldl
    (fun best b => match best with
      | some a => if b.size ≥ a.size then some b else some a
      | none => some b) none

/-! ## Guards -/

/-- The name of a document's file; a backslash divides segments too. -/
def plainFileName (d : TextDocument) : Outcome Text :=
  return afterLast '/' (replace ['\\'] ['/'] (← d.path))

def guardName (d : TextDocument) (settings : Settings) : Outcome Text := do
  let fileName ← d.plainFileName
  let format ← settings.guardFormat
  let named := replace "$\x7bFILENAME_EXT\x7d" (toUpper (replace ['.'] ['_'] fileName)) format
  let named := replace "$\x7bFILENAME\x7d" (toUpper (Path.baseName fileName)) named
  return named.map fun c => if isWordChar c then c else '_'

def pragmaOnce : Recognizer :=
  seq [atLineStart, directive "pragma", blanks1, exactly "once", boundary]

def definitionOf (name : Text) : Recognizer :=
  seq [atLineStart, directive "define", blanks1, exactly name, boundary]

def afterGuard? (d : TextDocument) (settings : Settings) : Outcome (Option Position) := do
  let masked := Mask.quotes (Mask.rawStrings (Mask.comments d.text true) true) true
  let name ← d.guardName settings
  let found := (search? (definitionOf name) masked).orElse fun _ => search? pragmaOnce masked
  return found.map fun s => ⟨(d.positionAt s.stop).line + 1, 0⟩

def afterHeaderComment (d : TextDocument) : Placement :=
  match search? (char (!isBlank ·)) (Mask.comments d.text false) with
  | some s => { position := d.positionAt s.start, before := true }
  | none =>
    let length := (trimEnd d.text).length
    { position := d.positionAt length, after := length != 0 }

/-- Where an include of the given kind goes: after the largest block of its kind, else of the other kind,
else after the header guard or the comments. -/
def placeForInclude (d : TextDocument) (settings : Settings) (kind : IncludeKind) : Outcome Position := do
  let blocks := d.includeBlocks
  let other := match kind with
    | .system => .project
    | .project => .system
  match (largestBlock? kind blocks).orElse fun _ => largestBlock? other blocks with
  | some b => return ⟨b.stop, 0⟩
  | none =>
    match ← d.afterGuard? settings with
    | some p => return p
    | none => return ⟨d.afterHeaderComment.position.line, 0⟩

def lastLine? (d : TextDocument) : Nat → Option TextLine
  | 0 => none
  | n + 1 => if (d.lineAt n).isBlank then lastLine? d n else some (d.lineAt n)

def endPlace (d : TextDocument) : Placement :=
  match d.lastLine? d.lineCount with
  | some l => { position := l.range.stop, after := true }
  | none => {}

end CppScaffold.TextDocument
