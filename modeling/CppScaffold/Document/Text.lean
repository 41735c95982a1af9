import CppScaffold.Document.Position
import CppScaffold.Path.Uri

/-!
# Text documents

A line ends with a carriage return and line feed or with one of the two alone. Positions and offsets are converted
through the table of line starts; what lies outside is moved to the nearer end.
-/

namespace CppScaffold

/-- The offsets at which lines begin in the text that starts at the given offset, apart from the
first line of all. -/
def lineStartsFrom (offset : Nat) : Text → List Nat
  | [] => []
  | '\r' :: '\n' :: rest => (offset + 2) :: lineStartsFrom (offset + 2) rest
  | c :: rest =>
    if Text.isBreak c then (offset + 1) :: lineStartsFrom (offset + 1) rest
    else lineStartsFrom (offset + 1) rest

structure TextDocument where
  uri : Text
  text : Text
  version : Nat := 0
  deriving DecidableEq, Repr, Inhabited

structure TextLine where
  number : Nat
  text : Text
  deriving DecidableEq, Repr

namespace TextLine

def range (l : TextLine) : Range := ⟨⟨l.number, 0⟩, ⟨l.number, l.text.length⟩⟩

def indentWidth (l : TextLine) : Nat := (Text.indentation l.text).length

def indentation (l : TextLine) : Text := Text.indentation l.text

def isBlank (l : TextLine) : Bool := Text.isAllBlank l.text

end TextLine

namespace TextDocument

def lineStarts (d : TextDocument) : List Nat := 0 :: lineStartsFrom 0 d.text

def lineCount (d : TextDocument) : Nat := d.lineStarts.length

/-- The line break that a document uses: the long one if it occurs anywhere. -/
def eol (d : TextDocument) : Text :=
  if Text.occursIn ['\r', '\n'] d.text then ['\r', '\n'] else ['\n']

def lineStart (d : TextDocument) (line : Nat) : Nat := d.lineStarts.getD line d.text.length

def lineEnd (d : TextDocument) (line : Nat) : Nat :=
  match d.lineStarts[line + 1]? with
  | none => d.text.length
  | some next =>
    let stop := if next > 0 && d.text[next - 1]? == some '\n' then next - 1 else next
    if stop > 0 && d.text[stop - 1]? == some '\r' then stop - 1 else stop

def offsetAt (d : TextDocument) (p : Position) : Nat :=
  if p.line ≥ d.lineCount then d.text.length
  else if p.line < 0 then 0
  else
    let start : Int := d.lineStart p.line.toNat
    let stop : Int := d.lineEnd p.line.toNat
    (max start (min (start + p.character) stop)).toNat

def positionAt (d : TextDocument) (offset : Int) : Position :=
  let o := min offset.toNat d.text.length
  let begun := d.lineStarts.filter (· ≤ o)
  ⟨(begun.length : Int) - 1, (o : Int) - begun.getLastD 0⟩

def rangeAt (d : TextDocument) (start stop : Int) : Range := ⟨d.positionAt start, d.positionAt stop⟩

def lineAt (d : TextDocument) (line : Int) : TextLine :=
  let n := min line.toNat (d.lineCount - 1)
  ⟨n, Text.between d.text (d.lineStart n) (d.lineEnd n)⟩

def getText (d : TextDocument) (r : Range) : Text :=
  Text.between d.text (d.offsetAt r.start) (d.offsetAt r.stop)

def endPosition (d : TextDocument) : Position := d.positionAt d.text.length

def withText (d : TextDocument) (text : Text) : TextDocument := ⟨d.uri, text, d.version + 1⟩

def path (d : TextDocument) : Outcome Text := Uri.toPath d.uri

def fileName (d : TextDocument) : Outcome Text := return Path.fileName (← d.path)

end TextDocument

end CppScaffold
