import CppScaffold.Access
import CppScaffold.Document.Text
import CppScaffold.Text.Template

/-!
# Where new code goes

A placement is a position for new text and how the text relates to its neighbours; from it follow indentation and line
breaks.
-/

namespace CppScaffold

open Text Recognizer

structure Placement where
  position : Position := .zero
  /-- The range of the symbol from which the position was derived; it decides the indentation. -/
  relativeTo : Option Range := none
  before : Bool := false
  after : Bool := false
  /-- No blank line divides the text from its neighbour. -/
  nextTo : Bool := false
  emptyScope : Bool := false
  inNamespace : Bool := false
  deriving DecidableEq, Repr

namespace Placement

def indents (p : Placement) (indentNamespaceBody : Bool) : Bool :=
  p.emptyScope && (!p.inNamespace || indentNamespaceBody)

/-- A text with all line feeds, and the carriage returns before them, replaced by the given break. -/
def convertBreaks (eol : Text) : Text → Text
  | [] => []
  | '\r' :: '\n' :: rest => eol ++ convertBreaks eol rest
  | c :: rest => if c == '\n' then eol ++ convertBreaks eol rest else c :: convertBreaks eol rest

def indentLinesFrom (lead : Text) (prev : Option Char) : Text → Text
  | [] => []
  | c :: rest =>
    if (prev.isNone || prev == some '\n') && !isBreak c then
      lead ++ c :: indentLinesFrom lead (some c) rest
    else c :: indentLinesFrom lead (some c) rest

def indentLines (lead t : Text) : Text := indentLinesFrom lead none t

def specifierIndent (indentation : Text) : Recognizer :=
  let keyword := firstOf (["public", "protected", "private"].map fun w => exactly w.toList)
  andThen (exactly indentation) (ahead (seq [keyword, blanks, char (· == ':')]))

def neighbourLine? (p : Placement) (d : TextDocument) : Option TextLine :=
  if p.after && p.position.line + 1 < d.lineCount then some (d.lineAt (p.position.line + 1))
  else if p.before && p.position.line > 0 then some (d.lineAt (p.position.line - 1))
  else none

/-- Whether the neighbouring line is code other than the brace of the enclosing body. -/
def isCrowded (p : Placement) (d : TextDocument) : Bool :=
  match p.neighbourLine? d with
  | none => false
  | some l =>
    if p.after then !l.isBlank && (trimStart l.text).head? != some '}'
    else !l.isBlank && (trimEnd l.text).getLast? != some '{'

/-- The text as it is inserted, with indentation and the line breaks it needs; `indentation` is taken away before an
access specifier. -/
def format (p : Placement) (insertText : Text) (d : TextDocument) (level indentation : Text)
    (indentNamespaceBody : Bool) : Text :=
  let eol := d.eol
  let t := if eol != ['\n'] then convertBreaks eol insertText else insertText
  let t := if p.indents indentNamespaceBody then indentLines level t else t
  let lead := (d.lineAt ((p.relativeTo.map (·.start)).getD p.position).line).indentation
  let t := if p.before then replace ['\n'] ('\n' :: lead) t else indentLines lead t
  -- Access specifiers stand at the indentation of the class itself.
  let t := if indentation.isEmpty then t else removeAll (specifierIndent indentation) t
  let gap := if p.nextTo || p.isCrowded d then eol else eol ++ eol
  let t := if p.after then gap ++ t else if p.before then t ++ gap else t
  let t := if p.position.line = (d.lineCount : Int) - 1 then t ++ eol else t
  if p.before then t ++ lead else t

/-- The text as it is inserted, for an indentation from the settings. What counts as false indents by nothing; a value
that is no text cannot be used. -/
def formatWith (p : Placement) (insertText : Text) (d : TextDocument) (indentation : Json)
    (indentNamespaceBody : Bool) : Outcome Text :=
  match indentation with
  | .str t => do
    let level ← if p.indents indentNamespaceBody then Template.expand t else pure t
    return p.format insertText d level t indentNamespaceBody
  | v =>
    if !v.isTruthy then .ok (p.format insertText d [] [] indentNamespaceBody)
    else
      let isCollection := v matches .arr _ || v matches .obj _
      .error (.wrongType
        (if isCollection && p.indents indentNamespaceBody then "unhashable type: '" ++ v.kindName ++ ['\'']
        else "decoding to str: need a bytes-like object, " ++ v.kindName ++ " found"))

end Placement

end CppScaffold
