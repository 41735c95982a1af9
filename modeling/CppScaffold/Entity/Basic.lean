import CppScaffold.Document.Statement
import CppScaffold.Symbol.Tree

/-!
# Entities

An entity is a symbol with the document it stands in. Offsets count from the start of its range; a negative one counts
from the end of its text.
-/

namespace CppScaffold

open Text Recognizer

/-- A document that was opened. Opening a document again gives a new one, whose symbols are asked for
anew. -/
structure OpenDocument extends TextDocument where
  opening : Nat
  deriving Inhabited

structure Entity where
  document : OpenDocument
  node : ScopedSymbol

namespace Entity

def symbol (e : Entity) : Symbol := e.node.symbol

def name (e : Entity) : Text := e.symbol.name

def kind (e : Entity) : SymbolKind := e.symbol.kind

def selection (e : Entity) : Range := e.symbol.selection

def uri (e : Entity) : Text := e.document.uri

def range (e : Entity) : Range :=
  ⟨e.symbol.range.start, e.document.statementEnd e.symbol.range.stop⟩

def parent? (e : Entity) : Option Entity := e.node.parent?.map (⟨e.document, ·⟩)

def scopes (e : Entity) : List Entity := e.node.scopedScopes.map (⟨e.document, ·⟩)

def children (e : Entity) : List Entity := e.node.children.map (⟨e.document, ·⟩)

def isFunction (e : Entity) : Bool := e.symbol.isFunction

def isClass (e : Entity) : Bool := e.symbol.isClass

def isNamespace (e : Entity) : Bool := e.symbol.isNamespace

def isMemberVariable (e : Entity) : Bool := e.node.isMemberVariable

def isVariable (e : Entity) : Bool := e.symbol.isVariable

/-! ## Text -/

def text (e : Entity) : Text := e.document.getText e.range

def parsableText (e : Entity) : Text := Mask.nonSource e.text true

def startOffset (e : Entity) : Nat := e.document.offsetAt e.range.start

def endOffset (e : Entity) : Nat := e.document.offsetAt e.range.stop

def offsetWithin (e : Entity) (p : Position) : Int := (e.document.offsetAt p : Int) - e.startOffset

def positionWithin (e : Entity) (offset : Int) : Position := e.document.positionAt (e.startOffset + offset)

def parsableLeadingText (e : Entity) : Text :=
  upTo e.parsableText (e.offsetWithin e.selection.start)

def leadingText (e : Entity) : Text := e.document.getText ⟨e.range.start, e.selection.start⟩

def isBefore (e : Entity) (offset : Int) : Bool := (e.endOffset : Int) < offset

def isAfter (e : Entity) (offset : Int) : Bool := offset < (e.startOffset : Int)

/-! ## The start, with template statements and comments -/

/-- Accepts a template statement with masked parameters, up to the end of the text. -/
def templateAtEnd : Recognizer :=
  seq [boundary, exactly "template", blanks, emptyPair '<' '>', blanks, atEnd]

def trueStart (e : Entity) : Position :=
  let before := e.document.getText ⟨.zero, e.range.start⟩
  let masked := trimEnd (Mask.angleBrackets (Mask.comments before false) true)
  if masked.getLast? == some '>' then
    match search? templateAtEnd masked with
    | some s => e.document.positionAt s.start
    | none => e.range.start
  else e.range.start

def fullRange (e : Entity) : Range := ⟨e.trueStart, e.range.stop⟩

def fullText (e : Entity) : Text := e.document.getText e.fullRange

def fullLeadingText (e : Entity) : Text := e.document.getText ⟨e.trueStart, e.selection.start⟩

def parsableTemplateText (e : Entity) : Text :=
  Mask.nonSource (e.document.getText ⟨e.trueStart, e.range.start⟩) true

def parsableFullText (e : Entity) : Text := e.parsableTemplateText ++ e.parsableText

def parsableFullLeadingText (e : Entity) : Text := e.parsableTemplateText ++ e.parsableLeadingText

def indentation (e : Entity) : Text := (e.document.lineAt e.trueStart.line).indentation

def removeIndentation (e : Entity) (t : Text) : Text := replaceLineStarts e.indentation [] t

/-- A text without the blanks at its end that lie on two lines at most. -/
def dropGap (t : Text) : Text :=
  let t := dropEndWhile isSpaceOrTab t
  if t.getLast? == some '\n' then
    let t := t.dropLast
    let t := if t.getLast? == some '\r' then t.dropLast else t
    dropEndWhile isSpaceOrTab t
  else t

def firstCommentLine (d : TextDocument) : Nat → Nat
  | 0 => 0
  | n + 1 =>
    if "//".toList.isPrefixOf (trimStart (d.lineAt n).text) then firstCommentLine d n else n + 1

def leadingCommentStart (e : Entity) : Position :=
  let start := e.trueStart
  let masked := dropGap (Mask.comments (e.document.getText ⟨.zero, start⟩) true)
  if "*/".toList.isSuffixOf masked then
    match findLast? "/*" masked with
    | some i => e.document.positionAt i
    | none => start
  else if "//".toList.isSuffixOf masked then
    let last := start.line - 1
    let first : Int := if last > 0 then firstCommentLine e.document.toTextDocument last.toNat else last
    match find? "//" (e.document.lineAt first).text with
    | some i => ⟨first, i⟩
    | none => start
  else start

def hasLeadingComment (e : Entity) : Bool := e.leadingCommentStart != e.trueStart

def rangeWithComment (e : Entity) : Range := ⟨e.leadingCommentStart, e.range.stop⟩

def trailingCommentEnd (e : Entity) : Position :=
  let trailing := e.document.getText ⟨e.range.stop, e.document.endPosition⟩
  let rest := trailing.dropWhile isSpaceOrTab
  if "//".toList.isPrefixOf rest then (e.document.lineAt e.range.stop.line).range.stop
  else if "/*".toList.isPrefixOf rest then
    match find? "*/" (Mask.comments trailing true) with
    | some i => e.document.positionAt (e.endOffset + i + 2)
    | none => e.range.stop
  else e.range.stop

/-! ## Scopes written before the name -/

def scopeName : Recognizer :=
  andThen identifierPart (ahead (seq [blanks, exactly "::"]))

/-- Whether scopes written after `before` begin there: neither inside of a word nor after further
scopes. -/
def beginsScopes (before : Text) : Bool :=
  !before.getLast?.any isWordChar && !"::".toList.isSuffixOf (trimEnd before)

/-- Where the scopes written before the name begin; the start of the name if there are none. -/
def scopesStart (e : Entity) : Position :=
  let trimmed := Mask.angleBrackets (trimEnd e.parsableLeadingText) false
  if "::".toList.isSuffixOf trimmed then
    match ((findAll scopeName trimmed).filter fun s => beginsScopes (trimmed.take s.start)).getLast? with
    | some s => e.positionWithin s.start
    | none => e.selection.start
  else e.selection.start

def templatedName : Recognizer :=
  andThen identifierPart (optional (emptyPair '<' '>'))

def namedScopes (e : Entity) : List Text :=
  let leading := e.parsableLeadingText
  let start := e.offsetWithin e.scopesStart
  let stop : Int := match findLast? "::" leading with
    | some i => i
    | none => -1
  if stop < start then []
  else
    let written := slice leading start stop
    (findAll templatedName (Mask.angleBrackets written true)).map fun s => Spacing.normalize (extract written s)

def lastScope : Recognizer :=
  andThen templatedName (ahead (seq [blanks, exactly "::", blanks, atEnd]))

end Entity

/-- A named piece of an entity's text that is no symbol of its own, such as an access specifier or a
base class. -/
structure Fragment where
  range : Range
  selection : Range
  text : Text
  name : Text
  deriving DecidableEq, Repr

def TextDocument.fragment (d : TextDocument) (range selection : Range) : Fragment :=
  ⟨range, selection, d.getText range, d.getText selection⟩

namespace Entity

def immediateScope? (e : Entity) : Option Fragment :=
  let masked := Mask.angleBrackets e.parsableLeadingText true
  (search? lastScope masked).map fun s =>
    let start := e.startOffset + s.start
    let nameLength := (identifierPart none (masked.drop s.start)).getD 0
    e.document.fragment (e.document.rangeAt start (e.startOffset + s.stop))
      (e.document.rangeAt start (start + nameLength : Nat))

/-- The name of the class to which a member belongs, by where it stands or by the scope written before
its name. -/
def enclosingClassName? (e : Entity) : Option Text :=
  match e.node.ancestors with
  | p :: _ => if p.isClass then some p.name else e.immediateScope?.map (·.name)
  | [] => e.immediateScope?.map (·.name)

/-! ## Declaration and body -/

def isConstructor (e : Entity) : Bool :=
  e.kind = .constructor
    || ((e.kind = .method || e.kind = .function) && some e.name == e.enclosingClassName?)

def isDestructor (e : Entity) : Bool :=
  e.name.head? == some '~' && match e.enclosingClassName? with
    | none => true
    | some c => e.name == '~' :: c

def templateStatement : Recognizer :=
  seq [exactly "template", optional (andThen blanks (emptyPair '<' '>')), blanks]

def declarationStart (e : Entity) : Position :=
  let leading := e.parsableLeadingText
  if "template".toList.isPrefixOf leading then
    match matchStart? (repeated templateStatement) (Mask.angleBrackets leading true) with
    | some (n + 1) => e.positionWithin (n + 1 : Nat)
    | _ => e.range.start
  else e.range.start

/-- Accepts what ends a declaration: a body or the final semicolon, and the blanks before it. -/
def declarationStop : Recognizer :=
  firstOf [andThen blanks (char (· == '{')), seq [blanks, char (· == ';'), atLastLineEnd]]

def initializerColon : Recognizer :=
  seq [blanks, char (· == ':'), notAhead (char (· == ':'))]

def declarationEnd (e : Entity) : Position :=
  let masked := Mask.parentheses e.parsableText true
  let nameEnd := e.offsetWithin e.selection.stop
  match search? declarationStop (startingAt masked nameEnd) with
  | none => e.range.stop
  | some s =>
    let bodyStart := nameEnd + s.start
    let initializers := if e.isConstructor then search? initializerColon (slice masked nameEnd bodyStart)
      else none
    match initializers with
    | some i => e.positionWithin (nameEnd + i.start)
    | none => e.positionWithin bodyStart

def bodyStart (e : Entity) : Position :=
  match findLast? ['{'] (Mask.braces (Mask.parentheses e.parsableText true) true) with
  | some i => e.positionWithin (i + 1 : Nat)
  | none => e.range.stop

def bodyEnd (e : Entity) : Position :=
  match findLast? ['}'] e.parsableText with
  | some i => e.positionWithin i
  | none => e.range.stop

def bodyText (e : Entity) : Text := e.document.getText ⟨e.declarationEnd, e.range.stop⟩

end Entity

end CppScaffold
