import CppScaffold.Signature
import CppScaffold.Workspace

/-!
# Heads of functions elsewhere

Where the head of a function is written in another place, scopes come before the name, specifiers and defaults of a
declaration are dropped, and continuation lines stay aligned.
-/

namespace CppScaffold.Entity

open Text Recognizer CodeAction

def finalSemicolon : Recognizer := andThen (char (· == ';')) atLastLineEnd

def wordAndGap (words : List String) : Recognizer := andThen (anyWord (words.map String.toList)) blanks

def overrideSpecifier : Recognizer := andThen blanks (anyWord ["override", "final"])

/-- The head of a function for another place, with the given scopes before its name. It is empty if the
parameters cannot be found. -/
def headFor (e : Entity) (target : OpenDocument) (p : Position) (scopeString : Text) (mayBeInline : Bool) :
    CodeAction Text := do
  let d := e.document.toTextDocument
  let start := e.declarationStart
  let offset := d.offsetAt start
  let declaration := removeAll finalSemicolon (d.getText ⟨start, e.declarationEnd⟩)
  let masked := Mask.parentheses (Mask.nonSource declaration true) true
  let nameEnd : Int := (d.offsetAt e.selection.stop : Int) - offset
  match findAfter? ['('] masked nameEnd, findAfter? [')'] masked nameEnd with
  | some l, some r =>
    let parameters := Types.stripDefaultValues (between declaration (l + 1) r)
    let nameToParameters := d.getText ⟨e.selection.start, d.positionAt (offset + l : Nat)⟩
    let outsideClass := e.uri != target.uri || match e.node.ancestors with
      | c :: _ => !c.range.containsStrictly p
      | [] => true
    let inHeader ← isHeader target.toTextDocument
    let inlineSpecifier := if mayBeInline && outsideClass && inHeader && !e.isInline && !e.isConstexpr
        && !e.hasUnspecializedTemplate then "inline ".toList else []
    -- Continuation lines keep their alignment.
    let leading := d.getText ⟨start, e.scopesStart⟩
    let oldScopes := d.getText ⟨e.scopesStart, e.selection.start⟩
    let oldAlignment := (d.lineAt e.range.start.line).indentWidth
      + (trimStart (afterLast '\n' leading)).length + oldScopes.length
    let leading := removeAll (wordAndGap ["virtual", "static", "explicit", "friend"]) leading
    let leading := if !inHeader || !mayBeInline then removeFirst (wordAndGap ["inline"]) leading else leading
    let leading := e.removeIndentation leading
    let newAlignment := (afterLast '\n' leading).length + inlineSpecifier.length + scopeString.length
    let tail := nameToParameters ++ '(' :: parameters ++ ')' :: declaration.drop (r + 1)
    let tail := replaceLineStarts (List.replicate oldAlignment ' ') (List.replicate newAlignment ' ') tail
    return removeAll overrideSpecifier
      (e.combinedTemplateStatements true target.eol false ++ inlineSpecifier ++ leading ++ scopeString ++ tail)
  | _, _ => return []

def definitionHead (e : Entity) (target : OpenDocument) (p : Position) : CodeAction Text := do
  if e.isFunctionDeclaration then e.headFor target p (← e.scopeString target p none) true
  else return []

def declarationAt (e : Entity) (target : OpenDocument) (p : Position) : CodeAction Text := do
  let head ← e.headFor target p (← e.scopeString target p none) false
  return if head.isEmpty then [] else head ++ [';']

def ownDeclaration (e : Entity) : Text :=
  if e.isFunctionDefinition then
    trimEnd (e.document.getText ⟨e.trueStart, e.declarationEnd⟩) ++ [';']
  else []

/-- The definition of a function, head and body, for a position of the target. The scopes are those of
its declaration, if one is given. -/
def definitionAt (e : Entity) (target : OpenDocument) (p : Position) (declaration : Option Entity)
    (mayBeInline : Bool) : CodeAction Text := do
  let scopes ← (declaration.getD e).scopeString target p none
  let comment := if (← settings).alwaysMoveComments then
      e.removeIndentation (e.document.getText ⟨e.leadingCommentStart, e.trueStart⟩)
    else []
  let head ← e.headFor target p scopes mayBeInline
  return comment ++ head ++ e.removeIndentation e.bodyText

/-- A text with `lead` put after every line feed that another character but a line feed follows. -/
def indentContinuation (lead : Text) : Text → Text
  | [] => []
  | c :: rest =>
    if c == '\n' && rest.head?.any (· != '\n') then c :: lead ++ indentContinuation lead rest
    else c :: indentContinuation lead rest

def withBodyOf (e definition : Entity) : Text :=
  let lead := (e.document.lineAt e.range.start.line).indentation
  let reindent (t : Text) : Text := indentContinuation lead (definition.removeIndentation t)
  let declaration := removeAll (andThen blanks finalSemicolon) e.fullText
  let body := reindent definition.bodyText
  if !e.hasLeadingComment && definition.hasLeadingComment then
    let comment := definition.document.getText ⟨definition.leadingCommentStart, definition.trueStart⟩
    reindent comment ++ lead ++ declaration ++ body
  else declaration ++ body

end CppScaffold.Entity
