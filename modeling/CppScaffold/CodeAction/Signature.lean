import CppScaffold.CodeAction.Definition

/-!
# Updating signatures

When one of declaration and definition was changed, the other one follows in its types and qualifiers; names, defaults
and formatting of what did not change stay.
-/

namespace CppScaffold

open Text Recognizer

namespace SignatureUpdate

def returnType (current linked : Signature) (d : TextDocument) (edit : WorkspaceEdit) : WorkspaceEdit :=
  if current.normalizedReturnType == linked.normalizedReturnType then edit
  else
    let stop := linked.returnRange.stop
    let next := d.getText ⟨stop, stop.shift 0 1⟩
    let endsWithWord := hasMatch (andThen (char isWordChar) atLastLineEnd) current.returnType
    let text := if endsWithWord && next.head?.any isWordChar then current.returnType ++ [' '] else current.returnType
    edit.replace d.uri linked.returnRange text

/-- A parameter as it is written in the linked function. A declaration keeps the default values it has. -/
def parameterText (linked : Signature) (p : Parameter) (i : Nat) : Text :=
  if linked.isDefinition then p.declaration
  else
    let kept := match linked.parameters.parameters[i]? with
      | some q => if q.normalizedType == p.normalizedType then q.defaultValue else []
      | none => []
    let value := if p.defaultValue.isEmpty then kept else p.defaultValue
    if value.isEmpty then p.declaration else p.declaration ++ " = " ++ value

def parameters (current linked : Signature) (d : TextDocument) (edit : WorkspaceEdit) : WorkspaceEdit :=
  if current.parameters.typesAreEqual linked.parameters then edit
  else edit.replace d.uri linked.parameters.range
    (join ", " (current.parameters.parameters.zipIdx.map fun (p, i) => parameterText linked p i))

def leadingSpecifier (name : String) (wanted present : Bool) (linked : Signature) (d : TextDocument)
    (edit : WorkspaceEdit) : WorkspaceEdit :=
  if wanted && !present then edit.insert d.uri linked.range.start (name.toList ++ [' '])
  else if present && !wanted then
    let head := Mask.comments (d.getText linked.range) true
    match search? (andThen (word name.toList) (many isSpaceOrTab)) head with
    | some s =>
      let start := d.offsetAt linked.range.start
      edit.delete d.uri (d.rangeAt (start + s.start) (start + s.stop))
    | none => edit
  else edit

structure Masked where
  text : Text
  masked : Text

def Masked.splice (m : Masked) (start stop : Nat) (new : Text) : Masked :=
  ⟨m.text.take start ++ new ++ m.text.drop stop, m.masked.take start ++ new ++ m.masked.drop stop⟩

def notAfterBreak (r : Recognizer) : Recognizer := fun prev t =>
  if prev == some '\n' then none else r prev t

def qualifier (name : String) (wanted present : Bool) (m : Masked) : Masked :=
  if wanted && !present then
    let gap := if m.text.head?.any isWordChar then [' '] else []
    m.splice 0 0 (' ' :: name.toList ++ gap)
  else if present && !wanted then
    match search? (notAfterBreak (andThen (many isSpaceOrTab) (word name.toList))) m.masked with
    | some s => m.splice s.start s.stop []
    | none => m
  else m

/-- Accepts the qualifiers `const` and `volatile`, with blanks and marks of comments before each. -/
def constAndVolatile : Recognizer :=
  let gap := many fun c => isBlank c || c == '/' || c == '*'
  let one := andThen gap (firstOf [exactly "const", exactly "volatile"])
  andThen one (optional one)

def refQualifier (wanted present : Text) (m : Masked) : Masked :=
  if wanted == present then m
  else if present.isEmpty then
    let i := (matchStart? constAndVolatile m.masked).getD 0
    m.splice i i (' ' :: wanted)
  else
    match find? present m.masked with
    | some i => m.splice i (i + present.length) wanted
    | none => m

def exceptionSpecifier (current linked : Signature) (m : Masked) : Text :=
  if current.normalizedNoexcept == linked.normalizedNoexcept then m.text
  else if linked.normalizedNoexcept.isEmpty then
    let specifiers := trimEnd m.text
    specifiers ++ ' ' :: current.noexceptText ++ m.text.drop specifiers.length
  else
    match search? (notAfterBreak (andThen (many isSpaceOrTab) Signature.noexceptSpecifier)) m.masked with
    | none => m.text
    | some s =>
      let gap := if current.noexceptText.isEmpty then 0
        else ((extract m.masked s).takeWhile isSpaceOrTab).length
      m.text.take (s.start + gap) ++ current.noexceptText ++ m.text.drop s.stop

def trailingText (current linked : Signature) (old : Text) : Text :=
  let masked := Mask.parentheses (Mask.attributes (Mask.quotes (Mask.rawStrings (Mask.comments old true) true)
    true) true) true
  let m : Masked := ⟨old, masked⟩
  let m := qualifier "const" current.isConst linked.isConst m
  let m := qualifier "volatile" current.isVolatile linked.isVolatile m
  exceptionSpecifier current linked (refQualifier current.refQualifier linked.refQualifier m)

def trailing (current linked : Signature) (d : TextDocument) (edit : WorkspaceEdit) : WorkspaceEdit :=
  let old := d.getText linked.trailingRange
  let new := trailingText current linked old
  if new == old then edit else edit.replace d.uri linked.trailingRange new

def edits (current linked : Signature) (d : TextDocument) : WorkspaceEdit :=
  trailing current linked d
    (leadingSpecifier "consteval" current.isConsteval linked.isConsteval linked d
      (leadingSpecifier "constexpr" current.isConstexpr linked.isConstexpr linked d
        (parameters current linked d (returnType current linked d {}))))

end SignatureUpdate

namespace CodeAction

/-- Brings the declaration or definition that is linked to the function at a position in line with it. -/
def updateSignature (uri : Text) (p : Position) : CodeAction WorkspaceEdit := do
  let d ← openDocument uri
  match (← d.entityAt? p).filter (·.isFunction) with
  | none => refuse .noFunction
  | some function =>
    let isDeclaration := function.isFunctionDeclaration
    let missing : ActionError := if isDeclaration then .linkedDefinitionMissing else .linkedDeclarationMissing
    match ← if isDeclaration then function.findDefinition else function.findDeclaration with
    | none => refuse missing
    | some l =>
      let linkedDocument ← d.openOther l.uri
      let isCounterpart (e : Entity) : Bool := e.name == function.name
        && if isDeclaration then e.isFunctionDefinition else e.isFunctionDeclaration
      match (← linkedDocument.entityAt? l.range.start).filter isCounterpart with
      | none => refuse missing
      | some linked =>
        let current ← Signature.ofEntity function
        let linked ← Signature.ofEntity linked
        return SignatureUpdate.edits current linked linkedDocument.toTextDocument

end CodeAction

end CppScaffold
