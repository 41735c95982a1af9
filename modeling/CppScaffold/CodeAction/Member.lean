import CppScaffold.CodeAction.Declaration
import CppScaffold.Generate.Accessor

/-!
# Adding members

Accessors and operators are declared in their class and defined in place, below the class or in the
source file.
-/

namespace CppScaffold

open Text

inductive MemberFunction where
  | accessor (a : Accessor)
  | operator (o : Operator)

namespace MemberFunction

def parent? : MemberFunction → Option Entity
  | accessor a => a.parent?
  | operator o => some o.parent

def declaration : MemberFunction → Text
  | accessor a => a.declaration
  | operator o => o.declaration

def body : MemberFunction → Text
  | accessor a => a.body
  | operator o => o.body

def definition (target : OpenDocument) (p : Position) (separator : Text) : MemberFunction → CodeAction Text
  | accessor a => a.definition target p separator
  | operator o => o.definition target p separator

def anchor : MemberFunction → Entity
  | accessor a => a.member
  | operator o => o.parent

end MemberFunction

namespace CodeAction

def braceSeparator (eol : Text) : CodeAction Text :=
  return if (← settings).braceStyle = .newLine then eol else [' ']

def definitionTarget (c : Entity) (d : OpenDocument) (site : DefinitionSite) : CodeAction OpenDocument := do
  if site = .sourceFile then
    if (← isHeader d.toTextDocument) && !c.hasUnspecializedTemplate then
      match ← partnerUri d.uri with
      | some uri => return (← d.openOther uri)
      | none => return d
  return d

def definitionPlace (f : MemberFunction) (c : Entity) (declared : Placement) (d target : OpenDocument) :
    CodeAction Placement := do
  let neighbour := declared.relativeTo.bind fun r => c.children.find? (·.fullRange = r)
  match neighbour.filter (·.isFunction) with
  | some n =>
    let side := if declared.after then some .after else if declared.before then some .before else none
    d.placeForCounterpart n target none none side
  | none => d.placeForCounterpart f.anchor target none none none

def addMember (f : MemberFunction) (c : Entity) (declared : Placement) (d : OpenDocument) (site : DefinitionSite)
    (checkAccess : Bool) (edit : WorkspaceEdit) : CodeAction WorkspaceEdit := do
  let withAccess (text : Text) : Text :=
    if checkAccess then withSpecifier c .isPublic declared.position d.eol text else text
  if site = .inline then
    let text ← if f.body.contains '\n' then f.definition d declared.position (← braceSeparator d.eol)
      else pure (f.declaration ++ " \x7b " ++ f.body ++ " \x7d")
    return edit.insert d.uri declared.position (← d.formatAt (withAccess text) declared)
  else
    let target ← definitionTarget c d site
    let separator ← braceSeparator target.eol
    let place ← definitionPlace f c declared d target
    let definition ← f.definition target place.position separator
    let declaration ← d.formatAt (withAccess (f.declaration ++ [';'])) declared
    let edit := edit.insert d.uri declared.position declaration
    return edit.insert target.uri place.position (← target.formatAt definition place)

def nextPlace (p : Placement) : Placement := { p with before := false, after := true, nextTo := true }

/-! ## Accessors -/

def memberAt (uri : Text) (p : Position) : CodeAction (OpenDocument × Entity × Entity) := do
  let d ← openDocument uri
  if !(← isHeader d.toTextDocument) then refuse .notAHeader
  match (← d.entityAt? p).filter (·.isMemberVariable) with
  | none => refuse .noMemberVariable
  | some member =>
    match member.parent? with
    | none => refuse .noMemberVariable
    | some c => return (d, member, c)

def addGetter (d : OpenDocument) (member c : Entity) : CodeAction WorkspaceEdit := do
  let s ← settings
  if (c.getterFor? member s.caseStyle).isSome then refuse .getterExists
  let place := c.placeForFunction .isPublic (some (member.setterName s.caseStyle)) (some member) s
  addMember (.accessor (.getter member s)) c place d s.getterSite true {}

def addSetter (d : OpenDocument) (member c : Entity) : CodeAction WorkspaceEdit := do
  let s ← settings
  if member.isConst then refuse .constMember
  if (c.setterFor? member s.caseStyle).isSome then refuse .setterExists
  let place := c.placeForFunction .isPublic (some (member.getterName s.caseStyle)) (some member) s
  addMember (.accessor (.setter member s)) c place d s.setterSite true {}

def generateGetter (uri : Text) (p : Position) : CodeAction WorkspaceEdit := do
  let (d, member, c) ← memberAt uri p
  addGetter d member c

def generateSetter (uri : Text) (p : Position) : CodeAction WorkspaceEdit := do
  let (d, member, c) ← memberAt uri p
  addSetter d member c

def generateAccessors (uri : Text) (p : Position) : CodeAction WorkspaceEdit := do
  let (d, member, c) ← memberAt uri p
  let s ← settings
  let hasGetter := (c.getterFor? member s.caseStyle).isSome
  let hasSetter := (c.setterFor? member s.caseStyle).isSome
  if member.isConst then
    if hasGetter then refuse .constMemberWithGetter else addGetter d member c
  else match hasGetter, hasSetter with
    | true, true => refuse .getterAndSetterExist
    | true, false => addSetter d member c
    | false, true => addGetter d member c
    | false, false =>
      let place := c.placeForFunction .isPublic none none s
      let edit ← addMember (.accessor (.getter member s)) c place d s.getterSite true {}
      addMember (.accessor (.setter member s)) c (nextPlace place) d s.setterSite false edit

/-! ## Operators -/

inductive OperatorGroup where
  | equality
  | relational
  | streamOutput
  deriving DecidableEq, Repr

def OperatorGroup.names : List (Text × OperatorGroup) :=
  [("equality", .equality), ("relational", .relational), ("stream_output", .streamOutput)]

def operatorsOf (group : OperatorGroup) (c : Entity) (settings : Settings) (operands : List Operand) :
    Outcome (List Operator) :=
  match group with
  | .equality => Operator.equality c settings operands
  | .relational => Operator.relational c settings operands
  | .streamOutput => return [← Operator.streamOutput c settings operands]

def addOperators (operators : List Operator) (c : Entity) (d : OpenDocument) (site : Text) :
    CodeAction WorkspaceEdit := do
  match (NamedChoice.ofName? site : Option DefinitionSite) with
  | none => refuse (.unknownDefinitionLocation site)
  | some site =>
    let first := c.placeForFunction .isPublic none none (← settings)
    operators.zipIdx.foldlM
      (fun edit (o, i) => addMember (.operator o) c (if i = 0 then first else nextPlace first) d site (i = 0) edit) {}

def addStreamInclude (d : OpenDocument) (edit : WorkspaceEdit) : CodeAction WorkspaceEdit := do
  if d.includedFiles.any fun f => f == "ostream" || f == "iostream" then return edit
  else
    let p ← d.placeForInclude (← settings) .system
    return edit.insert d.uri p ("#include <ostream>" ++ d.eol)

def generateOperators (kind uri : Text) (p : Position) (operands : Option Json) (site : Text) :
    CodeAction WorkspaceEdit := do
  match OperatorGroup.names.lookup kind with
  | none => refuse (.unknownOperatorKind kind)
  | some group =>
    let d ← openDocument uri
    let c ← classAt d p
    let chosen ← Operand.select c operands
    let operators ← operatorsOf group c (← settings) chosen
    let edit ← addOperators operators c d site
    if group = .streamOutput then addStreamInclude d edit else return edit

end CodeAction

end CppScaffold
