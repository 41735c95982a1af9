import CppScaffold.Document.Edit
import CppScaffold.Generate.Declaration
import CppScaffold.Generate.Operator
import CppScaffold.Placement.Search

/-!
# Adding definitions

The definition of a declared function: its head where it goes, the initializers of a constructor and an empty body.
Names come as any JSON value, which is refused only where names are needed.
-/

namespace CppScaffold

open Text

namespace Initializers

/-- The names under which each candidate, given by its place, can be requested: a base class by its name or as written.
-/
def keys (candidates : List Operand) : List (Text × Nat) :=
  candidates.zipIdx.flatMap fun (o, i) =>
    match o with
    | .base f => [(f.name, i), (f.text, i)]
    | .member e => [(e.name, i)]

/-- The place of the candidate that a name denotes; a later candidate hides an earlier one. -/
def lookup? (candidates : List Operand) (name : Text) : Option Nat := (keys candidates).reverse.lookup name

def requested (className : Text) (candidates : List Operand) : List Nat → List Json → Outcome (List Nat)
  | chosen, [] => .ok chosen
  | chosen, n :: rest => do
    n.hashable
    match n.str?.bind (lookup? candidates) with
    | none => .error (.action (.unknownInitializer n.spoken className))
    | some i => requested className candidates (if chosen.contains i then chosen else chosen ++ [i]) rest

/-- The members that must be initialized, added to what was chosen unless something of that name is
there. -/
def addRequired (chosen : List Operand) (members : List Entity) : List Operand :=
  members.foldl (fun os m => if os.any (·.name == m.name) then os else os ++ [.member m]) chosen

/-- What a constructor initializes: the requested parts with all constants and references, in the order of their
declarations, or another constructor alone. -/
def resolveIn (c : Entity) (names : List Json) : Outcome (List Operand) := do
  if names.any (·.str? == some c.name) then
    if names.length > 1 then .error (.action .delegatingWithOthers) else return [.member c]
  else
    let candidates := Operand.all c
    let chosen := (← requested c.name candidates [] names).filterMap (candidates[·]?)
    return (addRequired chosen c.membersToInitialize).mergeSort fun a b => a.range.start ≤ b.range.start

/-- What a function initializes; only the constructors of a class initialize anything. A value that counts as
false requests nothing. -/
def resolve (declaration : Entity) (names : Option Json) : Outcome (List Operand) := do
  match declaration.parent? with
  | none => return []
  | some c =>
    if !declaration.isConstructor || !c.isClass then return []
    else
      let given ← match names.filter Json.isTruthy with
        | some v => v.elements
        | none => pure []
      resolveIn c given

def render (settings : Settings) (eol : Text) (initializers : List Operand) : Outcome Text := do
  if initializers.isEmpty then return []
  else
    let indentation ← settings.indentationText
    let body := if settings.bracedInitialization then "\x7b\x7d" else "()"
    let separator := ',' :: eol ++ indentation ++ "  "
    return eol ++ indentation ++ ": " ++ join separator (initializers.map (·.name ++ body))

end Initializers

namespace CodeAction

def skeleton (declaration : Entity) (target : OpenDocument) (place : Placement)
    (initializers : Option Json) : CodeAction Text := do
  let s ← settings
  let eol := target.eol
  let indentation ← s.indentation
  let head ← declaration.definitionHead target place.position
  let list ← Initializers.render s eol (← Initializers.resolve declaration initializers)
  let indentation ← indentation.textToJoin
  let ownLine := match s.braceStyle with
    | .newLine => true
    | .newLineForConstructors => declaration.isConstructor || declaration.isDestructor
    | .sameLine => false
  let opening := if ownLine then eol ++ ['{'] else [' ', '{']
  target.formatAt (head ++ list ++ opening ++ eol ++ indentation ++ eol ++ ['}']) place

def defineIn (declaration : Entity) (d target : OpenDocument) (edit : WorkspaceEdit)
    (initializers : Option Json) : CodeAction WorkspaceEdit := do
  let place ← d.placeForCounterpart declaration target none none none
  return edit.insert target.uri place.position (← skeleton declaration target place initializers)

/-- Refuses functions whose definition must stand in the file of their declaration. -/
def checkDefinableElsewhere (e : Entity) (allowInline : Bool) : CodeAction Unit := do
  if e.isInline && !allowInline then refuse .inlineElsewhere
  if e.isConstexpr then refuse .constexprElsewhere
  if e.isConsteval then refuse .constevalElsewhere
  if e.hasUnspecializedTemplate then refuse .templateElsewhere

/-- Adds a definition for the function declared at a position, in the partner of the file or in the file
itself. -/
def addDefinition (uri : Text) (p : Position) (inCurrentFile : Bool) (initializers : Option Json) :
    CodeAction WorkspaceEdit := do
  let d ← openDocument uri
  if !inCurrentFile then
    if !(← isHeader d.toTextDocument) then refuse .notAHeader
  let found ← d.entityAt? p
  let targetUri ← if inCurrentFile then pure (some uri) else partnerUri uri
  match found.filter (·.isFunctionDeclaration) with
  | none => refuse .noFunctionDeclaration
  | some declaration =>
    match targetUri with
    | none => refuse .noMatchingFile
    | some targetUri =>
      if !inCurrentFile then checkDefinableElsewhere declaration false
      if (← declaration.findDefinition).isSome then refuse .definitionExists
      let target ← d.openOther targetUri
      defineIn declaration d target {} initializers

def classAt (d : OpenDocument) (p : Position) : CodeAction Entity := do
  let found ← d.entityAt? p
  let outer := found.bind fun e => if e.isClass then some e else e.parent?
  match outer.filter (·.isClass) with
  | some c => return c
  | none => refuse .noClass

/-- Whether a name is among those that a value lists; without a value all names are. -/
def isListed (names : Option Json) (name : Text) : Outcome Bool :=
  match names with
  | none | some .null => .ok true
  | some v => v.lists name

def declaredFunctions (d : OpenDocument) (p : Option Position) : CodeAction (List Entity) := do
  let declared := (← d.functions).filter (·.isFunctionDeclaration)
  match p with
  | none => return declared
  | some p =>
    let c ← classAt d p
    return declared.filter fun e => c.range.encloses e.range

def undefinedFunctions (d : OpenDocument) (p : Option Position) (names : Option Json) : CodeAction (List Entity) := do
  let chosen ← (← declaredFunctions d p).filterM fun e => liftExcept (isListed names e.name)
  chosen.filterM fun e => return (← e.findDefinition).isNone

/-- Where the definitions of functions go: into the file itself, if asked for or if they must be visible there,
and otherwise into its partner. -/
def definitionsUri (uri : Text) (inCurrentFile : Bool) (functions : List Entity) : CodeAction (Option Text) :=
  if inCurrentFile || functions.any (·.requiresVisibleDefinition) then return some uri else partnerUri uri

/-- Adds definitions for the functions of a file, or of the class at a position, that have one of the given
names and are declared and not defined. -/
def addDefinitions (uri : Text) (p : Option Position) (inCurrentFile : Bool) (names : Option Json) :
    CodeAction WorkspaceEdit := do
  let d ← openDocument uri
  let undefined ← undefinedFunctions d p names
  if undefined.isEmpty then refuse .noUndefinedFunctions
  else match ← definitionsUri uri inCurrentFile undefined with
    | none => refuse .noMatchingFile
    | some targetUri =>
      let target ← d.openOther targetUri
      let _ ← target.path
      undefined.foldlM (fun edit e => defineIn e d target edit none) {}

end CodeAction

end CppScaffold
