import CppScaffold.CodeAction.Definition

/-!
# Adding declarations

A function that is defined is declared in its class, or else in the matching header or the same file.
-/

namespace CppScaffold.CodeAction

open Text

def accessLevel (name : Text) : CodeAction AccessLevel :=
  match AccessLevel.ofName? name with
  | some a => return a
  | none => refuse (.unknownAccessLevel name)

def withSpecifier (c : Entity) (access : AccessLevel) (p : Position) (eol text : Text) : Text :=
  if c.hasAccessAt p access then text else access.specifier ++ eol ++ text

def declarationTarget (d : OpenDocument) (partner : Option Text) : CodeAction OpenDocument := do
  match partner with
  | none => return d
  | some uri =>
    if ← (← settings).isHeaderExtension (Path.extension (← Uri.toPath uri)) then d.openOther uri else return d

def checkUndeclared (definition : Entity) (target : OpenDocument) : CodeAction Unit := do
  match ← definition.findDeclaration with
  | none => return
  | some l =>
    if (← Uri.toPath l.uri) == (← target.path) then
      if (← target.entityAt? l.range.start).any (·.namesSame definition) then refuse .declarationExists

def addDeclaration (uri : Text) (p : Position) (access : Text) : CodeAction WorkspaceEdit := do
  let d ← openDocument uri
  let found ← d.entityAt? p
  let partner ← partnerUri uri
  match found.filter (·.isFunctionDefinition) with
  | none => refuse .noFunctionDefinition
  | some definition =>
    let parentClass ← definition.parentClass?
    if parentClass.isSome && definition.parent?.any (·.isClass) then refuse .declarationExists
    let target ← match parentClass with
      | some c => pure c.document
      | none => declarationTarget d partner
    checkUndeclared definition target
    let level ← parentClass.mapM fun _ => accessLevel access
    let place ← d.placeForCounterpart definition target parentClass level none
    let declaration ← definition.declarationAt target place.position
    let text := match parentClass, level with
      | some c, some a => withSpecifier c a place.position target.eol declaration
      | _, _ => declaration
    return WorkspaceEdit.insert {} target.uri place.position (← target.formatAt text place)

end CppScaffold.CodeAction
