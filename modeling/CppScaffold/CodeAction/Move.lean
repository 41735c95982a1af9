import CppScaffold.CodeAction.Declaration

/-!
# Moving definitions

A definition moves to the matching file, or into or out of its class, and leaves a declaration behind where there is
none.
-/

namespace CppScaffold

open Text

namespace Entity

/-- What is removed when a definition moves away: the definition with its comment, and an empty line on
either side. -/
def deletionRange (e : Entity) : Range :=
  let d := e.document.toTextDocument
  let range := e.rangeWithComment
  let previous := range.start.line - 1
  let range := if previous ≥ 0 && (d.lineAt previous).isBlank then range.union (d.lineAt previous).range else range
  let next := range.stop.line + 1
  if next < d.lineCount && (d.lineAt next).isBlank then range.union (d.lineAt next).range else range

/-- What a declaration takes the place of when a definition moves away. -/
def movedRange (e : Entity) (settings : Settings) : Range :=
  if settings.alwaysMoveComments then e.rangeWithComment else e.fullRange

end Entity

namespace CodeAction

def linkedDeclaration (definition : Entity) : CodeAction (Option Entity) := do
  match ← definition.findDeclaration with
  | none => return none
  | some l =>
    let d ← definition.document.openOther l.uri
    return (← d.entityAt? l.range.start).filter fun e => e.name == definition.name && e.isFunctionDeclaration

def moveToPartner (uri : Text) (p : Position) : CodeAction WorkspaceEdit := do
  let d ← openDocument uri
  let found ← d.entityAt? p
  let partner ← partnerUri uri
  match found.filter (·.isFunctionDefinition) with
  | none => refuse .noFunctionDefinition
  | some definition =>
    match partner with
    | none => refuse .noMatchingFile
    | some partner =>
      checkDefinableElsewhere definition true
      let target ← d.openOther partner
      let declaration ← linkedDeclaration definition
      let declared := declaration.getD definition
      let place ← declared.document.placeForCounterpart declared target none none none
      let text ← definition.definitionAt target place.position declaration true
      let edit := WorkspaceEdit.insert {} target.uri place.position (← target.formatAt text place)
      let leavesDeclaration ← if declaration.isNone then isHeader d.toTextDocument else pure false
      if leavesDeclaration then
        return edit.replace uri (definition.movedRange (← settings)) definition.ownDeclaration
      else return edit.delete uri definition.deletionRange

def moveOutOfClass (uri : Text) (d : OpenDocument) (definition : Entity) : CodeAction WorkspaceEdit := do
  let place ← d.placeForCounterpart definition d none none none
  let text ← definition.definitionAt d place.position none true
  let edit := WorkspaceEdit.insert {} uri place.position (← d.formatAt text place)
  return edit.replace uri (definition.movedRange (← settings)) definition.ownDeclaration

def moveIntoClass (uri : Text) (d : OpenDocument) (definition : Entity) (access : Text) : CodeAction WorkspaceEdit := do
  match ← definition.parentClass? with
  | none => refuse .notAMemberFunction
  | some c =>
    let level ← accessLevel access
    let target := c.document
    let place ← d.placeForCounterpart definition target (some c) (some level) none
    let text ← definition.definitionAt target place.position none false
    let text := withSpecifier c level place.position target.eol text
    let edit := WorkspaceEdit.insert {} target.uri place.position (← target.formatAt text place)
    return edit.delete uri definition.deletionRange

def moveAcrossClass (uri : Text) (p : Position) (access : Text) : CodeAction WorkspaceEdit := do
  let d ← openDocument uri
  match (← d.entityAt? p).filter (·.isFunctionDefinition) with
  | none => refuse .noFunctionDefinition
  | some definition =>
    if definition.parent?.any (·.isClass) then moveOutOfClass uri d definition
    else
      let declaration ← linkedDeclaration definition
      match declaration.filter fun e => e.parent?.any (·.isClass) with
      | some e =>
        let edit := WorkspaceEdit.replace {} e.uri e.fullRange (e.withBodyOf definition)
        return edit.delete uri definition.deletionRange
      | none => moveIntoClass uri d definition access

def moveDefinition (destination uri : Text) (p : Position) (access : Text) : CodeAction WorkspaceEdit :=
  if destination == "matching_source_file" then moveToPartner uri p
  else if destination == "class" then moveAcrossClass uri p access
  else refuse (.unknownDestination destination)

end CodeAction

end CppScaffold
