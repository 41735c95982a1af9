import CppScaffold.Document.Directive
import CppScaffold.Workspace

/-!
# Where counterparts go

The counterpart of a function goes next to those of its siblings, checked from near to far, or else to the end of the
innermost common namespace or of the target.
-/

namespace CppScaffold

open Text CodeAction

inductive Side where
  | before
  | after
  | either
  deriving DecidableEq, Repr

def Side.ofName (name : Text) : Side :=
  if name == "after" then .after
  else if name == "before" then .before
  else .either

namespace OpenDocument

/-- How many siblings on either side of a function are checked. -/
def siblingLimit : Nat := 6

/-- The place after the last top-level symbol, or after the last line that is not blank. -/
def lastPlace (d : OpenDocument) : CodeAction Placement := do
  match (← d.symbols).getLast? with
  | none => return d.endPlace
  | some s =>
    let last : Entity := ⟨d, s, []⟩
    return { position := last.range.stop, relativeTo := some last.fullRange, after := true }

/-- Whether the body of a namespace is indented: as settings say or, if they leave it open, as the first
symbol in it is. -/
def indentsNamespace (d : OpenDocument) (settings : Settings) (space : Option Entity) : Bool :=
  match settings.namespaceIndentation with
  | .always => true
  | .never => false
  | .auto =>
    match space with
    | none => true
    | some e =>
      match e.node.children.head? with
      | none => true
      | some child => (Entity.mk d child).indentation != e.indentation

def formatAt (d : OpenDocument) (text : Text) (p : Placement) : CodeAction Text := do
  let s ← settings
  p.formatWith text d.toTextDocument (← s.indentation) (d.indentsNamespace s none)

def namespaceEnd (d : OpenDocument) : List Entity → CodeAction (Option Placement)
  | [] => return none
  | scope :: rest => do
    if !scope.isNamespace then namespaceEnd d rest
    else match (← d.namesakes scope).head? with
      | none => namespaceEnd d rest
      | some space =>
        match space.children.getLast? with
        | none => return some { position := space.bodyStart, relativeTo := some space.fullRange, after := true,
                                nextTo := true, emptyScope := true, inNamespace := true }
        | some last =>
          return some { position := last.range.stop, relativeTo := some last.fullRange, after := true }

def namespaceFallback (d : OpenDocument) (anchor : Entity) : CodeAction (Option Placement) :=
  d.namespaceEnd anchor.scopes.reverse

/-- Where the counterpart of a sibling is reported to stand: the definition of a declaration, or the
declaration of a definition. -/
def siblingLocation (ofDeclarations : Bool) (sibling : Entity) : CodeAction (Option Location) :=
  if ofDeclarations then
    if sibling.isFunctionDeclaration then sibling.findDefinition else return none
  else if sibling.isFunctionDefinition then sibling.findDeclaration
  else return none

/-- Whether an entity of the target is of use as a neighbour: it is a function that shares a scope with the
anchor and does not stand in the same class. -/
def isNeighbour (d : OpenDocument) (anchor : Entity) (target : OpenDocument) (counterpart : Entity) : Bool :=
  let anchorScopes := anchor.allScopes
  let scopes := counterpart.allScopes
  let unrelated := !(anchorScopes.isEmpty && scopes.isEmpty) && !scopes.any anchorScopes.contains
  let inSameClass := target.uri == d.uri && match anchor.node.ancestors with
    | p :: _ => p.range.encloses counterpart.selection
    | [] => false
  counterpart.isFunction && !unrelated && !inSameClass

def linkedSibling (d : OpenDocument) (anchor : Entity) (ofDeclarations : Bool) (target : OpenDocument)
    (sibling : Entity) : CodeAction (Option Entity) := do
  match ← siblingLocation ofDeclarations sibling with
  | none => return none
  | some l =>
    if (← Uri.toPath l.uri) != (← target.path) then return none
    else return (← target.entityAt? l.range.start).filter (d.isNeighbour anchor target)

def firstLinked (d : OpenDocument) (anchor : Entity) (ofDeclarations : Bool) (target : OpenDocument) :
    List Entity → CodeAction (Option Entity)
  | [] => return none
  | s :: rest => do
    match ← d.linkedSibling anchor ofDeclarations target s with
    | some e => return some e
    | none => firstLinked d anchor ofDeclarations target rest

def siblingFunctions (d : OpenDocument) (anchor : Entity) (topLevel : List Symbol) : List Entity :=
  let all : List ScopedSymbol := match anchor.node.parent? with
    | some p => p.children
    | none => topLevel.map (⟨·, []⟩)
  (all.map fun s => (⟨d, s⟩ : Entity)).filter (·.isFunction)

def siblingPlace (d : OpenDocument) (anchor : Entity) (target : OpenDocument) (topLevel : List Symbol)
    (side : Option Side) : CodeAction (Option Placement) := do
  let siblings := d.siblingFunctions anchor topLevel
  match siblings.findIdx? (·.selection = anchor.selection) with
  | none => return none
  | some i =>
    let ofDeclarations := anchor.isFunctionDeclaration || side.isSome
    let own := siblings[i]?.toList
    let before := (if side = some .after then own else []) ++ (siblings.take i).reverse
    let after := (if side = some .before then own else []) ++ siblings.drop (i + 1)
    match ← d.firstLinked anchor ofDeclarations target (before.take siblingLimit) with
    | some e => return some { position := e.range.stop, relativeTo := some e.fullRange, after := true }
    | none =>
      match ← d.firstLinked anchor ofDeclarations target (after.take siblingLimit) with
      | some e =>
        let start := e.leadingCommentStart
        return some { position := start, relativeTo := some ⟨start, e.range.stop⟩, before := true }
      | none => return none

/-- The place in the target for the counterpart of a function of this document, or for a function that is
to be declared next to it. -/
def placeForCounterpart (d : OpenDocument) (anchor : Entity) (target : OpenDocument) (parentClass : Option Entity)
    (access : Option AccessLevel) (side : Option Side) : CodeAction Placement := do
  if (← target.symbols).isEmpty then return target.endPlace
  else
    let topLevel ← d.symbols
    if anchor.uri != d.uri || (anchor.node.ancestors.isEmpty && topLevel.isEmpty) then target.lastPlace
    else match access, parentClass with
      | some a, some c => return c.placeForFunction a none none (← settings)
      | _, _ =>
        match ← d.siblingPlace anchor target topLevel side with
        | some p => return p
        | none =>
          match ← target.namespaceFallback anchor with
          | some p => return p
          | none => target.lastPlace

end OpenDocument

end CppScaffold
