import CppScaffold.Entity.Members
import CppScaffold.Files.PairCache
import CppScaffold.Link
import CppScaffold.Symbol.Cache

/-!
# The workspace of an action

Actions ask a source of symbols for documents, symbols and links. The symbols of an opened document are
asked for once, when they are first needed; a cache may answer instead of the source. What an action has
asked for so far is kept even if it fails.
-/

namespace CppScaffold

open Text

structure SymbolSource where
  read : Text → Outcome TextDocument
  symbols : Text → Outcome (List SymbolInfo)
  definitions : Text → Position → Outcome (List ReportedLocation)
  declarations : Text → Position → Outcome (List ReportedLocation)
  inWorkspace : Text → Outcome Bool

/-- Finds the partner of a file, with the help of known pairs. -/
abbrev PartnerSearch := PairCache → Text → Outcome (Option Text) × PairCache

structure Workspace where
  source : SymbolSource
  settings : Settings := .standard
  partners : Option PartnerSearch := none

structure ActionState where
  requests : Nat := 0
  cache : Option (SymbolCache Symbol) := none
  pairs : PairCache := {}
  openings : Nat := 0
  loaded : List (Nat × List Symbol) := []

abbrev CodeAction := Action Workspace ActionState

namespace CodeAction

def refuse {α : Type} (cause : ActionError) : CodeAction α := throw (.action cause)

def settings : CodeAction Settings := return (← read).settings

def source : CodeAction SymbolSource := return (← read).source

def openDocument (uri : Text) : CodeAction OpenDocument := do
  let d ← (← source).read uri
  let n := (← get).openings
  modify fun s => { s with openings := n + 1 }
  return ⟨d, n⟩

def cachedSymbols (d : OpenDocument) : CodeAction (Option (List Symbol)) := do
  match (← get).cache with
  | none => return none
  | some c =>
    let (found, c) := c.get d.uri d.text
    modify fun s => { s with cache := some c }
    found

def requestedSymbols (d : OpenDocument) : CodeAction (List Symbol) := do
  modify fun s => { s with requests := s.requests + 1 }
  let reported ← (← source).symbols d.uri
  let infos := reported.mergeSort fun a b => a.range.listedBefore b.range
  match (← get).cache with
  | none => return Symbol.ofInfos infos
  | some c =>
    let (symbols, c) := c.put d.uri d.text infos
    modify fun s => { s with cache := some c }
    symbols

def isHeader (d : TextDocument) : CodeAction Bool := do
  (← settings).isHeaderExtension (Path.extension (← d.path))

def isSource (d : TextDocument) : CodeAction Bool := do
  (← settings).isSourceExtension (Path.extension (← d.path))

def partnerUri (uri : Text) : CodeAction (Option Text) := do
  match (← read).partners with
  | none => return none
  | some search =>
    let path ← Uri.toPath uri
    let (found, pairs) := search (← get).pairs path
    modify fun s => { s with pairs }
    return (← found).map Uri.ofPath

end CodeAction

namespace OpenDocument

open CodeAction

def openOther (d : OpenDocument) (uri : Text) : CodeAction OpenDocument :=
  if uri == d.uri then return d else openDocument uri

def symbols (d : OpenDocument) : CodeAction (List Symbol) := do
  match (← get).loaded.lookup d.opening with
  | some symbols => return symbols
  | none =>
    let symbols ← match ← cachedSymbols d with
      | some symbols => pure symbols
      | none => requestedSymbols d
    modify fun s => { s with loaded := (d.opening, symbols) :: s.loaded }
    return symbols

def entityAt? (d : OpenDocument) (p : Position) : CodeAction (Option Entity) := do
  return (ScopedSymbol.innermostIn p [] (← d.symbols)).map (⟨d, ·⟩)

def entities (d : OpenDocument) : CodeAction (List Entity) := do
  return (ScopedSymbol.preorderAll [] (← d.symbols)).map (⟨d, ·⟩)

def functions (d : OpenDocument) : CodeAction (List Entity) := return (← d.entities).filter (·.isFunction)

def namesakes (d : OpenDocument) (target : Entity) : CodeAction (List Entity) :=
  return (← d.entities).filter fun e => e.name == target.name && e.namesSame target

def namesakesOfSymbol (d : OpenDocument) (target : ScopedSymbol) : CodeAction (List Entity) :=
  return (← d.entities).filter fun e => e.node.namesSame target

end OpenDocument

namespace CodeAction

/-- The candidate most likely to be the counterpart of what stands in a range, unless it is that
itself. -/
def linked (uri : Text) (range : Range) (candidates : List ReportedLocation) : CodeAction (Option Location) := do
  Location.linked (← source).inWorkspace uri range (candidates.map .ofReported)

def definitionOfFragment (d : OpenDocument) (f : Fragment) : CodeAction (Option Location) := do
  linked d.uri f.range (← (← source).definitions d.uri f.selection.start)

end CodeAction

namespace Entity

open CodeAction

def findDefinition (e : Entity) : CodeAction (Option Location) := do
  linked e.uri e.range (← (← source).definitions e.uri e.selection.start)

def findDeclaration (e : Entity) : CodeAction (Option Location) := do
  linked e.uri e.range (← (← source).declarations e.uri e.selection.start)

/-- The class of a member: the one around it, or the one that the scope written before its name
leads to. -/
def parentClass? (e : Entity) : CodeAction (Option Entity) := do
  match e.parent? with
  | some p => if p.isClass then return some p else byScope
  | none => byScope
where
  byScope : CodeAction (Option Entity) := do
    match e.immediateScope? with
    | none => return none
    | some scope =>
      match ← definitionOfFragment e.document scope with
      | none => return none
      | some l =>
        let d ← e.document.openOther l.uri
        return (← d.entityAt? l.range.start).filter (·.isClass)

/-- What must be written before the name of an entity at a position of the target. Scopes that are open
there are left out. A friend belongs to the enclosing namespace and not to the class. -/
def scopeString (e : Entity) (target : OpenDocument) (p : Position) (forFriend : Option Bool) : CodeAction Text := do
  let own := if e.isClass || e.isNamespace then [e] else []
  let all := e.scopes ++ own
  let needed := if forFriend.getD e.isFriend then all.filter (!·.isClass) else all
  let pieces ← needed.mapM fun scope => do
    let open_ := (← target.namesakes scope).any (·.range.containsStrictly p)
    if open_ then return []
    else
      let written := scope.document.getText ⟨scope.scopesStart, scope.selection.stop⟩
      return written ++ scope.templateParameters ++ "::".toList
  return pieces.flatten

end Entity

end CppScaffold
