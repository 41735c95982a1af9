import CppScaffold.Symbol.Info
import CppScaffold.Symbol.Name

/-!
# Symbol trees

The reported symbols become a forest of symbols with bare names, ordered by where they end.
-/

namespace CppScaffold

open Text

structure Symbol where
  name : Text
  signature : Text
  detail : Text
  kind : SymbolKind
  range : Range
  selection : Range
  children : List Symbol
  deriving Inhabited

namespace Symbol

def listedBefore (a b : Symbol) : Bool := a.range.listedBefore b.range

def detailHasParameters (name detail : Text) : Bool :=
  !name.isEmpty && occursIn (name ++ ['(']) detail

def signatureOf (name reported detail : Text) : Text :=
  if detailHasParameters name detail then detail else reported

def kindOf (name reported detail : Text) (kind : SymbolKind) : SymbolKind :=
  if kind = .property && (detailHasParameters name detail || reported.contains '(') then .method
  else kind

mutual

def ofInfo : SymbolInfo → Symbol
  | ⟨reported, kind, range, selection, detail, children⟩ =>
    let name := SymbolName.strip reported
    { name
      signature := signatureOf name reported detail
      detail
      kind := kindOf name reported detail kind
      range
      selection
      children := (ofInfos children).mergeSort listedBefore }

def ofInfos : List SymbolInfo → List Symbol
  | [] => []
  | s :: rest => ofInfo s :: ofInfos rest

end

def isFunction (s : Symbol) : Bool := s.kind.isFunction

def isClass (s : Symbol) : Bool := s.kind.isClass

def isNamespace (s : Symbol) : Bool := s.kind = .namespaceScope

def isVariable (s : Symbol) : Bool := s.kind.isVariable

def isAnonymous (s : Symbol) : Bool := s.name.isEmpty || occursIn "anonymous" s.name

end Symbol

structure ScopedSymbol where
  symbol : Symbol
  ancestors : List Symbol := []
  deriving Inhabited

namespace ScopedSymbol

def parent? (s : ScopedSymbol) : Option ScopedSymbol :=
  match s.ancestors with
  | [] => none
  | p :: rest => some ⟨p, rest⟩

def scopes (s : ScopedSymbol) : List Symbol := s.ancestors.reverse

def ofChain : List Symbol → List ScopedSymbol
  | [] => []
  | p :: rest => ⟨p, rest⟩ :: ofChain rest

def scopedScopes (s : ScopedSymbol) : List ScopedSymbol := (ofChain s.ancestors).reverse

def children (s : ScopedSymbol) : List ScopedSymbol :=
  s.symbol.children.map fun c => ⟨c, s.symbol :: s.ancestors⟩

def isMemberVariable (s : ScopedSymbol) : Bool :=
  s.symbol.kind.isField && s.ancestors.head?.any Symbol.isClass

/-- Whether two symbols name the same entity: the same name, both or neither functions, otherwise the
same kind, and the same scopes apart from functions. -/
def namesSame (a b : ScopedSymbol) : Bool :=
  let named (s : ScopedSymbol) := (s.scopes.filter (!·.isFunction)).map (·.name)
  a.symbol.name == b.symbol.name && a.symbol.isFunction == b.symbol.isFunction
    && (a.symbol.isFunction || a.symbol.kind = b.symbol.kind) && named a == named b

mutual

def preorder (ancestors : List Symbol) : Symbol → List ScopedSymbol
  | ⟨name, signature, detail, kind, range, selection, children⟩ =>
    let s : Symbol := ⟨name, signature, detail, kind, range, selection, children⟩
    ⟨s, ancestors⟩ :: preorderAll (s :: ancestors) children

def preorderAll (ancestors : List Symbol) : List Symbol → List ScopedSymbol
  | [] => []
  | s :: rest => preorder ancestors s ++ preorderAll ancestors rest

end

mutual

def innermost (p : Position) (ancestors : List Symbol) : Symbol → ScopedSymbol
  | ⟨name, signature, detail, kind, range, selection, children⟩ =>
    let s : Symbol := ⟨name, signature, detail, kind, range, selection, children⟩
    if children.isEmpty || selection.contains p then ⟨s, ancestors⟩
    else (innermostIn p (s :: ancestors) children).getD ⟨s, ancestors⟩

/-- The innermost symbol of a forest at a position. The first symbol that contains the position is
entered, unless its name stands there. -/
def innermostIn (p : Position) (ancestors : List Symbol) : List Symbol → Option ScopedSymbol
  | [] => none
  | s :: rest =>
    if s.range.contains p then some (innermost p ancestors s) else innermostIn p ancestors rest

end

end ScopedSymbol

end CppScaffold
