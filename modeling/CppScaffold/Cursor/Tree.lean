import CppScaffold.Cursor.ParsedText
import CppScaffold.Symbol.Info

/-!
# Cursor trees

A parser of C++ reports a tree of cursors, with places as byte offsets, from which the symbols of a file follow.
-/

namespace CppScaffold

open Text

structure Cursor where
  kind : Text
  spelling : Text := []
  displayName : Text := []
  type : Option Text := none
  file : Option Text := none
  start : Int := 0
  stop : Int := 0
  location : Int := 0
  parent : Option Nat := none
  canonical : Option Nat := none
  referenced : Option Nat := none
  definition : Option Nat := none
  usr : Text := []
  isDefinition : Bool := false
  children : List Nat := []
  deriving Inhabited

structure CursorTree where
  cursors : List Cursor
  byOffset : List (Nat × Nat) := []
  deriving Inhabited

structure ParsedFile where
  path : Text
  tree : CursorTree
  text : ParsedText
  stamp : Nat

namespace Cursor

def symbolKinds : List (Text × SymbolKind) :=
  [("NAMESPACE", .namespaceScope), ("CLASS_DECL", .classType), ("CLASS_TEMPLATE", .classType),
    ("CLASS_TEMPLATE_PARTIAL_SPECIALIZATION", .classType), ("STRUCT_DECL", .struct), ("UNION_DECL", .classType),
    ("ENUM_DECL", .enum), ("ENUM_CONSTANT_DECL", .enumMember), ("FUNCTION_DECL", .function),
    ("FUNCTION_TEMPLATE", .function), ("CXX_METHOD", .method), ("CONSTRUCTOR", .constructor),
    ("DESTRUCTOR", .method), ("CONVERSION_FUNCTION", .method), ("FIELD_DECL", .field), ("VAR_DECL", .plainVariable),
    ("TYPEDEF_DECL", .classType), ("TYPE_ALIAS_DECL", .classType)]

def isOneOf (c : Cursor) (kinds : List String) : Bool := kinds.any fun k => k.toList == c.kind

def isClass (c : Cursor) : Bool :=
  c.isOneOf ["CLASS_DECL", "CLASS_TEMPLATE", "CLASS_TEMPLATE_PARTIAL_SPECIALIZATION", "STRUCT_DECL", "UNION_DECL"]

def isScope (c : Cursor) : Bool := c.isClass || c.isOneOf ["NAMESPACE", "ENUM_DECL"]

def isInvalid (c : Cursor) : Bool :=
  c.isOneOf ["INVALID_FILE", "NO_DECL_FOUND", "NOT_IMPLEMENTED", "INVALID_CODE"]

def isSymbol (c : Cursor) : Bool := symbolKinds.any (·.1 == c.kind)

/-- The kind of symbol that a cursor is, given what it belongs to. Templates of member functions and
static members are told by that. -/
def symbolKind? (c : Cursor) (parent : Option Cursor) : Option SymbolKind :=
  (symbolKinds.lookup c.kind).map fun kind =>
    match parent.filter (·.isClass) with
    | none => kind
    | some p =>
      if c.isOneOf ["FUNCTION_TEMPLATE"] then
        if p.spelling == c.spelling then .constructor else .method
      else if c.isOneOf ["VAR_DECL"] then .field
      else kind

end Cursor

namespace ParsedFile

def cursor? (f : ParsedFile) (i : Nat) : Option Cursor := f.tree.cursors[i]?

def childrenOf (f : ParsedFile) (c : Cursor) : List Cursor := c.children.filterMap f.cursor?

def rangeOf (f : ParsedFile) (c : Cursor) : Range := ⟨f.text.positionAt c.start, f.text.positionAt c.stop⟩

def holds (f : ParsedFile) (c : Cursor) : Bool := (c.file.map Path.located) == some f.path

def anonymous : Text := "(anonymous)"

def reportedName (c : Cursor) : Text :=
  if c.spelling.isEmpty || c.spelling.head? == some '(' then anonymous else c.spelling

/-- The symbol that a cursor is, with the symbols in it; cursors are nested at most as deep as `depth`
says. -/
def symbolOf (f : ParsedFile) : Nat → Cursor → Option SymbolInfo
  | depth, c =>
    (c.symbolKind? (c.parent.bind f.cursor?)).map fun kind =>
      let name := reportedName c
      let isFunction := kind = .function || kind = .method || kind = .constructor
      let start := f.text.positionAt c.location
      let stop := if name == anonymous then start
        else f.text.positionAt (c.location + (Utf8.encode c.spelling).length)
      { name
        kind
        range := f.rangeOf c
        selection := ⟨start, stop⟩
        detail := if isFunction then c.displayName else c.type.getD []
        children := match depth with
          | 0 => []
          | depth + 1 =>
            if c.isScope then ((f.childrenOf c).filter f.holds).filterMap (symbolOf f depth) else [] }

def root (f : ParsedFile) : Cursor := f.tree.cursors.headD { kind := [] }

def symbols (f : ParsedFile) : List SymbolInfo :=
  ((f.childrenOf f.root).filter f.holds).filterMap (f.symbolOf f.tree.cursors.length)

def preorder (f : ParsedFile) : Nat → Cursor → List Cursor
  | 0, c => [c]
  | depth + 1, c => c :: (f.childrenOf c).flatMap (preorder f depth)

def occurrences (f : ParsedFile) (usr : Text) (definitions : Bool) : List Cursor :=
  (((f.childrenOf f.root).filter f.holds).flatMap (f.preorder f.tree.cursors.length)).filter fun c =>
    c.isSymbol && c.usr == usr && c.isDefinition == definitions && f.holds c

def referencedAt? (f : ParsedFile) (p : Position) : Option Cursor := do
  let c ← f.cursor? (← f.tree.byOffset.lookup (f.text.byteOffsetAt p))
  if c.isInvalid then none else some ((c.referenced.bind f.cursor?).getD c)

end ParsedFile

end CppScaffold
