import CppScaffold.Document.Position
import CppScaffold.Json.Access
import CppScaffold.Symbol.Kind

/-!
# Reported symbols

A symbol as a source reports it, exchanged and saved as a JSON record.
-/

namespace CppScaffold

structure SymbolInfo where
  /-- The reported name; it may hold scopes, template arguments and parameters. -/
  name : Text
  kind : SymbolKind
  range : Range
  selection : Range
  /-- Whatever else the source says of it, such as its type. -/
  detail : Text := []
  children : List SymbolInfo := []
  deriving Inhabited

def Position.toJson (p : Position) : Json :=
  .object [("line", .int p.line), ("character", .int p.character)]

def Range.toJson (r : Range) : Json :=
  .object [("start", r.start.toJson), ("end", r.stop.toJson)]

def SymbolKind.ofJson (v : Json) : Outcome SymbolKind :=
  match v.wholeNumber?.bind SymbolKind.ofInt? with
  | some k => .ok k
  | none => .error (.notASymbolKind v.shown)

namespace SymbolInfo

mutual

def toJson : SymbolInfo → Json
  | ⟨name, kind, range, selection, detail, children⟩ =>
    .object [("name", .str name), ("detail", .str detail), ("kind", .nat kind.toNat),
      ("range", range.toJson), ("selectionRange", selection.toJson), ("children", .arr (toJsonAll children))]

def toJsonAll : List SymbolInfo → List Json
  | [] => []
  | s :: rest => toJson s :: toJsonAll rest

end

end SymbolInfo

end CppScaffold
