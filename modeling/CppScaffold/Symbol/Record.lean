import CppScaffold.Json.Order
import CppScaffold.Symbol.Tree

/-!
# Records of symbols

Of a record that was read only the kind is checked; all else makes trouble where it is used. An `UncheckedSymbol` is to
a record what a `Symbol` is to a reported symbol.
-/

namespace CppScaffold

open Text

structure RecordedPosition where
  line : Json
  character : Json
  deriving Inhabited

namespace RecordedPosition

def ofJson (v : Json) : Outcome RecordedPosition := do
  let line ← v.field "line"
  let character ← v.field "character"
  return ⟨line, character⟩

def toJson (p : RecordedPosition) : Json :=
  .object [("line", p.line), ("character", p.character)]

def ofPosition (p : Position) : RecordedPosition := ⟨.int p.line, .int p.character⟩

def toPosition (p : RecordedPosition) : Outcome Position := do
  let line ← p.line.wholeNumber
  let character ← p.character.wholeNumber
  return ⟨line, character⟩

def same (p q : RecordedPosition) : Bool := p.line.same q.line && p.character.same q.character

def less (p q : RecordedPosition) : Outcome Bool :=
  Json.lessItems [p.line, p.character] [q.line, q.character]

end RecordedPosition

structure RecordedRange where
  start : RecordedPosition
  stop : RecordedPosition
  deriving Inhabited

namespace RecordedRange

def ofJson (v : Json) : Outcome RecordedRange := do
  let start ← RecordedPosition.ofJson (← v.field "start")
  let stop ← RecordedPosition.ofJson (← v.field "end")
  return ⟨start, stop⟩

def toJson (r : RecordedRange) : Json :=
  .object [("start", r.start.toJson), ("end", r.stop.toJson)]

def ofRange (r : Range) : RecordedRange := ⟨.ofPosition r.start, .ofPosition r.stop⟩

def toRange (r : RecordedRange) : Outcome Range := do
  let start ← r.start.toPosition
  let stop ← r.stop.toPosition
  return ⟨start, stop⟩

def less (r s : RecordedRange) : Outcome Bool :=
  if !r.stop.same s.stop then r.stop.less s.stop
  else if !r.start.same s.start then r.start.less s.start
  else .ok false

end RecordedRange

structure SymbolRecord where
  name : Json
  kind : SymbolKind
  range : RecordedRange
  selection : RecordedRange
  detail : Json
  children : List SymbolRecord
  deriving Inhabited

namespace SymbolRecord

def ofJsonWithin : Nat → Json → Outcome SymbolRecord
  | depth, v => do
    let name ← v.field "name"
    let kind ← SymbolKind.ofJson (← v.field "kind")
    let range ← RecordedRange.ofJson (← v.field "range")
    let selection ← RecordedRange.ofJson ((v.get? "selectionRange").getD (← v.field "range"))
    let detail := (v.get? "detail").getD .null
    let nested ← ((v.get? "children").getD (.arr [])).elements
    let children ← match depth with
      | 0 => pure []
      | depth + 1 => nested.mapM (ofJsonWithin depth)
    return ⟨name, kind, range, selection, if detail.isTruthy then detail else .str [], children⟩

def ofJson (v : Json) : Outcome SymbolRecord := ofJsonWithin v.depth v

mutual

def toJson : SymbolRecord → Json
  | ⟨name, kind, range, selection, detail, children⟩ =>
    .object [("name", name), ("detail", detail), ("kind", .nat kind.toNat), ("range", range.toJson),
      ("selectionRange", selection.toJson), ("children", .arr (toJsonAll children))]

def toJsonAll : List SymbolRecord → List Json
  | [] => []
  | r :: rest => toJson r :: toJsonAll rest

end

mutual

def toInfo : SymbolRecord → Outcome SymbolInfo
  | ⟨name, kind, range, selection, detail, children⟩ => do
    let name ← name.textFor "strip"
    let range ← range.toRange
    let selection ← selection.toRange
    let detail ← detail.textFor "strip"
    return ⟨name, kind, range, selection, detail, ← toInfos children⟩

def toInfos : List SymbolRecord → Outcome (List SymbolInfo)
  | [] => return []
  | r :: rest => return (← toInfo r) :: (← toInfos rest)

end

end SymbolRecord

structure UncheckedSymbol where
  name : Text
  signature : Json
  detail : Json
  kind : SymbolKind
  range : RecordedRange
  selection : RecordedRange
  children : List UncheckedSymbol
  deriving Inhabited

namespace UncheckedSymbol

def detailHasParameters (name : Text) (detail : Json) : Outcome Bool :=
  if name.isEmpty then .ok false else detail.lists (name ++ ['('])

mutual

def ofRecord : SymbolRecord → Outcome UncheckedSymbol
  | ⟨reported, kind, range, selection, detail, children⟩ => do
    let reportedName ← reported.textFor "strip"
    let name := SymbolName.strip reportedName
    let hasParameters ← detailHasParameters name detail
    let kind := if kind = .property && (hasParameters || reportedName.contains '(') then .method else kind
    let sorted ← Sorting.sortBy (fun a b => a.1.less b.1) (ofRecordsWithRange children)
    let children ← sorted.mapM (·.2)
    return ⟨name, if hasParameters then detail else reported, detail, kind, range, selection, children⟩

def ofRecordsWithRange : List SymbolRecord → List (RecordedRange × Outcome UncheckedSymbol)
  | [] => []
  | r :: rest => (r.range, ofRecord r) :: ofRecordsWithRange rest

end

mutual

def ofSymbol : Symbol → UncheckedSymbol
  | ⟨name, signature, detail, kind, range, selection, children⟩ =>
    ⟨name, .str signature, .str detail, kind, .ofRange range, .ofRange selection, ofSymbols children⟩

def ofSymbols : List Symbol → List UncheckedSymbol
  | [] => []
  | s :: rest => ofSymbol s :: ofSymbols rest

end

def isAnonymous (s : UncheckedSymbol) : Bool := s.name.isEmpty || occursIn "anonymous" s.name

end UncheckedSymbol

end CppScaffold
