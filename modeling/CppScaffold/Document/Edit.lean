import CppScaffold.Document.Text

/-!
# Edits

The edits of a document are stated against one snapshot and applied from the last to the first, so that offsets stay
valid and insertions at one place keep their order.
-/

namespace CppScaffold

structure TextEdit where
  range : Range
  newText : Text
  deriving DecidableEq, Repr

namespace TextDocument

structure PlacedEdit where
  start : Nat
  stop : Nat
  index : Nat
  newText : Text

/-- Whether an edit is to be applied before another one: it begins later, or ends later, or was
listed later. -/
def PlacedEdit.appliedBefore (a b : PlacedEdit) : Bool :=
  a.start > b.start
    || (a.start == b.start && (a.stop > b.stop || (a.stop == b.stop && a.index ≥ b.index)))

def PlacedEdit.apply (text : Text) (e : PlacedEdit) : Text :=
  text.take e.start ++ e.newText ++ text.drop e.stop

def placeEdits (d : TextDocument) (edits : List TextEdit) : List PlacedEdit :=
  edits.zipIdx.map fun (e, i) => ⟨d.offsetAt e.range.start, d.offsetAt e.range.stop, i, e.newText⟩

def applyEdits (d : TextDocument) (edits : List TextEdit) : TextDocument :=
  let ordered := (d.placeEdits edits).mergeSort PlacedEdit.appliedBefore
  d.withText (ordered.foldl PlacedEdit.apply d.text)

end TextDocument

structure WorkspaceEdit where
  changes : List (Text × List TextEdit) := []
  deriving DecidableEq, Repr

namespace WorkspaceEdit

def addTo (uri : Text) (e : TextEdit) : List (Text × List TextEdit) → List (Text × List TextEdit)
  | [] => [(uri, [e])]
  | (u, es) :: rest => if u = uri then (u, es ++ [e]) :: rest else (u, es) :: addTo uri e rest

def replace (w : WorkspaceEdit) (uri : Text) (r : Range) (text : Text) : WorkspaceEdit :=
  ⟨addTo uri ⟨r, text⟩ w.changes⟩

def insert (w : WorkspaceEdit) (uri : Text) (p : Position) (text : Text) : WorkspaceEdit :=
  w.replace uri ⟨p, p⟩ text

def delete (w : WorkspaceEdit) (uri : Text) (r : Range) : WorkspaceEdit :=
  w.replace uri r []

def editsOf (w : WorkspaceEdit) (uri : Text) : List TextEdit :=
  (w.changes.lookup uri).getD []

def uris (w : WorkspaceEdit) : List Text := w.changes.map (·.1)

def count (w : WorkspaceEdit) : Nat := w.changes.foldr (fun (_, es) n => es.length + n) 0

def apply (w : WorkspaceEdit) (d : TextDocument) : TextDocument := d.applyEdits (w.editsOf d.uri)

end WorkspaceEdit

end CppScaffold
