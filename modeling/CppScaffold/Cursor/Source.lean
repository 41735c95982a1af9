import CppScaffold.Cursor.Tree
import CppScaffold.Files.Scanner
import CppScaffold.Workspace

/-!
# A source of symbols from cursor trees

Each file is parsed and kept until it changes. What it does not show is looked up by its identification in the matching
file.
-/

namespace CppScaffold

open Text

structure CursorWorld where
  root : Text
  files : FileTree
  /-- What the parser answers for each path; nothing means that it fails. -/
  trees : List (Text × CursorTree)
  scanner : Scanner

structure CursorState where
  parsed : List (Text × ParsedFile) := []
  parseCount : Nat := 0
  wasCalled : Bool := false
  pairs : PairCache := {}

abbrev CursorRequest := Action CursorWorld CursorState

namespace CursorRequest

def arguments (root : Text) : List Text :=
  ["-std=c++17", "-I.", "-I" ++ root, "-I" ++ root ++ "/src",
    "-I" ++ root ++ "/include", "-x", "c++"]

def parse (given : Text) : CursorRequest ParsedFile := do
  let w ← read
  let path := Path.located given
  let stored ← match w.files.find path with
    | .ok f => pure (some f)
    | .error (.file (.isDirectory _)) => pure none
    | .error e => throw e
  match ((← get).parsed.lookup path).filter fun f => stored.any (·.stamp == f.stamp) with
  | some f => return f
  | none =>
    let stored ← w.files.find path
    modify fun s => { s with wasCalled := true }
    match w.trees.lookup path with
    | none => throw (.unparsable path)
    | some tree =>
      let file : ParsedFile := ⟨path, tree, .ofBytes path stored.content, stored.stamp⟩
      modify fun s => { s with
        parsed := (path, file) :: s.parsed.filter (·.1 != path)
        parseCount := s.parseCount + 1 }
      return file

def locate (c : Cursor) : CursorRequest (Option Location) := do
  match c.file with
  | none => return none
  | some name =>
    let path := Path.located name
    let file ← match (← get).parsed.lookup path with
      | some f => pure f
      | none => parse path
    return some ⟨Uri.ofPath path, file.rangeOf c⟩

def occurrencesIn (path usr : Text) (definitions : Bool) : CursorRequest (List Location) := do
  let f ← parse path
  return (f.occurrences usr definitions).map fun c => ⟨Uri.ofPath f.path, f.rangeOf c⟩

def partner (path : Text) : CursorRequest (Option Text) := do
  let w ← read
  let (found, pairs) := w.scanner.partner w.files (← get).pairs path
  modify fun s => { s with pairs }
  found

def symbols (path : Text) : CursorRequest (List SymbolInfo) := return (← parse path).symbols

def definitions (path : Text) (p : Position) : CursorRequest (List Location) := do
  let f ← parse path
  match f.referencedAt? p with
  | none => return []
  | some c =>
    match c.definition.bind f.cursor? with
    | some d => return (← locate d).toList
    | none =>
      match ← partner path with
      | some other => if c.usr.isEmpty then return [] else occurrencesIn other c.usr true
      | none => return []

def declarations (path : Text) (p : Position) : CursorRequest (List Location) := do
  let f ← parse path
  match f.referencedAt? p with
  | none => return []
  | some c =>
    let own ← match (c.canonical.bind f.cursor?).filter (!·.isDefinition) with
      | some d => (·.toList) <$> locate d
      | none => pure []
    match ← partner path with
    | some other =>
      if c.usr.isEmpty then return own
      else
        let others ← occurrencesIn other c.usr false
        return others.foldl (fun ls l => if ls.contains l then ls else ls ++ [l]) own
    | none => return own

end CursorRequest

end CppScaffold
