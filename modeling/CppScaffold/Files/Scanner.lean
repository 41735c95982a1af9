import CppScaffold.Files.Glob
import CppScaffold.Files.PairCache
import CppScaffold.Settings

/-!
# Files of a project

The partner of a header or source file has its base name and an extension of the other kind. It is searched in the same
directory, below the parent and in the project; the nearest directory wins.
-/

namespace CppScaffold

open Text

def commonLength : List Text → List Text → Nat
  | a :: as, b :: bs => if a == b then commonLength as bs + 1 else 0
  | _, _ => 0

namespace Path

/-- The number of segments by which two directories differ, not counting those they share at the start
and at the end. -/
def difference (a b : Text) : Nat :=
  let as := parts a
  let bs := parts b
  let least := min as.length bs.length
  let leading := commonLength as bs
  let trailing := commonLength (as.reverse.take (least - leading - 1)) (bs.reverse.take (least - leading - 1))
  max (as.length - leading - trailing) (bs.length - leading - trailing)

end Path

structure Scanner where
  root : Text
  settings : Settings
  excluded : List Text

namespace Scanner

def make (root : Text) (settings : Settings) : Outcome Scanner := do
  return ⟨Path.plain root, settings, ← settings.excludedDirectories⟩

def notJoinable (a b : Json) : Text :=
  match a with
  | .arr _ => "can only concatenate list (not \"" ++ b.kindName ++ "\") to list"
  | .str _ => "can only concatenate str (not \"" ++ b.kindName ++ "\") to str"
  | _ => "unsupported operand type(s) for +: '" ++ a.kindName ++ "' and '" ++ b.kindName ++ ['\'']

def extensions (s : Scanner) : Outcome Json :=
  match s.settings.headerExtensions, s.settings.sourceExtensions with
  | .arr xs, .arr ys => .ok (.arr (xs ++ ys))
  | .str x, .str y => .ok (.str (x ++ y))
  | a, b =>
    match a, b, a.number?, b.number? with
    | .real x, _, _, some y | _, .real y, some x, _ => .ok (.real (x.add y))
    | _, _, some _, some _ => return .int ((← a.wholeNumber) + (← b.wholeNumber))
    | _, _, _, _ => .error (.wrongType (notJoinable a b))

def isExcluded (s : Scanner) (directory : Text) : Bool := s.excluded.contains (Path.fileName directory)

def files (s : Scanner) (t : FileTree) : Outcome (List Text) := do
  let extensions ← (← (← s.extensions).elements).mapM Json.textToJoin
  match t.keyOf s.root with
  | .error _ => return []
  | .ok key =>
    let places := t.directoriesBelow (!s.excluded.contains ·) t.depth key s.root
    return places.flatMap fun (key, path) =>
      ((t.fileNames key).filter fun name =>
        let e := toLower (Path.splitExtension name).2
        extensions.any fun x => '.' :: x == e).map (Path.join path)

def isProjectFile (s : Scanner) (path : Text) : Bool :=
  if path.isEmpty then false
  else match Path.partsBelow? (Path.located s.root) (Path.located path) with
    | none => false
    | some parts => !parts.dropLast.any s.excluded.contains

def search (s : Scanner) (t : FileTree) (directory : Text) (names : List Text) (recursive : Bool) : List Text :=
  names.flatMap fun name =>
    (t.glob directory name recursive).filter fun path => t.isFile path && s.isProjectFile path

def closest (directory : Text) : List Text → Option Text
  | [] => none
  | c :: rest =>
    match closest directory rest with
    | none => some c
    | some d =>
      if Path.difference (Path.directory d) directory < Path.difference (Path.directory c) directory then some d
      else some c

/-- The extensions of the other kind, for a header or source file. -/
def otherExtensions (s : Scanner) (path : Text) : Outcome (Option (List Text)) := do
  let extension := toLower (Path.extension path)
  let others ←
    if ← s.settings.isHeaderExtension extension then pure (some s.settings.sourceExtensions)
    else if ← s.settings.isSourceExtension extension then pure (some s.settings.headerExtensions)
    else pure none
  match others with
  | none => return none
  | some extensions => return some (← (← extensions.elements).mapM Json.textToJoin)

def findPartner (s : Scanner) (t : FileTree) (path : Text) : Outcome (Option Text) := do
  match ← s.otherExtensions path with
  | none => return none
  | some extensions =>
    let names := extensions.map fun e => Path.baseName path ++ '.' :: e
    let directory := Path.directory path
    match (s.search t directory names false).head? with
    | some m => return some m
    | none =>
      match closest directory (s.search t (Path.directory directory) names true) with
      | some m => return some m
      | none => return closest directory (s.search t s.root names true)

def partner (s : Scanner) (t : FileTree) (cache : PairCache) (path : Text) : Outcome (Option Text) × PairCache :=
  let path := Path.located path
  match cache.get t.contains path with
  | (some m, cache) => (.ok (some m), cache)
  | (none, cache) =>
    match s.findPartner t path with
    | .ok (some m) => (.ok (some m), cache.insert path m)
    | r => (r, cache)

end Scanner

end CppScaffold
