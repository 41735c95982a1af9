import CppScaffold.Text.Basic

/-!
# File paths

Paths are texts whose segments are divided by slashes. The operations here are lexical: they do not
look at any file.
-/

namespace CppScaffold.Path

open Text

def workingDirectory : Text := "/work"

/-- A path followed by a further one; an absolute second path stands alone. -/
def join (a b : Text) : Text :=
  if ['/'].isPrefixOf b then b
  else if a.isEmpty || ['/'].isSuffixOf a then a ++ b
  else a ++ '/' :: b

def fileName (p : Text) : Text :=
  afterLast '/' p

def directory (p : Text) : Text :=
  let head := p.take (p.length - (fileName p).length)
  if head.all (· == '/') then head else dropEndWhile (· == '/') head

/-- A path cut before the last dot of its last segment, unless only dots stand before that dot. -/
def splitExtension (p : Text) : Text × Text :=
  let name := fileName p
  match findLast? ['.'] name with
  | none => (p, [])
  | some i =>
    if (name.take i).all (· == '.') then (p, [])
    else (p.take (p.length - name.length + i), name.drop i)

def extension (p : Text) : Text :=
  (splitExtension p).2.drop 1

def baseName (p : Text) : Text :=
  (splitExtension (fileName p)).1

/-- How many slashes begin a normal path: exactly two stay two, more count as one. -/
def rootOf (p : Text) : Text :=
  match p with
  | '/' :: '/' :: '/' :: _ => ['/']
  | '/' :: '/' :: _ => ['/', '/']
  | '/' :: _ => ['/']
  | _ => []

/-- The segments of a path with `..` taken back where possible; `done` holds the segments kept so
far, in reverse. -/
def normalSegments (absolute : Bool) (done : List Text) : List Text → List Text
  | [] => done.reverse
  | s :: rest =>
    if s.isEmpty || s == ['.'] then normalSegments absolute done rest
    else if s == ['.', '.'] then
      match done with
      | [] => normalSegments absolute (if absolute then [] else [s]) rest
      | d :: ds => normalSegments absolute (if d == ['.', '.'] then s :: d :: ds else ds) rest
    else normalSegments absolute (s :: done) rest

/-- A path without empty, `.` and avoidable `..` segments. -/
def normalize (p : Text) : Text :=
  let root := rootOf p
  let body := Text.join ['/'] (normalSegments (!root.isEmpty) [] (splitAtChar '/' p))
  let q := root ++ body
  if q.isEmpty then ['.'] else q

def absolute (p : Text) : Text :=
  normalize (join workingDirectory p)

/-- The segments of a path, without empty and `.` ones; the root is a segment of its own. -/
def parts (p : Text) : List Text :=
  let segments := (splitAtChar '/' p).filter fun s => !s.isEmpty && s != ['.']
  let root := rootOf p
  if root.isEmpty then segments else root :: segments

def ofParts (ps : List Text) : Text :=
  match ps with
  | [] => ['.']
  | r :: rest =>
    if ['/'].isPrefixOf r then r ++ Text.join ['/'] rest else Text.join ['/'] (r :: rest)

/-! ## Paths of files

A machine has one root, so that any number of slashes at the start of a path leads to the same file. -/

def onDisk (p : Text) : Text :=
  if ['/', '/'].isPrefixOf p then '/' :: p.dropWhile (· == '/') else p

/-- The path of a file without empty and `.` segments. -/
def plain (p : Text) : Text := ofParts (parts (onDisk p))

/-- The absolute normal form of the path of a file. -/
def located (p : Text) : Text := absolute (onDisk p)

def partsBelow? (root p : Text) : Option (List Text) :=
  let rs := parts root
  let ps := parts p
  if rs.isPrefixOf ps then some (ps.drop rs.length) else none

end CppScaffold.Path
