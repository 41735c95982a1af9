import CppScaffold.Document.Text

/-!
# Trees of files

Files with their contents and stamps that change with every write. Directories exist on their own, and a path is
resolved segment by segment.
-/

namespace CppScaffold

open Text

structure StoredFile where
  content : Bytes
  stamp : Nat := 0

/-- The files and directories of a machine. A key is the list of the segments of a path. -/
structure FileTree where
  files : List (List Text × StoredFile) := []
  directories : List (List Text) := []
  writes : Nat := 0

namespace FileTree

def hasDirectory (t : FileTree) (key : List Text) : Bool :=
  key.isEmpty || t.directories.contains key

def file? (t : FileTree) (key : List Text) : Option StoredFile := t.files.lookup key

def maxNameBytes : Nat := 255

def maxPathBytes : Nat := 4095

/-- Follows segments from a directory; every segment but the last must lead to a directory. Fails with
the cause. -/
def walk (t : FileTree) (path : Text) (here : List Text) : List Text → Except FileError (List Text)
  | [] => .ok here
  | s :: rest =>
    if !t.hasDirectory here then
      .error (if (t.file? here).isSome then .notDirectory path else .missing path)
    else if s.isEmpty || s == ['.'] then walk t path here rest
    else if s == ['.', '.'] then walk t path here.dropLast rest
    else if (Utf8.encode s).length > maxNameBytes then .error (.nameTooLong path)
    else walk t path (here ++ [s]) rest

def keyOf (t : FileTree) (path : Text) : Except FileError (List Text) :=
  let absolute := Path.join Path.workingDirectory path
  if (Utf8.encode absolute).length > maxPathBytes then .error (.nameTooLong path)
  else t.walk path [] (splitAtChar '/' absolute)

def isDirectory (t : FileTree) (path : Text) : Bool :=
  match t.keyOf path with
  | .ok key => t.hasDirectory key
  | .error _ => false

def fileAt? (t : FileTree) (path : Text) : Option StoredFile :=
  match t.keyOf path with
  | .ok key => t.file? key
  | .error _ => none

def isFile (t : FileTree) (path : Text) : Bool := (t.fileAt? path).isSome

def contains (t : FileTree) (path : Text) : Bool := t.isFile path || t.isDirectory path

/-- Whether a path leads to anything; a name that is too long is an error. -/
def leadsTo (t : FileTree) (path : Text) : Outcome Bool :=
  match t.keyOf path with
  | .error (.nameTooLong _) => .error (.file (.nameTooLong path))
  | _ => .ok (t.contains path)

def find (t : FileTree) (path : Text) : Outcome StoredFile :=
  if path.contains (Char.ofNat 0) then .error .nulInPath
  else match t.keyOf path with
  | .error e => .error (.file e)
  | .ok key =>
    match t.fileAt? path with
    | some f => .ok f
    | none =>
      .error (.file (if t.hasDirectory key then .isDirectory path else .missing path))

def readBytes (t : FileTree) (path : Text) : Outcome Bytes := return (← t.find path).content

def readDocument (t : FileTree) (path : Text) : Outcome TextDocument := do
  let content ← t.readBytes path
  return ⟨Uri.ofPath (Path.onDisk path), Utf8.decode content, 0⟩

def above (key : List Text) : List (List Text) :=
  (List.range key.length).tail.map (key.take ·)

def addDirectories (directories : List (List Text)) (more : List (List Text)) : List (List Text) :=
  more.foldl (fun ds d => if ds.contains d then ds else ds ++ [d]) directories

def segments (path : Text) : List Text :=
  (splitAtChar '/' path).filter fun s => !s.isEmpty && s != ['.']

def write (t : FileTree) (path : Text) (content : Bytes) : FileTree :=
  let key := match t.keyOf path with
    | .ok key => key
    | .error _ => segments (Path.absolute path)
  let stored : StoredFile := ⟨content, t.writes + 1⟩
  { files := if (t.file? key).isSome then t.files.map fun (k, f) => (k, if k == key then stored else f)
      else t.files ++ [(key, stored)]
    directories := addDirectories t.directories (above key)
    writes := t.writes + 1 }

def save (t : FileTree) (path : Text) (content : Bytes) : Outcome FileTree :=
  match t.keyOf path with
  | .error e => .error (.file e)
  | .ok key => if t.hasDirectory key then .error (.file (.isDirectory path)) else .ok (t.write path content)

def makeDirectory (t : FileTree) (path : Text) : FileTree :=
  let key := segments (Path.absolute path)
  { t with directories := addDirectories t.directories (above key ++ if key.isEmpty then [] else [key]) }

def remove (t : FileTree) (path : Text) : FileTree :=
  match t.keyOf path with
  | .ok key => { t with files := t.files.filter fun (k, _) => k != key }
  | .error _ => t

def ofContents (files : List (Text × Bytes)) (directories : List Text) : FileTree :=
  let t := files.foldl (fun t (path, content) => t.write path content) ({} : FileTree)
  directories.foldl makeDirectory t

def childName? (parent key : List Text) : Option Text :=
  if key.length = parent.length + 1 && parent.isPrefixOf key then key.getLast? else none

def fileNames (t : FileTree) (key : List Text) : List Text :=
  t.files.filterMap fun (k, _) => childName? key k

def directoryNames (t : FileTree) (key : List Text) : List Text :=
  t.directories.filterMap (childName? key)

def depth (t : FileTree) : Nat := (t.directories.map List.length).foldl max 0

/-- The directories below one, each before those in it, at most `depth` levels down; only accepted names are entered.
-/
def directoriesBelow (t : FileTree) (enter : Text → Bool) : Nat → List Text → Text → List (List Text × Text)
  | 0, key, path => [(key, path)]
  | depth + 1, key, path =>
    (key, path) :: ((t.directoryNames key).filter enter).flatMap fun name =>
      directoriesBelow t enter depth (key ++ [name]) (Path.join path name)

end FileTree

end CppScaffold
