import CppScaffold.Files.Tree
import CppScaffold.Settings

/-!
# The settings of a project

The settings are read from a file in the directory of the project or, if there is none, from one next to
the server.
-/

namespace CppScaffold.Settings

def serverDirectory : Text := "<server>"

def pathFor (t : FileTree) (root : Text) : Outcome Text := do
  let own := Path.join (Path.plain root) fileName
  return if ← t.leadsTo own then own else Path.join serverDirectory fileName

def ofFile (t : FileTree) (path : Text) : Outcome Settings :=
  match t.fileAt? path with
  | some f => ofBytes f.content
  | none => .ok standard

def ofProject (t : FileTree) (root : Text) : Outcome (Text × Settings) := do
  let path ← pathFor t root
  return (path, ← ofFile t path)

/-- Writes example settings into the directory of a project; answers with the files and the path of the
example. -/
def writeExample (t : FileTree) (root : Text) : Outcome (FileTree × Text) := do
  let path := Path.join (Path.plain root) "example.json"
  return (← t.save path (Utf8.encode exampleText), path)

end CppScaffold.Settings
