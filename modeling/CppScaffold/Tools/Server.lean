import CppScaffold.CodeAction.Header
import CppScaffold.CodeAction.Move
import CppScaffold.CodeAction.Signature
import CppScaffold.Files.Project
import CppScaffold.Files.Scanner
import CppScaffold.Tools.Arguments
import CppScaffold.Tools.Schema

/-!
# The tool server

The server answers calls of its tools with a text. It works in one project directory at a time, which must
be set first. Tools answer with the edits to make, and make them only if asked to.

A call changes the state of the server and the files even if it fails in the end: what was done before the
failure stays done.
-/

namespace CppScaffold

open Text

structure Backend where
  source : Scanner → FileTree → SymbolSource
  parsedFiles : Nat := 0
  parseCount : Nat := 0
  refusesWhenClosed : Bool := true

structure ProjectSession where
  root : Text
  settingsPath : Text
  settings : Settings
  scanner : Scanner
  state : ActionState
  isClosed : Bool := false

structure ServerState where
  files : FileTree
  session : Option ProjectSession := none
  caches : List (Text × CacheDirectory) := []

def SymbolSource.closed (s : SymbolSource) : SymbolSource where
  read _ := .error .sourceClosed
  symbols _ := .error .sourceClosed
  definitions _ _ := .error .sourceClosed
  declarations _ _ := .error .sourceClosed
  inWorkspace := s.inWorkspace

abbrev Call := Action Backend ServerState

namespace ProjectSession

def make (files : FileTree) (caches : List (Text × CacheDirectory)) (path : Text) : Outcome ProjectSession := do
  let root := Path.located path
  let (settingsPath, settings) ← Settings.ofProject files root
  let scanner ← Scanner.make root settings
  let directory := ((caches.lookup (cacheDirectoryName root)).getD {})
  return { root, settingsPath, settings, scanner, state := { cache := some { directory := some directory } } }

def source (s : ProjectSession) (b : Backend) (files : FileTree) : SymbolSource :=
  let source := b.source s.scanner files
  if s.isClosed && b.refusesWhenClosed then source.closed else source

def workspace (s : ProjectSession) (b : Backend) (files : FileTree) : Workspace where
  source := s.source b files
  settings := s.settings
  partners := some (s.scanner.partner files)

def resolve (s : ProjectSession) (files : FileTree) (given : Json) : Outcome Text :=
  match given with
  | .str path => do
    let full := Path.plain (Path.join s.root path)
    if ← files.leadsTo full then return Uri.ofPath full else .error (.noSuchFile path)
  | v => .error (.wrongType ("expected str, bytes or os.PathLike object, not " ++ v.kindName))

def saveCache (s : ProjectSession) (caches : List (Text × CacheDirectory)) : List (Text × CacheDirectory) :=
  match s.state.cache.bind (·.directory) with
  | none => caches
  | some d =>
    let name := cacheDirectoryName s.root
    (name, d) :: caches.filter (·.1 != name)

def invalidate (s : ProjectSession) (uri : Text) : ProjectSession :=
  { s with state := { s.state with cache := s.state.cache.map (·.invalidate uri) } }

end ProjectSession

namespace ServerState

/-- The server after the work in the project directory came to its end. -/
def closed (server : ServerState) : ServerState :=
  { server with session := server.session.map ({ · with isClosed := true }) }

def savedCaches (server : ServerState) : List (Text × CacheDirectory) :=
  (server.session.map (·.saveCache server.caches)).getD server.caches

end ServerState

def WorkspaceEdit.toJson (w : WorkspaceEdit) : Json :=
  .obj (w.changes.map fun (uri, edits) =>
    (uri, .ofList (fun e => .object [("range", e.range.toJson), ("newText", .str e.newText)]) edits))

namespace Call

def perform {α : Type} (s : ProjectSession) (a : CodeAction α) : Call α := do
  let (r, state) := a.execute (s.workspace (← read) (← get).files) s.state
  modify fun server => { server with session := some { s with state := { state with loaded := [] } } }
  r

def writeDocument (edit : WorkspaceEdit) (uri : Text) : Call Text := do
  let server ← get
  match server.session with
  | none => throw .sourceClosed
  | some s =>
    let d ← (s.source (← read) server.files).read uri
    let path ← Uri.toPath uri
    set { server with
      files := server.files.write path (Utf8.encode (edit.apply d).text)
      session := some (s.invalidate uri) }
    return path

def answerEdit (apply : Bool) (edit : WorkspaceEdit) : Call Text := do
  let changes := [("changes", edit.toJson)]
  if apply then
    let written ← edit.uris.mapM (writeDocument edit)
    return (Json.object (changes ++ [("written", .ofList .str written)])).pretty
  else return (Json.object changes).pretty

def openFileNumber (i : Int) : Outcome Unit :=
  if i ≥ Real64.twoTo 31 then .error (.numberTooLarge "fd is greater than maximum")
  else if i < -Real64.twoTo 31 then .error (.numberTooLarge "fd is less than minimum")
  else .ok ()

/-- The path that a value names where a directory is asked for. A number denotes an open file, which is no
directory. -/
def directoryPath : Json → Outcome Text
  | .str path => .ok path
  | .bool _ => .ok []
  | .int i => do
    openFileNumber i
    return []
  | v => .error (.wrongType ("stat: path should be string, bytes, os.PathLike or integer, not " ++ v.kindName))

/-- Starts the work in a project directory. The work in the former one ends before the new one is looked at. -/
def enterProject (path : Text) : Call Text := do
  let server ← get
  set server.closed
  let s ← ProjectSession.make server.files server.savedCaches path
  set { server with session := some s, caches := server.savedCaches }
  let count := (← s.scanner.files server.files).length
  return "Set project directory to: " ++ path ++ "\nFound " ++ ofNat count
    ++ " C/C++ files"

def setProjectDirectory (arguments : Json) : Call Text := do
  let given ← arguments.field "project_path"
  let path ← directoryPath given
  if !(← get).files.isDirectory path || path.isEmpty then
    return "Error: Directory '" ++ given.spoken ++ "' does not exist"
  else enterProject path

def status (s : ProjectSession) : Call Text := do
  let b ← read
  return Json.pretty <| .object [
    ("project_root", .str s.root),
    ("config_path", .str s.settingsPath),
    ("config", .obj (s.settings.values.map fun (n, v) => (n.written, v))),
    ("symbol_cache", Json.ofOption SymbolCache.statistics s.state.cache),
    ("header_source_pairs", .nat (s.state.pairs.size / 2)),
    ("parsed_files", .nat b.parsedFiles),
    ("parse_count", .nat b.parseCount)]

/-- The edit that a tool makes to a file; nothing if there is no such tool. -/
def edit? (s : ProjectSession) (name : String) (a : Arguments) (uri : Text) : Option (Call WorkspaceEdit) :=
  match name with
  | "add_definition" => some do
    let p ← a.position
    perform s (CodeAction.addDefinition uri p (a.switch "in_current_file") (a.value? "initializers"))
  | "add_definitions" => some do
    let p ← if (a.value? "line").isSome then some <$> a.position else pure none
    perform s (CodeAction.addDefinitions uri p (a.switch "in_current_file") (a.value? "function_names"))
  | "add_declaration" => some do
    perform s (CodeAction.addDeclaration uri (← a.position) (a.textOr "access" "public"))
  | "generate_getter_setter" => some do
    let p ← a.position
    let accessors := a.textOr "accessors" "both"
    perform s <|
      if accessors == "getter" then CodeAction.generateGetter uri p
      else if accessors == "setter" then CodeAction.generateSetter uri p
      else CodeAction.generateAccessors uri p
  | "generate_operators" => some do
    let kind := (← a.required "kind").spoken
    let p ← a.position
    perform s (CodeAction.generateOperators kind uri p (a.value? "operands")
      (a.textOr "definition_location" "inline"))
  | "update_signature" => some do perform s (CodeAction.updateSignature uri (← a.position))
  | "move_definition" => some do
    let destination := (← a.required "destination").spoken
    perform s (CodeAction.moveDefinition destination uri (← a.position) (a.textOr "access" "public"))
  | "add_header_guard" => some (perform s (CodeAction.addHeaderGuard uri))
  | "add_include" => some do perform s (CodeAction.addInclude uri (← a.required "include"))
  | _ => none

/-- What a tool that looks at a file answers; nothing if there is no such tool. -/
def query? (s : ProjectSession) (name : String) (given : Json) (uri : Text) : Option (Call Text) :=
  match name with
  | "get_document_symbols" => some do
    let infos ← (s.source (← read) (← get).files).symbols uri
    return (Json.arr (SymbolInfo.toJsonAll infos)).pretty
  | "find_matching_file" => some do
    match ← perform s (CodeAction.partnerUri uri) with
    | none => return "No matching file found for '" ++ given.spoken ++ ['\'']
    | some partner => Uri.toPath partner
  | _ => none

def fileTools : List Text := (Tool.all.map (·.name)).filter fun n =>
  n != "set_project_directory" && n != "get_server_status"

def inProject (s : ProjectSession) (name : Text) (a : Arguments) : Call Text := do
  if name == "get_server_status" then status s
  else if !fileTools.contains name then return "Unknown tool: " ++ name
  else
    let given ← a.required "file_path"
    let uri ← s.resolve (← get).files given
    match edit? s (String.ofList name) a uri, query? s (String.ofList name) given uri with
    | some edit, _ => do answerEdit (a.switch "apply") (← edit)
    | none, some query => query
    | none, none => return "Unknown tool: " ++ name

def noProject : Text :=
  ("Error: Project directory not set. Please use 'set_project_directory' first with the path to your "
    ++ "C++ project.").toList

def ofTool (name : Text) (arguments : Json) : Call Text := do
  if name == "set_project_directory" then setProjectDirectory arguments
  else match (← get).session with
    | none => return noProject
    | some s => inProject s name ⟨← arguments.record⟩

end Call

def ServerState.call (b : Backend) (server : ServerState) (name : Text) (arguments : Json) : Text × ServerState :=
  let (r, server) := ((Call.ofTool name arguments).run b).run server
  match r with
  | .ok answer => (answer, server)
  | .error fault => ("Error: " ++ fault.message, server)

end CppScaffold
