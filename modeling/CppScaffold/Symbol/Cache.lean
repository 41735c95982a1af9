import CppScaffold.Json.Parser
import CppScaffold.Json.Printer
import CppScaffold.Path.Uri
import CppScaffold.Symbol.Record
import CppScaffold.Text.Digest

/-!
# Remembered symbols

Symbols are remembered with a digest of the text they were built from. With a directory they are also saved as JSON
files, which outlive the cache in memory.
-/

namespace CppScaffold

open Text

class Cacheable (σ : Type) where
  ofInfos : List SymbolInfo → List σ
  ofRecords : List SymbolRecord → Outcome (List σ)

instance : Cacheable Symbol where
  ofInfos := Symbol.ofInfos
  ofRecords records := return Symbol.ofInfos (← SymbolRecord.toInfos records)

instance : Cacheable UncheckedSymbol where
  ofInfos infos := UncheckedSymbol.ofSymbols (Symbol.ofInfos infos)
  ofRecords := List.mapM UncheckedSymbol.ofRecord

structure CacheDirectory where
  path : Text := []
  present : Bool := true
  files : List (Text × Text) := []

structure CacheEntry (σ : Type) where
  digest : Text
  symbols : List σ

structure SymbolCache (σ : Type) where
  entries : List (Text × CacheEntry σ) := []
  directory : Option CacheDirectory := none
  hits : Nat := 0
  misses : Nat := 0

def cacheDirectoryName (project : Text) : Text :=
  let path := Path.ofParts (Path.parts project)
  let name := match (Path.parts project).getLast? with
    | some s => if ['/'].isPrefixOf s then [] else s
    | none => []
  name ++ '_' :: (Digest.ofText path).take 8

namespace CacheDirectory

def write (d : CacheDirectory) (name text : Text) : CacheDirectory :=
  if d.present then { d with files := (name, text) :: d.files.filter (·.1 != name) } else d

def read? (d : CacheDirectory) (name : Text) : Option Text :=
  if d.present then d.files.lookup name else none

def erase (d : CacheDirectory) (name : Text) : CacheDirectory :=
  { d with files := d.files.filter (·.1 != name) }

end CacheDirectory

namespace SymbolCache

variable {σ : Type}

def fileName (uri : Text) : Text := Digest.ofText uri ++ ".json"

def needDirectory (c : SymbolCache σ) : Outcome CacheDirectory :=
  match c.directory with
  | some d => .ok d
  | none => .error (.wrongType "the cache has no directory")

/-- The name of the file in which the symbols of a document are saved; a cache without a directory has
no files. -/
def fileFor (c : SymbolCache σ) (uri : Text) : Outcome Text := do
  let _ ← c.needDirectory
  return fileName uri

def overwrite (c : SymbolCache σ) (uri text : Text) : Outcome (SymbolCache σ) := do
  let d ← c.needDirectory
  if d.present then return { c with directory := some (d.write (fileName uri) text) }
  else .error (.file (.missing (Path.join d.path (fileName uri))))

def saved (uri digest : Text) (infos : List SymbolInfo) : Text :=
  Json.pretty <| .object [("uri", .str uri), ("text_hash", .str digest),
    ("symbols", .arr (SymbolInfo.toJsonAll infos))]

def loadRecords (digest : Text) (content : Json) : Outcome (Option (List SymbolRecord)) := do
  let fields ← content.record
  if (Json.lookup? "text_hash" fields).bind Json.str? != some digest then return none
  else
    let records ← ((Json.lookup? "symbols" fields).getD (.arr [])).elements
    return some (← records.mapM SymbolRecord.ofJson)

/-- The records saved for a document, if they belong to a text with the given digest. A file that is no JSON text
counts as none and is reported. -/
def load (c : SymbolCache σ) (uri digest : Text) : Outcome (Option (List SymbolRecord)) := do
  match c.directory.bind (·.read? (fileName uri)) with
  | none => return none
  | some text =>
    match ← Json.ofFileText text with
    | some content => loadRecords digest content
    | none =>
      let _ ← Uri.toPath uri
      return none

def store (c : SymbolCache σ) (uri digest : Text) (symbols : List σ) : SymbolCache σ :=
  let entry : CacheEntry σ := ⟨digest, symbols⟩
  { c with
    entries := if c.entries.any (·.1 == uri) then c.entries.map fun (u, e) => (u, if u == uri then entry else e)
      else c.entries ++ [(uri, entry)] }

def remembered? (c : SymbolCache σ) (uri digest : Text) : Option (List σ) :=
  match c.entries.lookup uri with
  | some e => if e.digest == digest then some e.symbols else none
  | none => none

/-- The symbols of a document, and the cache thereafter. Records found count even if no symbols can be built from them.
-/
def get [Cacheable σ] (c : SymbolCache σ) (uri text : Text) : Outcome (Option (List σ)) × SymbolCache σ :=
  let digest := Digest.ofText text
  match c.remembered? uri digest with
  | some symbols => (.ok (some symbols), { c with hits := c.hits + 1 })
  | none =>
    match c.load uri digest with
    | .error e => (.error e, c)
    | .ok none => (.ok none, { c with misses := c.misses + 1 })
    | .ok (some records) =>
      let c := { c with hits := c.hits + 1 }
      match Cacheable.ofRecords records with
      | .error e => (.error e, c)
      | .ok symbols => (.ok (some symbols), c.store uri digest symbols)

/-- Saves the symbols of a document. Without the directory nothing is saved; this is reported with the path of
the document, which must have one. -/
def save (c : SymbolCache σ) (uri digest : Text) (infos : List SymbolInfo) : Outcome (SymbolCache σ) := do
  match c.directory with
  | none => return c
  | some d =>
    if d.present then return { c with directory := some (d.write (fileName uri) (saved uri digest infos)) }
    else
      let _ ← Uri.toPath uri
      return c

def put [Cacheable σ] (c : SymbolCache σ) (uri text : Text) (infos : List SymbolInfo) :
    Outcome (List σ) × SymbolCache σ :=
  let digest := Digest.ofText text
  let symbols := Cacheable.ofInfos infos
  let c := c.store uri digest symbols
  match c.save uri digest infos with
  | .ok c => (.ok symbols, c)
  | .error e => (.error e, c)

def invalidate (c : SymbolCache σ) (uri : Text) : SymbolCache σ :=
  { c with
    entries := c.entries.filter (·.1 != uri)
    directory := c.directory.map (·.erase (fileName uri)) }

def clear (c : SymbolCache σ) : SymbolCache σ := { c with entries := [] }

def contains (c : SymbolCache σ) (uri : Text) : Bool := c.entries.any (·.1 == uri)

def size (c : SymbolCache σ) : Nat := c.entries.length

def restart (c : SymbolCache σ) : SymbolCache σ :=
  { directory := c.directory.map fun d => if d.present then d else { path := d.path } }

def removeDirectory (c : SymbolCache σ) : SymbolCache σ :=
  { c with directory := c.directory.map fun d => { path := d.path, present := false } }

def statistics (c : SymbolCache σ) : Json :=
  .object [("documents", .nat c.size), ("hits", .nat c.hits), ("misses", .nat c.misses)]

end SymbolCache

end CppScaffold
