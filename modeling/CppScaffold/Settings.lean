import CppScaffold.Json.Access
import CppScaffold.Json.Order
import CppScaffold.Json.Parser
import CppScaffold.Json.Printer
import CppScaffold.Text.Case
import CppScaffold.Text.Utf8

/-!
# Settings

Settings are the fields of a JSON object over the defaults. Nothing is checked when they are read; one of the wrong
type fails where it is used.
-/

namespace CppScaffold

open Text

inductive BraceStyle where
  | newLine
  | newLineForConstructors
  | sameLine
  deriving DecidableEq, Repr

inductive NamespaceIndentation where
  | auto
  | always
  | never
  deriving DecidableEq, Repr

inductive DefinitionSite where
  | inline
  | belowClass
  | sourceFile
  deriving DecidableEq, Repr

inductive CaseStyle where
  | camel
  | snake
  | pascal
  | auto
  deriving DecidableEq, Repr

inductive GuardStyle where
  | pragmaOnce
  | define
  | both
  deriving DecidableEq, Repr

class NamedChoice (α : Type) where
  names : List (Text × α)

instance : NamedChoice BraceStyle :=
  ⟨[("new_line", .newLine), ("new_line_ctor_dtor", .newLineForConstructors), ("same_line", .sameLine)]⟩

instance : NamedChoice NamespaceIndentation :=
  ⟨[("auto", .auto), ("always", .always), ("never", .never)]⟩

instance : NamedChoice DefinitionSite :=
  ⟨[("inline", .inline), ("below_class", .belowClass), ("source_file", .sourceFile)]⟩

instance : NamedChoice CaseStyle :=
  ⟨[("camel", .camel), ("snake", .snake), ("pascal", .pascal), ("auto", .auto)]⟩

instance : NamedChoice GuardStyle :=
  ⟨[("pragma_once", .pragmaOnce), ("define", .define), ("both", .both)]⟩

def NamedChoice.ofName? {α : Type} [NamedChoice α] (name : Text) : Option α :=
  NamedChoice.names.lookup name

def NamedChoice.nameOf {α : Type} [NamedChoice α] [DecidableEq α] (a : α) : Text :=
  ((NamedChoice.names.find? fun (_, b) => b = a).map (·.1)).getD []

/-- The name of a setting. Entries of a list may have names that are no texts, which are kept. -/
inductive SettingName where
  | text (t : Text)
  | other (v : Json)

namespace SettingName

def ofJson : Json → SettingName
  | .str t => .text t
  | v => .other v

def same : SettingName → SettingName → Bool
  | .text s, .text t => s == t
  | .other v, .other w => v.same w
  | _, _ => false

def written : SettingName → Text
  | .text t => t
  | .other v => v.render

end SettingName

structure Settings where
  values : List (SettingName × Json)

namespace Settings

def fileName : Text := "cpp-codegen-config.json"

def defaultValues : List (Text × Json) :=
  let texts (ts : List String) : Json := .arr (ts.map .text)
  [("header_extensions", texts ["h", "hpp", "hh", "hxx", "h++"]),
    ("source_extensions", texts ["c", "cpp", "cc", "cxx", "c++"]),
    ("curly_brace_format", .text "new_line"),
    ("explicit_this_pointer", .bool false),
    ("friend_comparison_operators", .bool false),
    ("indentation", .text "    "),
    ("namespace_body_indentation", .text "auto"),
    ("braced_initialization", .bool false),
    ("always_move_comments", .bool true),
    ("getter_definition_location", .text "inline"),
    ("setter_definition_location", .text "inline"),
    ("accessor_case_style", .text "auto"),
    ("header_guard_style", .text "define"),
    ("header_guard_define_format", .text "$\x7bFILENAME_EXT\x7d"),
    ("exclude_directories", texts [".git", ".svn", ".hg", "node_modules", "__pycache__", ".vs", ".vscode",
      ".idea", "CMakeFiles", "build"])]

def standard : Settings := ⟨defaultValues.map fun (name, value) => (.text name, value)⟩

def insertValue (name : SettingName) (value : Json) : List (SettingName × Json) → List (SettingName × Json)
  | [] => [(name, value)]
  | (n, v) :: rest => if n.same name then (n, value) :: rest else (n, v) :: insertValue name value rest

def set (s : Settings) (name : SettingName) (value : Json) : Settings := ⟨insertValue name value s.values⟩

def ofFields (fields : List (Text × Json)) : Settings :=
  fields.foldl (fun s (name, value) => s.set (.text name) value) standard

/-! ## Reading settings -/

/-- One entry of a list of settings: a list of two items, or anything else with two elements. -/
def entryOf (index : Nat) (v : Json) : Outcome (SettingName × Json) :=
  match v.elements with
  | .error _ => .error (.wrongType ("cannot convert dictionary update sequence element #" ++ ofNat index
      ++ " to a sequence"))
  | .ok [name, value] => do
    name.hashable
    return (.ofJson name, value)
  | .ok elements => .error (.notAPair index elements.length)

def withEntries (s : Settings) (index : Nat) : List Json → Outcome Settings
  | [] => return s
  | v :: rest => do
    let (name, value) ← entryOf index v
    withEntries (s.set name value) (index + 1) rest

/-- The settings that a JSON value describes: an object, or a list of entries. -/
def ofJson (v : Json) : Outcome Settings :=
  match v with
  | .obj fields => .ok (ofFields fields)
  | _ => do standard.withEntries 0 (← v.elements)

/-- The settings in the text of a file; those of a broken file are the default ones. -/
def ofText (t : Text) : Outcome Settings := do
  match ← Json.ofFileText t with
  | none => return standard
  | some v =>
    match ofJson v with
    | .error (.notAPair _ _) => return standard
    | r => r

def ofBytes (data : Bytes) : Outcome Settings :=
  match Utf8.decode? data with
  | none => .ok standard
  | some t => ofText t

def exampleText : Text :=
  Json.pretty <| .object [
    ("curly_brace_format", .text "new_line_ctor_dtor"),
    ("explicit_this_pointer", .bool false),
    ("friend_comparison_operators", .bool true),
    ("indentation", .int 4),
    ("namespace_body_indentation", .text "never"),
    ("getter_definition_location", .text "inline"),
    ("setter_definition_location", .text "source_file"),
    ("accessor_case_style", .text "snake"),
    ("header_guard_style", .text "pragma_once"),
    ("exclude_directories", .arr [.text ".git", .text "build", .text "third_party"]),
    ("_comment", .text
      "Place this cpp-codegen-config.json file in your project root to customize generated code")]

/-! ## The single settings -/

def value (s : Settings) (name : String) : Json :=
  match s.values.find? fun (n, _) => n.same (.text name.toList) with
  | some (_, v) => v
  | none => (Json.lookup? name.toList defaultValues).getD .null

def choice {α : Type} [NamedChoice α] (s : Settings) (name : String) (fallback : α) : α :=
  ((s.value name).str?.bind NamedChoice.ofName?).getD fallback

def switch (s : Settings) (name : String) : Bool := (s.value name).isTruthy

def braceStyle (s : Settings) : BraceStyle := s.choice "curly_brace_format" .newLine

def namespaceIndentation (s : Settings) : NamespaceIndentation :=
  s.choice "namespace_body_indentation" .auto

def getterSite (s : Settings) : DefinitionSite := s.choice "getter_definition_location" .inline

def setterSite (s : Settings) : DefinitionSite := s.choice "setter_definition_location" .inline

def caseStyle (s : Settings) : CaseStyle := s.choice "accessor_case_style" .auto

def guardStyle (s : Settings) : GuardStyle := s.choice "header_guard_style" .define

def explicitThis (s : Settings) : Bool := s.switch "explicit_this_pointer"

def friendComparison (s : Settings) : Bool := s.switch "friend_comparison_operators"

def bracedInitialization (s : Settings) : Bool := s.switch "braced_initialization"

def alwaysMoveComments (s : Settings) : Bool := s.switch "always_move_comments"

def maxLength : Nat := Real64.twoTo 36

def spaces (n : Int) : Outcome Text :=
  if n ≥ Real64.twoTo 63 || n < -Real64.twoTo 63 then
    .error (.numberTooLarge "cannot fit 'int' into an index-sized integer")
  else if n > maxLength then .error .textTooLong
  else .ok (List.replicate n.toNat ' ')

/-- One level of indentation, as given; a number means that many spaces. -/
def indentation (s : Settings) : Outcome Json :=
  match s.value "indentation" with
  | .int i => return .str (← spaces i)
  | .bool b => return .str (if b then [' '] else [])
  | v => return v

def indentationText (s : Settings) : Outcome Text := do (← s.indentation).textToJoin

def guardFormat (s : Settings) : Outcome Text := (s.value "header_guard_define_format").textFor "replace"

def headerExtensions (s : Settings) : Json := s.value "header_extensions"

def sourceExtensions (s : Settings) : Json := s.value "source_extensions"

def isHeaderExtension (s : Settings) (extension : Text) : Outcome Bool :=
  s.headerExtensions.lists (toLower extension)

def isSourceExtension (s : Settings) (extension : Text) : Outcome Bool :=
  s.sourceExtensions.lists (toLower extension)

def excludedDirectories (s : Settings) : Outcome (List Text) := do
  let names ← (s.value "exclude_directories").elements
  names.forM Json.hashable
  return names.filterMap Json.str?

def toJson (s : Settings) : Outcome Json := do
  let indentation ← s.indentation
  return .object [
    ("header_extensions", s.headerExtensions),
    ("source_extensions", s.sourceExtensions),
    ("curly_brace_format", .str (NamedChoice.nameOf s.braceStyle)),
    ("explicit_this_pointer", .bool s.explicitThis),
    ("friend_comparison_operators", .bool s.friendComparison),
    ("indentation", indentation),
    ("namespace_body_indentation", .str (NamedChoice.nameOf s.namespaceIndentation)),
    ("braced_initialization", .bool s.bracedInitialization),
    ("always_move_comments", .bool s.alwaysMoveComments),
    ("getter_definition_location", .str (NamedChoice.nameOf s.getterSite)),
    ("setter_definition_location", .str (NamedChoice.nameOf s.setterSite)),
    ("accessor_case_style", .str (NamedChoice.nameOf s.caseStyle)),
    ("header_guard_style", .str (NamedChoice.nameOf s.guardStyle)),
    ("header_guard_define_format", s.value "header_guard_define_format"),
    ("exclude_directories", s.value "exclude_directories")]

end Settings

end CppScaffold
