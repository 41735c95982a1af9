import CppScaffold.Files.Glob
import CppScaffold.Files.Project

/-!
# Finding the parser's library

The library of the parser is looked for next to the server first, and then where the system may have it.
-/

namespace CppScaffold.ParserLibrary

open Text

inductive System where
  | windows
  | macos
  | linux
  deriving DecidableEq, Repr

def System.ofName (name : Text) : System :=
  if name == "Windows" then .windows
  else if name == "Darwin" then .macos
  else .linux

def bundled (s : System) : List Text :=
  let names := match s with
    | .windows => ["windows/libclang.dll", "windows/clang.dll"]
    | .macos => ["macos/libclang.dylib"]
    | .linux => ["linux/libclang.so.1", "linux/libclang.so"]
  names.map fun n => Settings.serverDirectory ++ "/lib/" ++ n.toList

def installed : System → List Text
  | .windows =>
    ["C:\\Program Files\\LLVM\\bin\\libclang.dll", "C:\\Program Files (x86)\\LLVM\\bin\\libclang.dll",
      "C:\\vcpkg\\installed\\x64-windows\\bin\\clang.dll"].map String.toList
  | .macos =>
    ["/usr/local/lib/libclang.dylib", "/opt/homebrew/lib/libclang.dylib",
      "/Applications/Xcode.app/Contents/Developer/Toolchains/XcodeDefault.xctoolchain/usr/lib/libclang.dylib"].map
      String.toList
  | .linux =>
    ["/usr/lib/llvm-*/lib/libclang.so.1", "/usr/lib/x86_64-linux-gnu/libclang-*.so.1", "/usr/lib/libclang.so.1",
      "/usr/lib/libclang.so"].map String.toList

structure ToolAnswer where
  code : Int
  output : Text

def fits (pattern path : Text) : Bool :=
  let ps := splitAtChar '/' pattern
  let ss := splitAtChar '/' path
  ps.length = ss.length && (ps.zip ss).all fun (p, s) => Pattern.accepts p s

/-- The existing path that a pattern denotes; of several ones the last in order. -/
def resolve? (existing : List Text) (pattern : Text) : Option Text :=
  if pattern.contains '*' then ((existing.filter (fits pattern)).mergeSort Text.le).getLast?
  else if existing.contains pattern then some pattern
  else none

def find? (s : System) (existing : List Text) (tool : Option ToolAnswer) : Option Text :=
  let told := match s, tool with
    | .windows, some a => if a.code = 0 then [Path.join (trim a.output) "libclang.dll"] else []
    | _, _ => []
  ((bundled s).find? existing.contains).orElse fun _ => (told ++ installed s).findSome? (resolve? existing)

/-- Whether the parser has a library, and the path at which one was found. A library that is loaded is not
looked for again. -/
def configure (loaded : Bool) (s : System) (existing : List Text) (tool : Option ToolAnswer) : Bool × Option Text :=
  if loaded then (true, none)
  else
    let found := find? s existing tool
    (found.isSome, found)

end CppScaffold.ParserLibrary
