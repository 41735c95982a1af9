import CppScaffold.Error
import CppScaffold.Json.Basic
import CppScaffold.Text.Scan

/-!
# Access levels

The members of a class are public, protected or private.
-/

namespace CppScaffold

inductive AccessLevel where
  | isPublic
  | isProtected
  | isPrivate
  deriving DecidableEq, Repr

namespace AccessLevel

def name : AccessLevel → Text
  | isPublic => "public"
  | isProtected => "protected"
  | isPrivate => "private"

def ofName? (t : Text) : Option AccessLevel :=
  [isPublic, isProtected, isPrivate].find? (·.name == t)

def ofJson (v : Json) : Outcome AccessLevel :=
  match v.str?.bind ofName? with
  | some a => .ok a
  | none => .error (.notAnAccessLevel v.shown)

def specifier (a : AccessLevel) : Text := a.name ++ [':']

def recognizer (a : AccessLevel) : Recognizer :=
  open Recognizer in seq [boundary, exactly a.name, blanks, char (· == ':')]

end AccessLevel

end CppScaffold
