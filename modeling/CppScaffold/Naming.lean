import CppScaffold.Text.Case
import CppScaffold.Text.Scan

/-!
# Naming styles

Identifiers are converted between the styles `snake_case`, `camelCase` and `PascalCase`.
-/

namespace CppScaffold.Naming

open Text

def capitalize (t : Text) : Text := toUpper (t.take 1) ++ t.drop 1

def uncapitalize (t : Text) : Text := toLower (t.take 1) ++ t.drop 1

/-- A text with a low line put before each capital letter that follows another character than a low
line. -/
def divideCapitals (prev : Option Char) : Text → Text
  | [] => []
  | c :: rest =>
    if c.isUpper && prev.any (· != '_') then '_' :: c :: divideCapitals (some c) rest
    else c :: divideCapitals (some c) rest

def snakeCase (t : Text) : Text := toLower (divideCapitals none t)

/-- Accepts low lines and the letter or digit after them. -/
def hump : Recognizer :=
  Recognizer.andThen (Recognizer.some1 (· == '_')) (Recognizer.char Char.isAlphanum)

def camelCase (t : Text) : Text :=
  uncapitalize (replaceAll hump (fun h => (h.drop (h.length - 1)).map Char.toUpper) t)

def pascalCase (t : Text) : Text := capitalize (camelCase t)

end CppScaffold.Naming
