import CppScaffold.Json.Basic

/-!
# Writing JSON

Characters outside of printable ASCII are written as `\u` escapes. `render` writes a value on one line and `pretty` one
item per line.
-/

namespace CppScaffold.Json

def unicodeEscape (n : Nat) : Text :=
  '\\' :: 'u' :: Text.hex 4 n

def escapeChar (c : Char) : Text :=
  if c == '"' || c == '\\' then ['\\', c]
  else if c == '\n' then ['\\', 'n']
  else if c == '\r' then ['\\', 'r']
  else if c == '\t' then ['\\', 't']
  else if c.toNat == 8 then ['\\', 'b']
  else if c.toNat == 12 then ['\\', 'f']
  else
    let n := c.toNat
    if 32 ≤ n && n ≤ 126 then [c]
    else if n < 0x10000 then unicodeEscape n
    else
      let m := n - 0x10000
      unicodeEscape (0xd800 + m / 1024) ++ unicodeEscape (0xdc00 + m % 1024)

def renderString (s : Text) : Text :=
  '"' :: s.flatMap escapeChar ++ ['"']

/-- A string of code points with its quotes; half of a pair is written as one escape. -/
def renderPoints (points : List Nat) : Text :=
  '"' :: points.flatMap (fun n => if isHalfPair n then unicodeEscape n else escapeChar (Char.ofNat n)) ++ ['"']

def newLine (indent : Nat) : Text :=
  '\n' :: List.replicate indent ' '

mutual

def render : Json → Text
  | .null => "null"
  | .bool b => if b then "true" else "false"
  | .int i => Text.ofInt i
  | .real x => x.render
  | .str s => renderString s
  | .unpaired points => renderPoints points
  | .arr xs => '[' :: Text.join ", " (renderItems xs) ++ [']']
  | .obj fs => '{' :: Text.join ", " (renderFields fs) ++ ['}']

def renderItems : List Json → List Text
  | [] => []
  | x :: xs => render x :: renderItems xs

def renderFields : List (Text × Json) → List Text
  | [] => []
  | (n, v) :: rest => (renderString n ++ ": " ++ render v) :: renderFields rest

end

mutual

/-- A value with one item per line, nested by two spaces; `indent` is the indentation of its own
line. -/
def prettyAt (indent : Nat) : Json → Text
  | .arr (x :: xs) =>
    let sep := newLine (indent + 2)
    '[' :: sep ++ Text.join (',' :: sep) (prettyItems (indent + 2) (x :: xs)) ++ newLine indent ++ [']']
  | .obj (f :: fs) =>
    let sep := newLine (indent + 2)
    '{' :: sep ++ Text.join (',' :: sep) (prettyFields (indent + 2) (f :: fs)) ++ newLine indent ++ ['}']
  | v => render v

def prettyItems (indent : Nat) : List Json → List Text
  | [] => []
  | x :: xs => prettyAt indent x :: prettyItems indent xs

def prettyFields (indent : Nat) : List (Text × Json) → List Text
  | [] => []
  | (n, v) :: rest => (renderString n ++ ": " ++ prettyAt indent v) :: prettyFields indent rest

end

/-- A value with one item per line, nested by two spaces. -/
def pretty (v : Json) : Text :=
  prettyAt 0 v

end CppScaffold.Json
