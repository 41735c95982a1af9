import CppScaffold.Text.Basic
import CppScaffold.Text.PrintableTable

/-!
# Quoted texts in messages

A text in a message stands between single quotes, or double ones if it holds a single quote and no double one, with
escapes.
-/

namespace CppScaffold.Text

/-- The digits of a number in base sixteen, filled up with zeros to the given width. -/
def hex (width n : Nat) : Text :=
  let digits := Nat.toDigits 16 n
  List.replicate (width - digits.length) '0' ++ digits

def quoteChar (quote c : Char) : Text :=
  if c == quote || c == '\\' then ['\\', c]
  else if c == '\n' then ['\\', 'n']
  else if c == '\r' then ['\\', 'r']
  else if c == '\t' then ['\\', 't']
  else
    let n := c.toNat
    if inRuns n printableRuns then [c]
    else if n < 0x100 then '\\' :: 'x' :: hex 2 n
    else if n < 0x10000 then '\\' :: 'u' :: hex 4 n
    else '\\' :: 'U' :: hex 8 n

def quoted (t : Text) : Text :=
  let quote := if t.contains '\'' && !t.contains '"' then '"' else '\''
  quote :: t.flatMap (quoteChar quote) ++ [quote]

end CppScaffold.Text
