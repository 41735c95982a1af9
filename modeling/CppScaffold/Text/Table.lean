/-!
# Tables of numbers

A long table is written in rows of hexadecimal digits, read from their end. A number is given by its octal digits, with
8 added to all but the last.
-/

namespace CppScaffold.Text

/-- The numbers in the last digits of a row; `n` is what was read of the first of them. -/
def numbersFrom (n row : Nat) : Nat → List Nat
  | 0 => []
  | digits + 1 =>
    if row == 0 then []
    else if row % 16 < 8 then (8 * n + row % 16) :: numbersFrom 0 (row / 16) digits
    else numbersFrom (8 * n + (row % 16 - 8)) (row / 16) digits

/-- The numbers of rows that have at most 120 digits. -/
def rows (table : List Nat) : List Nat := table.flatMap (numbersFrom 0 · 120)

end CppScaffold.Text
