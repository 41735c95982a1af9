import CppScaffold.Text.Basic

/-!
# Reading whole numbers

Decimal digits of any script, perhaps with a sign, single underscores between them and blanks around.
-/

namespace CppScaffold.Text

def zeroDigits : List Nat := [
  0x30, 0x660, 0x6f0, 0x7c0, 0x966, 0x9e6, 0xa66, 0xae6, 0xb66, 0xbe6, 0xc66, 0xce6, 0xd66, 0xde6, 0xe50,
  0xed0, 0xf20, 0x1040, 0x1090, 0x17e0, 0x1810, 0x1946, 0x19d0, 0x1a80, 0x1a90, 0x1b50, 0x1bb0, 0x1c40,
  0x1c50, 0xa620, 0xa8d0, 0xa900, 0xa9d0, 0xa9f0, 0xaa50, 0xabf0, 0xff10, 0x104a0, 0x10d30, 0x11066,
  0x110f0, 0x11136, 0x111d0, 0x112f0, 0x11450, 0x114d0, 0x11650, 0x116c0, 0x11730, 0x118e0, 0x11950,
  0x11c50, 0x11d50, 0x11da0, 0x16a60, 0x16ac0, 0x16b50, 0x1d7ce, 0x1d7d8, 0x1d7e2, 0x1d7ec, 0x1d7f6,
  0x1e140, 0x1e2f0, 0x1e950, 0x1fbf0]

def digitValue? (c : Char) : Option Nat :=
  (zeroDigits.find? fun z => z ≤ c.toNat && c.toNat < z + 10).map (c.toNat - ·)

/-- Whether a character may stand around a number: any blank but the four information separators. -/
def isNumberBlank (c : Char) : Bool := isBlank c && !(0x1c ≤ c.toNat && c.toNat ≤ 0x1f)

/-- Why a text cannot be read as a whole number. -/
inductive NumberError where
  | malformed
  | tooLong (digits : Nat)
  deriving DecidableEq, Repr

def maxDigits : Nat := 4300

/-- Whether a run of digits and underscores has its underscores only between digits, one at a time; `prev` is
whether a digit stands before it. -/
def isDigitRun (prev : Bool) : Text → Bool
  | [] => prev
  | c :: rest => if c == '_' then prev && isDigitRun false rest else isDigitRun true rest

/-- The value of a number without sign; a number that is too long is refused whatever follows it. -/
def readNat (t : Text) : Except NumberError Nat :=
  let run := t.takeWhile fun c => c == '_' || (digitValue? c).isSome
  let digits := run.filterMap digitValue?
  if !isDigitRun false run then .error .malformed
  else if digits.length > maxDigits then .error (.tooLong digits.length)
  else if !(t.drop run.length).all isNumberBlank then .error .malformed
  else .ok (digits.foldl (fun n d => n * 10 + d) 0)

def readInt (t : Text) : Except NumberError Int :=
  match t.dropWhile isNumberBlank with
  | '-' :: rest => (readNat rest).map fun n => -(n : Int)
  | '+' :: rest => (readNat rest).map Int.ofNat
  | rest => (readNat rest).map Int.ofNat

end CppScaffold.Text
