import CppScaffold.Text.Scan

/-!
# Comments and literals

Source text is read into comments, literals and the single characters between them, where the leftmost construct wins.
What is not closed is no lexeme; its first character is an ordinary one.
-/

namespace CppScaffold

inductive TokenKind where
  | lineComment
  | blockComment
  | rawString
  | string
  | char
  deriving DecidableEq, Repr

inductive Lexeme where
  | plain (c : Char)
  | token (kind : TokenKind) (written : Text)
  deriving DecidableEq, Repr

namespace Lexeme

open Text

def written : Lexeme → Text
  | .plain c => [c]
  | .token _ t => t

/-- The length of a quoted literal after its opening quote. A backslash takes the next character along; a line break
ends the attempt. -/
def quotedLength (quote : Char) : Text → Option Nat
  | [] => none
  | '\\' :: _ :: rest => (quotedLength quote rest).map (· + 2)
  | c :: rest =>
    if c == quote then some 1
    else if c == '\\' || isBreak c then none
    else (quotedLength quote rest).map (· + 1)

/-- The characters that may stand between the opening quote and the parenthesis of a raw string. -/
def isDelimiterChar (c : Char) : Bool :=
  !(c == '(' || c == ')' || c == '\\' || c == '"' || isBlank c)

def rawLength (t : Text) : Option Nat :=
  let delimiter := t.takeWhile isDelimiterChar
  let rest := t.drop delimiter.length
  if delimiter.length ≤ 16 && rest.head? == some '(' then
    let closing := ')' :: delimiter ++ ['"']
    (find? closing (rest.drop 1)).map fun i => delimiter.length + 1 + i + closing.length
  else none

/-- The comment or literal that begins with the character `c` before `rest`: its kind and the number
of its characters in `rest`. -/
def tokenAt (c : Char) (rest : Text) : Option (TokenKind × Nat) :=
  match c, rest with
  | '/', '/' :: more => some (.lineComment, 1 + (more.takeWhile (!isBreak ·)).length)
  | '/', '*' :: more => (find? ['*', '/'] more).map fun i => (.blockComment, 1 + i + 2)
  | 'R', '"' :: more => (rawLength more).map fun n => (.rawString, 1 + n)
  | '"', more => (quotedLength '"' more).map fun n => (.string, n)
  | '\'', more => (quotedLength '\'' more).map fun n => (.char, n)
  | _, _ => none

def scanFrom (skip : Nat) : Text → List Lexeme
  | [] => []
  | c :: rest =>
    match skip with
    | skip + 1 => scanFrom skip rest
    | 0 =>
      match tokenAt c rest with
      | some (kind, n) => .token kind (c :: rest.take n) :: scanFrom n rest
      | none => .plain c :: scanFrom 0 rest

def scan (t : Text) : List Lexeme :=
  scanFrom 0 t

end Lexeme

end CppScaffold
