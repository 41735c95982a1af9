import CppScaffold.Text.Basic

/-!
# Recognisers

A recogniser is given the character before a place, if any, and the text from there on, and answers how many characters
it accepts. `search?`, `findAll` and `replaceAll` run one over a text.
All combinators are greedy: `andThen` commits to what its first part accepts.
-/

namespace CppScaffold

structure Span where
  start : Nat
  stop : Nat
  deriving DecidableEq, Repr

/-- A recogniser maps the character before a place and the text from the place on to the number of
characters accepted there. -/
abbrev Recognizer := Option Char → Text → Option Nat

namespace Recognizer

open Text

def before (prev : Option Char) (t : Text) (n : Nat) : Option Char :=
  if n = 0 then prev else t[n - 1]?

/-- Whether a neighbouring character is a word character; beyond either end of a text there is none. -/
def isWord (c : Option Char) : Bool :=
  c.any isWordChar

def boundary : Recognizer := fun prev t =>
  if isWord prev != isWord t.head? then some 0 else none

def exactly (w : Text) : Recognizer := fun _ t =>
  if w.isPrefixOf t then some w.length else none

def char (p : Char → Bool) : Recognizer := fun _ t =>
  match t with
  | c :: _ => if p c then some 1 else none
  | [] => none

/-- Accepts all following characters that satisfy `p`, possibly none. -/
def many (p : Char → Bool) : Recognizer := fun _ t =>
  some (t.takeWhile p).length

def some1 (p : Char → Bool) : Recognizer := fun _ t =>
  match (t.takeWhile p).length with
  | 0 => none
  | n => some n

def blanks : Recognizer := many isBlank

def blanks1 : Recognizer := some1 isBlank

def andThen (r s : Recognizer) : Recognizer := fun prev t =>
  match r prev t with
  | none => none
  | some n => (s (before prev t n) (t.drop n)).map (n + ·)

def seq : List Recognizer → Recognizer
  | [] => fun _ _ => some 0
  | [r] => r
  | r :: rs => andThen r (seq rs)

def firstOf : List Recognizer → Recognizer
  | [] => fun _ _ => none
  | r :: rs => fun prev t => (r prev t).orElse fun _ => firstOf rs prev t

def optional (r : Recognizer) : Recognizer := fun prev t =>
  some ((r prev t).getD 0)

def atMost : Nat → Recognizer → Recognizer
  | 0, _ => fun _ _ => some 0
  | n + 1, r => fun prev t =>
    match r prev t with
    | none | some 0 => some 0
    | some k => (atMost n r (before prev t k) (t.drop k)).map (k + ·)

/-- Accepts what `r` accepts as often as possible in a row. -/
def repeated (r : Recognizer) : Recognizer := fun prev t =>
  atMost t.length r prev t

/-- Accepts nothing, if `r` would accept here. -/
def ahead (r : Recognizer) : Recognizer := fun prev t =>
  if (r prev t).isSome then some 0 else none

/-- Accepts nothing, if `r` would not accept here. -/
def notAhead (r : Recognizer) : Recognizer := fun prev t =>
  if (r prev t).isSome then none else some 0

def atEnd : Recognizer := fun _ t =>
  if t.isEmpty then some 0 else none

def atLastLineEnd : Recognizer := fun _ t =>
  if t.isEmpty || t == ['\n'] then some 0 else none

def atLineStart : Recognizer := fun prev _ =>
  if prev.isNone || prev == some '\n' then some 0 else none

def word (w : Text) : Recognizer :=
  seq [boundary, exactly w, boundary]

def anyWord (ws : List Text) : Recognizer :=
  firstOf (ws.map word)

/-- Accepts an identifier, wherever it begins: a letter or low line and all word characters after. -/
def identifierPart : Recognizer := fun _ t =>
  match t with
  | c :: rest => if isIdentifierStart c then some (1 + (rest.takeWhile isWordChar).length) else none
  | [] => none

def identifier : Recognizer :=
  andThen boundary identifierPart

/-- Accepts an opening and a closing delimiter with only blanks between them. -/
def emptyPair (left right : Char) : Recognizer :=
  seq [char (· == left), blanks, char (· == right)]

end Recognizer

namespace Text

/-- The leftmost place at which `r` accepts, counted from the current place on. -/
def searchFrom (r : Recognizer) (prev : Option Char) (offset : Nat) : Text → Option Span
  | [] => (r prev []).map fun n => ⟨offset, offset + n⟩
  | c :: rest =>
    match r prev (c :: rest) with
    | some n => some ⟨offset, offset + n⟩
    | none => searchFrom r (some c) (offset + 1) rest

def search? (r : Recognizer) (t : Text) : Option Span :=
  searchFrom r none 0 t

def hasMatch (r : Recognizer) (t : Text) : Bool :=
  (search? r t).isSome

def matchStart? (r : Recognizer) (t : Text) : Option Nat :=
  r none t

/-- The places at which `r` accepts at least one character; `skip` characters still belong to the
place found last. -/
def findAllFrom (r : Recognizer) (prev : Option Char) (offset skip : Nat) : Text → List Span
  | [] => []
  | c :: rest =>
    match skip with
    | skip + 1 => findAllFrom r (some c) (offset + 1) skip rest
    | 0 =>
      match r prev (c :: rest) with
      | some (n + 1) => ⟨offset, offset + (n + 1)⟩ :: findAllFrom r (some c) (offset + 1) n rest
      | _ => findAllFrom r (some c) (offset + 1) 0 rest

/-- All places, from left to right and without overlap, at which `r` accepts at least one
character. -/
def findAll (r : Recognizer) (t : Text) : List Span :=
  findAllFrom r none 0 0 t

/-- The current text with every accepted part replaced; `skip` characters still belong to the part
replaced last. -/
def replaceAllFrom (r : Recognizer) (f : Text → Text) (prev : Option Char) (skip : Nat) : Text → Text
  | [] => []
  | c :: rest =>
    match skip with
    | skip + 1 => replaceAllFrom r f (some c) skip rest
    | 0 =>
      match r prev (c :: rest) with
      | some (n + 1) => f ((c :: rest).take (n + 1)) ++ replaceAllFrom r f (some c) n rest
      | _ => c :: replaceAllFrom r f (some c) 0 rest

def replaceAll (r : Recognizer) (f : Text → Text) (t : Text) : Text :=
  replaceAllFrom r f none 0 t

def removeAll (r : Recognizer) (t : Text) : Text :=
  replaceAll r (fun _ => []) t

def removeFirst (r : Recognizer) (t : Text) : Text :=
  match search? r t with
  | some s => t.take s.start ++ t.drop s.stop
  | none => t

def extract (t : Text) (s : Span) : Text :=
  between t s.start s.stop

/-- A text with `old` removed wherever a line begins with it and `new` put in its place. -/
def replaceLineStartsFrom (old new : Text) (prev : Option Char) (skip : Nat) : Text → Text
  | [] => []
  | c :: rest =>
    match skip with
    | skip + 1 => replaceLineStartsFrom old new (some c) skip rest
    | 0 =>
      if (prev.isNone || prev == some '\n') && !old.isEmpty && old.isPrefixOf (c :: rest) then
        new ++ replaceLineStartsFrom old new (some c) (old.length - 1) rest
      else c :: replaceLineStartsFrom old new (some c) 0 rest

/-- A text in which `old` at the start of a line is replaced by `new`. A line begins at the start of
the text and after every line feed. -/
def replaceLineStarts (old new t : Text) : Text :=
  replaceLineStartsFrom old new none 0 t

end Text

end CppScaffold
