import CppScaffold.Error

/-!
# Templates

A template is a text in which a backslash begins an escape: `\n`, `\t` and the like, octal digits, or a group as `\1`
or `\g<1>`. Templates here replace an empty place, so only the group zero may be named, and it is empty.
Pieces are read with a look at the piece after, so a backslash at the very end is noticed when the one before it is
taken.
-/

namespace CppScaffold.Template

open Text

/-- The pieces of a template: a character, or a backslash with the character after it. Only a backslash at
the very end is a piece of its own. -/
def pieces : Text → List Text
  | [] => []
  | '\\' :: c :: rest => ['\\', c] :: pieces rest
  | c :: rest => [c] :: pieces rest

/-- Refuses to go on to a backslash that ends the template; `offset` is where the next piece begins. -/
def checkNext (offset : Nat) (next : List Text) : Except TemplateError Unit :=
  if next.head? == some ['\\'] then .error (.malformed .danglingBackslash offset) else .ok ()

def digitIn (base : Nat) (piece : Text) : Option Nat :=
  match piece with
  | [c] => if c.isDigit && c.toNat - 48 < base then some (c.toNat - 48) else none
  | _ => none

def controlEscape? (c : Char) : Option Char :=
  match c with
  | 'a' => some (Char.ofNat 7)
  | 'b' => some (Char.ofNat 8)
  | 't' => some '\t'
  | 'n' => some '\n'
  | 'v' => some (Char.ofNat 11)
  | 'f' => some (Char.ofNat 12)
  | 'r' => some '\r'
  | '\\' => some '\\'
  | _ => none

def isGroupName (t : Text) : Bool :=
  t.all isWordChar && t.head?.any fun c => (digitValue? c).isNone

def checkGroup (number offset : Nat) : Except TemplateError Unit :=
  if number = 0 then .ok () else .error (.malformed (.noSuchGroup number) offset)

/-- Reads the group that is named between angle brackets, and gives the number of pieces used. The name
begins at `offset`. -/
def readGroup (offset : Nat) (rest : List Text) : Except TemplateError Nat := do
  let named := rest.takeWhile (· != ['>'])
  let name := named.flatten
  let stop := offset + name.length
  match rest.drop named.length with
  | [] =>
    if named.getLast? == some ['\\'] then .error (.malformed .danglingBackslash (stop - 1))
    else if named.isEmpty then .error (.malformed .noGroupName stop)
    else .error (.malformed .unclosedGroupName offset)
  | _ :: next =>
    checkNext (stop + 1) next
    if named.isEmpty then .error (.malformed .noGroupName stop)
    else if isGroupName name then .error (.unknownGroup name)
    else match readInt name with
      | .ok (.ofNat n) => checkGroup n offset
      | _ => .error (.malformed (.badGroupName name) offset)
    return named.length + 1

/-- Reads an escape at `offset` with the given first digit; gives its text and the number of further pieces used. -/
def readDigitEscape (offset first : Nat) (rest : List Text) : Except TemplateError (Text × Nat) := do
  let octal := (rest.take 2).takeWhile fun p => (digitIn 8 p).isSome
  let value (ds : List Text) : Nat := ds.foldl (fun n p => n * 8 + (digitIn 8 p).getD 0) first
  if first = 0 then
    checkNext (offset + 2 + octal.length) (rest.drop octal.length)
    return ([Char.ofNat (value octal)], octal.length)
  else if first < 8 && octal.length = 2 then
    checkNext (offset + 4) (rest.drop 2)
    if value octal > 0xff then
      .error (.malformed (.octalTooLarge ('\\' :: ofNat first ++ octal.flatten)) offset)
    else return ([Char.ofNat (value octal)], 2)
  else
    match rest.head?.bind (digitIn 10) with
    | some second =>
      checkNext (offset + 3) (rest.drop 1)
      checkGroup (first * 10 + second) (offset + 1)
      return ([], 1)
    | none =>
      checkGroup first (offset + 1)
      return ([], 0)

/-- Reads the escape with the given character, which begins at `offset`; gives its text and the number of
pieces used after it. -/
def readEscape (offset : Nat) (c : Char) (rest : List Text) : Except TemplateError (Text × Nat) :=
  match digitIn 10 [c] with
  | some d => readDigitEscape offset d rest
  | none =>
    if c == 'g' then
      match rest with
      | ['<'] :: more => do
        checkNext (offset + 3) more
        return ([], (← readGroup (offset + 3) more) + 1)
      | _ => .error (.malformed .noGroup (offset + 2))
    else match controlEscape? c with
      | some control => .ok ([control], 0)
      | none =>
        if c.isAlpha then .error (.malformed (.badEscape c) offset) else .ok (['\\', c], 0)

def expandFrom (offset skip : Nat) : List Text → Except TemplateError Text
  | [] => .ok []
  | piece :: rest =>
    match skip with
    | skip + 1 => expandFrom (offset + piece.length) skip rest
    | 0 => do
      checkNext (offset + piece.length) rest
      let (text, used) ← match piece with
        | ['\\', c] => readEscape offset c rest
        | _ => .ok (piece, 0)
      return text ++ (← expandFrom (offset + piece.length) used rest)

def expand (t : Text) : Outcome Text :=
  let ps := pieces t
  match checkNext 0 ps, expandFrom 0 0 ps with
  | .ok (), .ok text => .ok text
  | .error e, _ => .error (.template t e)
  | .ok (), .error e => .error (.template t e)

end CppScaffold.Template
