import CppScaffold.Lexical.Lexeme

/-!
# Masking

To mask a character is to replace it by a space; line breaks stay, so that offsets found in a masked text are valid in
the text itself. `keep` says whether the enclosing characters stay visible.
-/

namespace CppScaffold.Mask

open Text

def maskChar (c : Char) : Char :=
  if isBreak c then c else ' '

def all (t : Text) : Text :=
  t.map maskChar

/-! ## Comments and literals -/

def enclosing : TokenKind → Nat × Nat
  | .lineComment => (2, 0)
  | .blockComment => (2, 2)
  | .rawString => (2, 1)
  | .string => (1, 1)
  | .char => (1, 1)

/-- A token with its inside replaced by its image under `f`; the whole token is its inside unless
`keep` is set. -/
def replaceInside (kind : TokenKind) (keep : Bool) (f : Text → Text) (t : Text) : Text :=
  let (left, right) := if keep then enclosing kind else (0, 0)
  t.take left ++ f (between t left (t.length - right)) ++ t.drop (t.length - right)

/-- Replaces the inside of the tokens that `chosen` picks, which also says whether the enclosing characters are kept.
-/
def replaceTokens (chosen : TokenKind → Option Bool) (f : Text → Text) (t : Text) : Text :=
  (Lexeme.scan t).flatMap fun
    | .plain c => [c]
    | .token kind w =>
      match chosen kind with
      | some keep => replaceInside kind keep f w
      | none => w

def chooseComments (keep : Bool) : TokenKind → Option Bool
  | .lineComment | .blockComment => some keep
  | _ => none

def chooseRawStrings (keep : Bool) : TokenKind → Option Bool
  | .rawString => some keep
  | _ => none

def chooseQuotes (keep : Bool) : TokenKind → Option Bool
  | .string | .char => some keep
  | _ => none

/-- The choice of all tokens: comments whole, literals without their enclosing characters. -/
def chooseAll : TokenKind → Option Bool
  | .lineComment | .blockComment => some false
  | _ => some true

def comments (t : Text) (keep : Bool) : Text := replaceTokens (chooseComments keep) all t

def removeComments (t : Text) : Text := replaceTokens (chooseComments false) (fun _ => []) t

def rawStrings (t : Text) (keep : Bool) : Text := replaceTokens (chooseRawStrings keep) all t

def quotes (t : Text) (keep : Bool) : Text := replaceTokens (chooseQuotes keep) all t

/-! ## Attributes -/

/-- Accepts an attribute: two opening brackets up to the first two closing ones on the same line. -/
def attributeGroup : Recognizer := fun _ t =>
  match t with
  | '[' :: '[' :: rest =>
    match find? [']', ']'] rest with
    | some i => if (rest.take i).any isBreak then none else some (i + 4)
    | none => none
  | _ => none

def attributes (t : Text) (keep : Bool) : Text :=
  replaceAll attributeGroup
    (fun a => if keep then a.take 2 ++ all (between a 2 (a.length - 2)) ++ a.drop (a.length - 2) else all a) t

def removeAttributes (t : Text) : Text := removeAll attributeGroup t

/-- Masks comments whole, and literals and attributes inside; `keepAttributes` leaves the brackets of attributes
visible. -/
def nonSource (t : Text) (keepAttributes : Bool) : Text :=
  attributes (replaceTokens chooseAll all t) keepAttributes

/-! ## Bracketed groups -/

/-- The outermost groups that a scan finds, as the offsets of their delimiters, and the first delimiter without
partner. -/
structure Groups where
  spans : List (Nat × Nat)
  unbalanced : Option Nat

/-- Scans with `depth` groups open, of which the outermost begins at `start`; `escaped` tells that a backslash takes
the next character along. -/
def groupsFrom (left right : Char) (offset depth start : Nat) (escaped : Bool) : Text → Groups
  | [] => ⟨[], if depth > 0 then some start else none⟩
  | c :: rest =>
    if escaped then groupsFrom left right (offset + 1) depth start false rest
    else if c == '\\' then groupsFrom left right (offset + 1) depth start true rest
    else if c == left then
      groupsFrom left right (offset + 1) (depth + 1) (if depth = 0 then offset else start) false rest
    else if c == right then
      match depth with
      | 0 => ⟨[], some offset⟩
      | 1 =>
        let g := groupsFrom left right (offset + 1) 0 start false rest
        ⟨(start, offset) :: g.spans, g.unbalanced⟩
      | depth + 2 => groupsFrom left right (offset + 1) (depth + 1) start false rest
    else groupsFrom left right (offset + 1) depth start false rest

def groups (left right : Char) (t : Text) : Groups :=
  groupsFrom left right 0 0 0 false t

/-- Blanks delimiters without partner one after the other; there are no more rounds than characters. -/
def balance (left right : Char) : Nat → Text → Text
  | 0, t => t
  | fuel + 1, t =>
    match (groups left right t).unbalanced with
    | none => t
    | some i => balance left right fuel (t.set i ' ')

def maskSpans (keep : Bool) (offset : Nat) : List (Nat × Nat) → Text → Text
  | [], t => t
  | (start, stop) :: rest, t =>
    let (first, last) := if keep then (start + 1, stop) else (start, stop + 1)
    t.take (first - offset) ++ all (between t (first - offset) (last - offset))
      ++ maskSpans keep last rest (t.drop (last - offset))

/-- Masks the outermost groups between two delimiters; delimiters without partner are blanked. -/
def balanced (left right : Char) (t : Text) (keep : Bool) : Text :=
  let t := balance left right (t.length + 1) t
  maskSpans keep 0 (groups left right t).spans t

def parentheses (t : Text) (keep : Bool) : Text := balanced '(' ')' t keep

def braces (t : Text) (keep : Bool) : Text := balanced '{' '}' t keep

def brackets (t : Text) (keep : Bool) : Text := balanced '[' ']' t keep

def angleBrackets (t : Text) (keep : Bool) : Text := balanced '<' '>' t keep

def comparisonOperator : Recognizer := fun _ t =>
  match t with
  | c :: '=' :: rest =>
    if (c == '<' || c == '>' || c == '!' || c == '=') && rest.head? != some '=' then some 2 else none
  | _ => none

def comparisons (t : Text) : Text := replaceAll comparisonOperator all t

/-- Masks the contents of every bracketed group, so that only commas and equals signs between the
groups stay visible. -/
def nestedGroups (t : Text) : Text :=
  let t := parentheses t true
  let t := comparisons t
  let t := angleBrackets t true
  let t := braces t true
  brackets t true

end CppScaffold.Mask
