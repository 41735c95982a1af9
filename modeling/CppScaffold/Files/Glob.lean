import CppScaffold.Files.Tree

/-!
# File name patterns

`*` stands for any characters, `?` for one, brackets for one of those listed, or of all others after `!`, and two stars
alone for any directories on the way. Hidden names are found only by patterns that begin with a dot.
-/

namespace CppScaffold

open Text

inductive PatternPart where
  | star
  | any
  | oneOf (negated : Bool) (ranges : List (Char × Char))
  | exactly (c : Char)
  deriving DecidableEq, Repr

namespace Pattern

def isPattern (t : Text) : Bool := t.any fun c => c == '*' || c == '?' || c == '['

/-- Cuts a group at the hyphens that form ranges; `skip` counts the characters that come before one can stand. -/
def pieces (skip : Nat) (piece : Text) : Text → List Text
  | [] => [piece.reverse]
  | c :: rest =>
    match skip with
    | skip + 1 => pieces skip (c :: piece) rest
    | 0 => if c == '-' then piece.reverse :: pieces 2 [] rest else pieces 0 (c :: piece) rest

/-- An empty last piece means that the hyphen before it is a plain character. -/
def closeLast (ps : List Text) : List Text :=
  match ps.reverse with
  | [] :: p :: rest => ((p ++ ['-']) :: rest).reverse
  | _ => ps

/-- Joins two neighbouring pieces whose range would be empty; their characters at the hyphen go. -/
def dropEmptyRanges : List Text → List Text
  | [] => []
  | p :: rest =>
    match dropEmptyRanges rest with
    | [] => [p]
    | q :: more =>
      match p.getLast?, q.head? with
      | some a, some b => if b < a then (p.dropLast ++ q.tail) :: more else p :: q :: more
      | _, _ => p :: q :: more

/-- The ranges of the pieces of a group; `low` is the character before the last hyphen. A hyphen with no
character before it is a plain one. -/
def rangesOf (low : Option Char) : List Text → List (Char × Char)
  | [] => []
  | p :: rest =>
    let (ranged, plain) := match low, p with
      | some a, b :: more => ([(a, b)], more)
      | _, _ => ([], p)
    let (plain, next) :=
      if rest.isEmpty then (plain, none)
      else if plain.isEmpty then (['-'], none)
      else (plain.dropLast, plain.getLast?)
    ranged ++ plain.map (fun c => (c, c)) ++ rangesOf next rest

/-- The part that a group in brackets denotes. Empty ranges go before the group is looked at for the sign
of negation. -/
def groupPart (group : Text) : PatternPart :=
  let skip := if group.head? == some '!' then 2 else 1
  match dropEmptyRanges (closeLast (pieces skip [] group)) with
  | ('!' :: p) :: rest => .oneOf true (rangesOf none (p :: rest))
  | ps => .oneOf false (rangesOf none ps)

/-- The length of the group that begins after a bracket: up to the next closing bracket, which does not
count directly at the start. -/
def groupLength? (t : Text) : Option Nat :=
  let negation := if t.head? == some '!' then 1 else 0
  let first := if (t.drop negation).head? == some ']' then 1 else 0
  let skipped := negation + first
  (find? [']'] (t.drop skipped)).map (skipped + ·)

/-- The parts of a pattern; `skip` characters still belong to the group read last. -/
def partsFrom (skip : Nat) : Text → List PatternPart
  | [] => []
  | c :: rest =>
    match skip with
    | skip + 1 => partsFrom skip rest
    | 0 =>
      if c == '*' then .star :: partsFrom 0 rest
      else if c == '?' then .any :: partsFrom 0 rest
      else if c == '[' then
        match groupLength? rest with
        | some n => groupPart (rest.take n) :: partsFrom (n + 1) rest
        | none => .exactly '[' :: partsFrom 0 rest
      else .exactly c :: partsFrom 0 rest

def parts (pattern : Text) : List PatternPart := partsFrom 0 pattern

def fits (c : Char) : PatternPart → Bool
  | .star => false
  | .any => true
  | .oneOf negated ranges => (ranges.any fun (a, b) => a ≤ c && c ≤ b) != negated
  | .exactly d => c == d

def fitsParts : List PatternPart → Text → Bool
  | [], t => t.isEmpty
  | .star :: ps, t => (List.range (t.length + 1)).any fun n => fitsParts ps (t.drop n)
  | p :: ps, t =>
    match t with
    | [] => false
    | c :: rest => fits c p && fitsParts ps rest

def isHidden (name : Text) : Bool := name.head? == some '.'

def accepts (pattern name : Text) : Bool :=
  (isHidden pattern || !isHidden name) && fitsParts (parts pattern) name

end Pattern

namespace FileTree

/-- What fits one segment of a pattern in a directory. Two stars stand for all directories below, if `deep`; unless the
segment is the last one only directories are of interest. -/
def fitting (t : FileTree) (deep last : Bool) (segment directory : Text) : List Text :=
  if !Pattern.isPattern segment then
    let path := Path.join directory segment
    if t.contains path then [path] else []
  else
    let namesIn (key : List Text) : List Text := if last then t.fileNames key ++ t.directoryNames key
      else t.directoryNames key
    match t.keyOf directory with
    | .error _ => []
    | .ok key =>
      if !t.hasDirectory key then []
      else if deep && segment == ['*', '*'] then
        let places := t.directoriesBelow (!Pattern.isHidden ·) t.depth key directory
        places.map (·.2) ++ if last then places.flatMap fun (key, path) =>
          ((t.fileNames key).filter (!Pattern.isHidden ·)).map (Path.join path) else []
      else ((namesIn key).filter (Pattern.accepts segment)).map (Path.join directory)

def fittingAll (t : FileTree) (deep : Bool) : List Text → Text → List Text
  | [], directory => [directory]
  | segment :: rest, directory =>
    (t.fitting deep rest.isEmpty segment directory).flatMap (fittingAll t deep rest)

/-- The paths of what fits a pattern in a directory, or in any directory below it that is not hidden,
in the order of their code points. -/
def glob (t : FileTree) (directory pattern : Text) (recursive : Bool) : List Text :=
  if !recursive && !Pattern.isPattern pattern && !Pattern.isPattern directory then
    let path := Path.join directory pattern
    if t.contains path then [path] else []
  else
    let written := splitAtChar '/' pattern
    let segments := written.dropLast.filter (!·.isEmpty) ++ [written.getLastD []]
    (t.fittingAll recursive (if recursive then ['*', '*'] :: segments else segments) directory).mergeSort Text.le

end FileTree

end CppScaffold
