import CppScaffold.Entity.Template
import CppScaffold.Naming
import CppScaffold.Placement
import CppScaffold.Settings

/-!
# Members of classes

Access specifiers and their ranges, base classes, member variables with their accessors, and where a new member
function goes.
-/

namespace CppScaffold.Entity

open Text Recognizer

/-! ## Access -/

/-- Accepts what looks like an access specifier: a word and a single colon. -/
def accessSpecifier : Recognizer :=
  seq [identifier, blanks, char (· == ':'), notAhead (char (· == ':'))]

def maskChild (e : Entity) (t : Text) (child : Entity) : Text :=
  let start : Int := max ((child.startOffset : Int) - e.startOffset) 0
  let stop : Int := (child.endOffset : Int) - e.startOffset
  upTo t start ++ Mask.all (slice t start stop) ++ startingAt t stop

def accessSpecifiers (e : Entity) : List Fragment :=
  if e.isClass then
    let parsable := e.parsableText
    let body := e.offsetWithin e.bodyStart
    let ownText := Mask.all (upTo parsable body) ++ startingAt parsable body
    let masked := Mask.parentheses (e.children.foldl e.maskChild ownText) true
    (findAll accessSpecifier masked).map fun s =>
      let range := e.document.rangeAt (e.startOffset + s.start) (e.startOffset + s.stop)
      e.document.fragment range range
  else []

def hasByDefault (e : Entity) (access : AccessLevel) : Bool :=
  (access = .isPrivate && e.kind = .classType) || (access = .isPublic && e.kind = .struct)

/-- The ranges of an access level from the given specifiers on; `start` is where the current one began, if
there is one. -/
def accessRangesFrom (access : AccessLevel) (bodyEnd : Position) : Option Position → List Fragment → List Range
  | none, [] => []
  | some start, [] => [⟨start, bodyEnd⟩]
  | start, s :: rest =>
    if (matchStart? access.recognizer s.text).isSome then
      accessRangesFrom access bodyEnd (some (start.getD s.range.stop)) rest
    else
      match start with
      | some p => ⟨p, s.range.start⟩ :: accessRangesFrom access bodyEnd none rest
      | none => accessRangesFrom access bodyEnd none rest

def accessRanges (e : Entity) (access : AccessLevel) : List Range :=
  let start := if e.hasByDefault access then some e.bodyStart else none
  accessRangesFrom access e.bodyEnd start e.accessSpecifiers

def hasAccessAt (e : Entity) (p : Position) (access : AccessLevel) : Bool :=
  (e.accessRanges access).any (·.contains p)

/-! ## Base classes and members -/

def baseClassName : Recognizer :=
  seq [Types.qualifiedName, optional (andThen blanks (emptyPair '<' '>'))]

def resolvedName : Recognizer :=
  seq [identifierPart, boundary, notAhead (andThen blanks (exactly "::"))]

def baseClasses (e : Entity) : List Fragment :=
  if e.isClass then
    let start := e.document.offsetAt e.selection.stop
    let written := e.document.getText ⟨e.selection.stop, e.declarationEnd⟩
    let masked := Mask.angleBrackets (Mask.comments written false) true
    let keywords := ["public", "protected", "private", "virtual", "final"]
    let masked := replaceAll (anyWord (keywords.map String.toList)) Mask.all masked
    (findAll baseClassName masked).map fun s =>
      let range := e.document.rangeAt (start + s.start) (start + s.stop)
      let selection := match search? resolvedName (extract masked s) with
        | some n => e.document.rangeAt (start + s.start + n.start) (start + s.start + n.stop)
        | none => range
      e.document.fragment range selection
  else []

def membersToInitialize (e : Entity) : List Entity :=
  if e.isClass then e.children.filter fun c => c.isMemberVariable && (c.isConst || c.isReference) else []

def nonStaticMembers (e : Entity) : List Entity :=
  if e.isClass then e.children.filter fun c => c.isMemberVariable && !c.isStatic else []

def constructors (e : Entity) : List Entity :=
  if e.isClass then e.children.filter fun c => c.isFunction && c.isConstructor else []

/-! ## Names of accessors -/

/-- The name of a member without decorations such as `m_` and low lines at either end. -/
def baseName (e : Entity) : Text :=
  let bare := trimWhile (· == '_') e.name
  let isMark (c : Char) : Bool := c == 'm' || c == 's'
  let base := match dropFinalBreak bare with
    | c :: '_' :: rest =>
      if isMark c && !rest.isEmpty && rest.all isWordChar then trimWhile (· == '_') rest else bare
    | _ =>
      match bare with
      | c :: d :: rest => if isMark c && d.isUpper then Naming.uncapitalize (d :: rest) else bare
      | _ => bare
  if base.isEmpty then e.name else base

def accessorName (e : Entity) (verb : String) (style : CaseStyle) : Text :=
  let base := e.baseName
  let style := if style = .auto then (if base.contains '_' then .snake else .camel) else style
  match style with
  | .snake => verb.toList ++ '_' :: Naming.snakeCase base
  | .pascal => Naming.capitalize verb.toList ++ Naming.pascalCase base
  | _ => verb.toList ++ Naming.pascalCase base

def getterName (e : Entity) (style : CaseStyle) : Text := e.accessorName "get" style

def setterName (e : Entity) (style : CaseStyle) : Text := e.accessorName "set" style

def getterFor? (e member : Entity) (style : CaseStyle) : Option Entity :=
  let names := member.getterName style :: if member.baseName == member.name then [] else [member.baseName]
  e.children.find? fun c => c.isFunction && names.contains c.name

def setterFor? (e member : Entity) (style : CaseStyle) : Option Entity :=
  e.children.find? fun c => c.isFunction && c.name == member.setterName style

/-! ## Where new members go -/

def placeForChild (e : Entity) : Placement :=
  match e.children.getLast? with
  | some last => { position := last.trailingCommentEnd, relativeTo := some last.fullRange, after := true }
  | none =>
    { position := e.bodyStart, relativeTo := some e.fullRange, after := true, nextTo := true,
      emptyScope := true, inNamespace := e.isNamespace }

/-- Where a new function goes next to a member: a getter before the setter, anything else after. -/
def placeNextTo (child : Entity) (before : Bool) : Placement :=
  if before then
    { position := child.leadingCommentStart, relativeTo := some child.fullRange, before := true, nextTo := true }
  else
    { position := child.trailingCommentEnd, relativeTo := some child.fullRange, after := true, nextTo := true }

def placeInAccess (e : Entity) (access : AccessLevel) : Placement :=
  let ranges := e.accessRanges access
  let inBlock := e.children.filter fun c => ranges.any (·.contains c.range.stop)
  let anchor := (inBlock.reverse.find? isFunction).orElse fun _ => inBlock.getLast?
  match anchor with
  | some a => { position := a.trailingCommentEnd, relativeTo := some a.fullRange, after := true }
  | none =>
    let specifier := ranges.getLast?.bind fun r => e.accessSpecifiers.find? (·.range.stop = r.start)
    match specifier with
    | some s =>
      { position := s.range.stop, relativeTo := some s.range, after := true, nextTo := true, emptyScope := true }
    | none => e.placeForChild

/-- Where a new member function goes in a class: next to the last child named `relative`, and before it if that is the
setter of `member`. -/
def placeForFunction? (e : Entity) (access : AccessLevel) (relative : Option Text) (member : Option Entity)
    (style : CaseStyle) : Option Placement :=
  if e.isClass then
    let isGetter := match member with
      | some m => relative == some (m.setterName style)
      | none => false
    let neighbour := relative.bind fun name => e.children.reverse.find? (·.name == name)
    match neighbour with
    | some child => some (child.placeNextTo isGetter)
    | none => some (e.placeInAccess access)
  else none

/-- Where a new member function goes in a class, or a new child in anything else. -/
def placeForFunction (e : Entity) (access : AccessLevel) (relative : Option Text) (member : Option Entity)
    (settings : Settings) : Placement :=
  (e.placeForFunction? access relative member settings.caseStyle).getD e.placeForChild

end CppScaffold.Entity
