import CppScaffold.Workspace

/-!
# Getters and setters

Member functions that return or set a member variable.
-/

namespace CppScaffold

open Text Recognizer CodeAction

inductive AccessorKind where
  | getter
  | setter
  deriving DecidableEq, Repr

structure Accessor where
  kind : AccessorKind
  member : Entity
  name : Text
  returnType : Text
  parameter : Text
  body : Text

namespace Accessor

def parent? (a : Accessor) : Option Entity := a.member.parent?

def isStatic (a : Accessor) : Bool := a.member.isStatic

def memberQualifier (member : Entity) (settings : Settings) : Text :=
  if settings.explicitThis && !member.isStatic then "this->"
  else if member.isStatic then
    match member.parent? with
    | some c => c.name ++ "::"
    | none => []
  else []

/-- A type and a name, divided by a space unless a mark of a pointer or reference ends the type. -/
def declarator (type name : Text) : Text :=
  if type.getLast?.any fun c => c == '*' || c == '&' then type ++ name else type ++ ' ' :: name

def withoutAttributeBrackets (t : Text) : Text := replace "]]" [] (replace "[[" [] t)

def variableQualifier : Recognizer :=
  anyWord (["static", "const", "volatile", "mutable"].map String.toList)

/-- The return type of a getter, from the text before the name of the member. Qualifiers inside of
template arguments belong to the type. -/
def getterType (leading : Text) : Text :=
  let t := withoutAttributeBrackets leading
  let unqualified (t : Text) : Text := removeAll variableQualifier t
  let bare := match find? ['<'] t, findLast? ['>'] t with
    | some i, some k => unqualified (t.take i) ++ between t i (k + 1) ++ unqualified (t.drop (k + 1))
    | _, _ => unqualified t
  trimStart (Spacing.collapse bare)

def getter (member : Entity) (settings : Settings) : Accessor :=
  { kind := .getter
    member
    name := member.getterName settings.caseStyle
    returnType := getterType member.parsableLeadingText
    parameter := []
    body := "return " ++ memberQualifier member settings ++ member.name ++ [';'] }

def storageSpecifier : Recognizer :=
  seq [boundary, firstOf [exactly "static", exactly "mutable"], blanks]

/-- Accepts a mark of a reference that no template argument encloses, and the blanks before it. -/
def outerReference : Recognizer :=
  seq [blanks, char (· == '&'), notAhead fun _ t => if (t.takeWhile (· != '\n')).contains '>' then some 0 else none]

/-- The parameter of a setter. Built-in types and pointers are passed by value, anything else by
reference. -/
def setterParameter (member : Entity) (name : Text) : Text :=
  let written := removeAll storageSpecifier member.parsableLeadingText
  let type := trim (Spacing.collapse (withoutAttributeBrackets written))
  if member.isPrimitive || member.isPointer then declarator (removeAll outerReference type) name
  else if member.isReference then declarator ("const " ++ type) name
  else declarator ("const " ++ type ++ " &") name

def setter (member : Entity) (settings : Settings) : Accessor :=
  let base := member.baseName
  let parameterName := if base == member.name then base ++ ['_'] else base
  { kind := .setter
    member
    name := member.setterName settings.caseStyle
    returnType := "void "
    parameter := setterParameter member parameterName
    body := memberQualifier member settings ++ member.name ++ " = " ++ parameterName ++ [';'] }

def trailing (a : Accessor) : Text :=
  if a.kind = .getter && !a.isStatic then " const" else []

def declaration (a : Accessor) : Text :=
  (if a.isStatic then "static ".toList else []) ++ a.returnType ++ a.name ++ '(' :: a.parameter ++ ')' :: a.trailing

/-- The specifier that a definition outside of the class but in the same file needs. -/
def inlineSpecifier (a : Accessor) (target : OpenDocument) (p : Position) : Outcome Text := do
  let outside := match a.parent? with
    | some c => !c.range.containsStrictly p
    | none => true
  if outside then
    let own ← a.member.document.path
    return if own == (← target.path) then "inline " else []
  else return []

/-- The definition of the accessor at a position of the target; `separator` stands before the opening
brace. -/
def definition (a : Accessor) (target : OpenDocument) (p : Position) (separator : Text) : CodeAction Text := do
  let eol := target.eol
  let head := a.member.combinedTemplateStatements true eol false
  let specifier ← a.inlineSpecifier target p
  let scopes ← a.member.scopeString target p none
  let indentation ← (← settings).indentationText
  return head ++ specifier ++ a.returnType ++ scopes ++ a.name ++ '(' :: a.parameter ++ ')' :: a.trailing ++ separator
    ++ '{' :: eol ++ indentation ++ a.body ++ eol ++ ['}']

end Accessor

end CppScaffold
