import CppScaffold.Entity.Traits

/-!
# Templates

The template statements before an entity, and the arguments with which a template is named inside of its
own scope.
-/

namespace CppScaffold.Entity

open Text Recognizer

def maskedTemplate : Recognizer :=
  seq [boundary, exactly "template", optional (andThen blanks (emptyPair '<' '>'))]

def templateDefault : Recognizer :=
  let ends (c : Char) : Bool := c == ',' || c == '>'
  seq [blanks, char (· == '='), some1 (!ends ·), ahead (char ends)]

def templateStatements (e : Entity) (removeDefaults : Bool) : List Text :=
  if e.isTemplate then
    let statement := e.removeIndentation
      (Mask.removeComments (e.document.getText ⟨e.trueStart, e.declarationStart⟩))
    (findAll maskedTemplate (Mask.angleBrackets statement true)).map fun s =>
      let t := extract statement s
      if t.getLast? != some '>' then t ++ "<>"
      else if removeDefaults then removeAll templateDefault t
      else t
  else []

/-- The template statements of the classes around the entity and of the entity itself. For a member
only a template with parameters has statements. -/
def allTemplateStatements (e : Entity) (removeDefaults forMember : Bool) : List Text :=
  let outer := e.scopes.filter fun s => s.isClass && s.isUnspecializedTemplate
  outer.flatMap (·.templateStatements removeDefaults)
    ++ if !forMember || e.isUnspecializedTemplate then e.templateStatements removeDefaults else []

def combinedTemplateStatements (e : Entity) (removeDefaults : Bool) (separator : Text) (forMember : Bool) :
    Text :=
  (e.allTemplateStatements removeDefaults forMember).flatMap (· ++ separator)

/-- The name of a template parameter, followed by dots if it is a pack. A parameter has a name if an
identifier ends it and another word stands before that. -/
def parameterName? (piece : Text) : Option Text :=
  let trimmed := trimEnd piece
  let name := (trimmed.reverse.takeWhile isWordChar).reverse
  let before := trimEnd (trimmed.take (trimmed.length - name.length))
  let isPack := "...".toList.isSuffixOf before
  let type := if isPack then trimEnd (before.take (before.length - 3)) else before
  let typeWord := (type.reverse.takeWhile isWordChar).reverse
  if name.head?.any isIdentifierStart && typeWord.any isIdentifierStart then
    some (if isPack then name ++ "...".toList else name)
  else none

def parameterNames (parameters : Text) : List Text :=
  (findAll (some1 (· != ',')) (Mask.nestedGroups parameters)).filterMap fun s =>
    parameterName? ((extract parameters s).takeWhile (· != '='))

def templateParameters (e : Entity) : Text :=
  if e.isSpecializedTemplate then
    let masked := Mask.angleBrackets (startingAt e.parsableText (e.offsetWithin e.selection.stop)) true
    match find? ['<'] masked, find? ['>'] masked with
    | some i, some k =>
      let start := e.document.offsetAt e.selection.stop
      between e.document.text (start + i) (start + k + 1)
    | _, _ => []
  else
    match (e.templateStatements true).getLast? with
    | none => []
    | some statement =>
      match find? ['<'] statement with
      | none => []
      | some i =>
        let parameters := between statement (i + 1) (statement.length - 1)
        '<' :: join ", " (parameterNames parameters) ++ ['>']

def templatedNameText (e : Entity) : Text := e.name ++ e.templateParameters

/-- All scopes of the entity: those around it, and those written before its name. -/
def allScopes (e : Entity) : List Text :=
  e.scopes.flatMap (fun s => s.namedScopes ++ [Spacing.normalize s.templatedNameText]) ++ e.namedScopes

def namesSame (a b : Entity) : Bool :=
  a.name == b.name && a.isFunction == b.isFunction && (a.isFunction || a.kind = b.kind)
    && a.allScopes == b.allScopes

end CppScaffold.Entity
