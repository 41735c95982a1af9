import CppScaffold.Entity.Basic
import CppScaffold.Text.Case

/-!
# Traits of entities

What the text of an entity says of it: whether it is declared or defined, its specifiers, and whether it is a template.
-/

namespace CppScaffold.Entity

open Text Recognizer

def hasWord (words : List String) (t : Text) : Bool := hasMatch (anyWord (words.map String.toList)) t

def maskedLeadingText (e : Entity) : Text := Mask.angleBrackets e.parsableLeadingText true

def endsWithBody (e : Entity) : Bool :=
  (trimEnd (dropEndWhile (· == ';') (trimEnd e.parsableText))).getLast? == some '}'

def isCalledDeclaration (e : Entity) : Bool := occursIn "declaration" (toLower e.symbol.detail)

def isFriend (e : Entity) : Bool := hasWord ["friend"] e.parsableLeadingText

def isVirtual (e : Entity) : Bool := hasWord ["virtual", "override", "final"] e.parsableLeadingText

/-- Accepts an equals sign, one of the given texts and the end of the statement. -/
def assignedAtEnd (values : List String) : Recognizer :=
  seq [char (· == '='), blanks, firstOf (values.map fun v => exactly v.toList), blanks,
    optional (char (· == ';')), atEnd]

def isPureVirtual (e : Entity) : Bool :=
  e.isVirtual && hasMatch (assignedAtEnd ["0"]) (trimEnd e.parsableText)

def isDeletedOrDefaulted (e : Entity) : Bool :=
  hasMatch (assignedAtEnd ["delete", "default"]) (trimEnd e.parsableText)

def isFunctionDeclaration (e : Entity) : Bool :=
  e.isFunction && !e.isDeletedOrDefaulted && !e.isPureVirtual
    && (e.isCalledDeclaration || !e.endsWithBody)

def isFunctionDefinition (e : Entity) : Bool :=
  e.isFunction && !e.isCalledDeclaration && e.endsWithBody

def isConstexpr (e : Entity) : Bool := hasWord ["constexpr"] e.parsableLeadingText

def isConsteval (e : Entity) : Bool := hasWord ["consteval"] e.parsableLeadingText

def isInline (e : Entity) : Bool := hasWord ["inline"] e.parsableLeadingText

def isStatic (e : Entity) : Bool := hasWord ["static"] e.parsableLeadingText

def isPointer (e : Entity) : Bool := e.maskedLeadingText.contains '*'

def isReference (e : Entity) : Bool := e.maskedLeadingText.contains '&'

def isConst (e : Entity) : Bool := hasWord ["const"] e.maskedLeadingText

def isTemplate (e : Entity) : Bool :=
  (matchStart? (andThen (exactly "template") boundary) e.parsableFullText).isSome

def templateWithParameters : Recognizer :=
  seq [boundary, exactly "template", blanks, char (· == '<'), blanks,
    char fun c => !isBlank c && c != '>']

def isUnspecializedTemplate (e : Entity) : Bool := hasMatch templateWithParameters e.parsableFullLeadingText

def isSpecializedTemplate (e : Entity) : Bool := e.isTemplate && !e.isUnspecializedTemplate

def hasUnspecializedTemplate (e : Entity) : Bool :=
  e.scopes.any isUnspecializedTemplate || e.isUnspecializedTemplate

def mightBeTypeAlias (e : Entity) : Bool := !e.isFunction && !e.isNamespace && !e.isMemberVariable

def isTypedef (e : Entity) : Bool := e.mightBeTypeAlias && hasWord ["typedef"] e.parsableText

def isTypeAlias (e : Entity) : Bool :=
  e.mightBeTypeAlias && hasWord ["using"] e.parsableText && e.parsableText.contains '='

def isPrimitive (e : Entity) : Bool :=
  if e.isVariable then Types.isPrimitive e.parsableLeadingText
  else if e.isTypedef || e.isTypeAlias then Types.isPrimitive e.parsableText
  else false

def requiresVisibleDefinition (e : Entity) : Bool :=
  e.isInline || e.isConstexpr || e.isConsteval || e.hasUnspecializedTemplate

end CppScaffold.Entity
