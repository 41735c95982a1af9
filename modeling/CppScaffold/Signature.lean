import CppScaffold.Entity.Traits
import CppScaffold.Parameters

/-!
# Signatures

The return type, parameters and qualifiers of a function, recovered from its text, each with its range.
-/

namespace CppScaffold

open Text Recognizer

structure Signature where
  name : Text
  uri : Text
  isDefinition : Bool
  /-- The range of the head of the function, from the start of the declaration to its end. -/
  range : Range
  parameters : ParameterList
  isConstexpr : Bool
  isConsteval : Bool
  isConst : Bool
  isVolatile : Bool
  /-- The ampersands that restrict the value category of the object; may be empty. -/
  refQualifier : Text
  noexceptText : Text
  returnType : Text
  returnRange : Range
  trailingRange : Range

namespace Signature

def noexceptSpecifier : Recognizer :=
  andThen (word "noexcept") (optional (andThen blanks (emptyPair '(' ')')))

def refQualifierOf (masked : Text) : Text :=
  if occursIn "&&" masked then "&&"
  else if masked.contains '&' then "&"
  else []

structure Qualifiers where
  isConst : Bool
  isVolatile : Bool
  refQualifier : Text

def qualifiersIn (masked : Text) : Qualifiers :=
  ⟨Entity.hasWord ["const"] masked, Entity.hasWord ["volatile"] masked, refQualifierOf masked⟩

/-- The arrow before a trailing return type: its offset and its length with blanks. At least one character must follow.
-/
def arrow? (masked : Text) : Option (Nat × Nat) :=
  match find? "->" masked with
  | none => none
  | some i =>
    let rest := masked.drop (i + 2)
    let gap := (Text.indentation rest).length
    if rest.isEmpty then none
    else some (i, 2 + if gap = rest.length then gap - 1 else gap)

structure Head where
  offset : Nat
  text : Text
  masked : Text
  leftParenthesis : Nat
  rightParenthesis : Nat

def headOf (e : Entity) : Outcome Head :=
  let offset := e.document.offsetAt e.declarationStart
  let text := e.document.getText ⟨e.declarationStart, e.declarationEnd⟩
  let masked := Mask.parentheses (Mask.nonSource text true) true
  let nameStart : Int := (e.document.offsetAt e.selection.start : Int) - offset
  match findAfter? ['('] masked nameStart, findAfter? [')'] masked nameStart with
  | some l, some r => .ok ⟨offset, text, masked, l, r⟩
  | _, _ => .error (.noParameters e.name)

def ofEntity (e : Entity) : Outcome Signature := do
  if !e.isFunction then .error (.signatureOfNonFunction e.name)
  else
    let d := e.document.toTextDocument
    let head ← headOf e
    let first := head.leftParenthesis + 1
    let parameters := ParameterList.parseIn d (head.offset + first) (between head.text first head.rightParenthesis)
    let start := head.offset + head.rightParenthesis + 1
    let trailing := head.text.drop (head.rightParenthesis + 1)
    let masked := head.masked.drop (head.rightParenthesis + 1)
    let noexceptText := match search? noexceptSpecifier masked with
      | some s => extract trailing s
      | none => []
    let make (q : Qualifiers) (returnType : Text) (returnRange : Range) (trailingEnd : Position) : Signature :=
      { name := e.name, uri := e.uri, isDefinition := e.isFunctionDefinition
        range := ⟨e.declarationStart, e.declarationEnd⟩, parameters
        isConstexpr := e.isConstexpr, isConsteval := e.isConsteval
        isConst := q.isConst, isVolatile := q.isVolatile, refQualifier := q.refQualifier
        noexceptText, returnType, returnRange, trailingRange := ⟨d.positionAt start, trailingEnd⟩ }
    if e.isConstructor || e.isDestructor then
      return make ⟨false, false, []⟩ [] e.selection e.declarationEnd
    else match arrow? masked with
      | some (i, length) =>
        let type := Types.trailingReturnType (trailing.drop (i + length))
        let typeStart := start + i + length
        return make (qualifiersIn (masked.take i)) type (d.rangeAt typeStart (typeStart + type.length : Nat))
          (d.positionAt (start + i : Nat))
      | none =>
        let leading := trimEnd (upTo head.text ((d.offsetAt e.scopesStart : Int) - head.offset))
        let type := trimEnd (Types.leadingReturnType leading)
        let typeStart : Int := (head.offset + leading.length : Nat) - (type.length : Int)
        return make (qualifiersIn masked) type (d.rangeAt typeStart (typeStart + type.length)) e.declarationEnd

/-- The return type without regard to spacing, comments and attributes. -/
def normalizedReturnType (s : Signature) : Text := Spacing.normalizeSource s.returnType

/-- The exception specification without regard to spacing, comments and attributes. -/
def normalizedNoexcept (s : Signature) : Text := Spacing.normalizeSource s.noexceptText

def hasTrailingReturnType (s : Signature) : Bool := s.parameters.range.stop < s.returnRange.start

def differences (s t : Signature) : List Text :=
  let aspect (name : String) (differs : Bool) : List Text := if differs then [name.toList] else []
  aspect "return_type" (s.normalizedReturnType != t.normalizedReturnType)
    ++ aspect "parameters" (!s.parameters.typesAreEqual t.parameters)
    ++ aspect "constexpr" (s.isConstexpr != t.isConstexpr)
    ++ aspect "consteval" (s.isConsteval != t.isConsteval)
    ++ aspect "const" (s.isConst != t.isConst)
    ++ aspect "volatile" (s.isVolatile != t.isVolatile)
    ++ aspect "ref_qualifier" (s.refQualifier != t.refQualifier)
    ++ aspect "noexcept" (s.normalizedNoexcept != t.normalizedNoexcept)

def isEqual (s t : Signature) : Bool := (s.differences t).isEmpty

end Signature

end CppScaffold
