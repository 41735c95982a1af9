import CppScaffold.Workspace

/-!
# Operators

The body of a comparison operator is a short program over the operands of both sides, which is written out as text.
-/

namespace CppScaffold

open Text CodeAction

inductive Operand where
  | base (fragment : Fragment)
  | member (entity : Entity)

namespace Operand

def name : Operand → Text
  | base f => f.name
  | member e => e.name

def range : Operand → Range
  | base f => f.range
  | member e => e.range

/-- The base classes and member variables of a class. -/
def all (c : Entity) : List Operand := c.baseClasses.map .base ++ c.nonStaticMembers.map .member

def unknownNames (c : Entity) (names : List Json) : Outcome Fault := do
  let texts ← names.zipIdx.mapM fun (n, i) =>
    match n with
    | .str t => return t
    | v => .error (.wrongType ("sequence item " ++ ofNat i ++ ": expected str instance, "
        ++ v.kindName ++ " found"))
  return .action (.unknownOperands c.name texts)

/-- The operands of a class that a value lists, or all of them if there is no value. Every element of the value
must be the name of an operand. -/
def select (c : Entity) (names : Option Json) : Outcome (List Operand) := do
  let operands := all c
  match names with
  | none | some .null => return operands
  | some names =>
    let given ← names.elements
    given.forM Json.hashable
    match given.filter fun n => !operands.any fun o => n.str? == some o.name with
    | [] => operands.filterM fun o => names.lists o.name
    | unknown => .error (← unknownNames c unknown)

end Operand

/-! ## Programs of comparison operators -/

namespace Comparison

inductive Object where
  | left
  | right
  deriving DecidableEq, Repr

inductive Term where
  | operand (o : Operand) (of : Object)
  | whole (object : Object)

inductive Condition where
  | equal (a b : Term)
  | less (a b : Term)
  | not (c : Condition)

inductive Statement where
  | returnIf (c : Condition) (value : Bool)
  | answer (c : Condition)
  | answerAll (cs : List Condition)
  | answerConstant (value : Bool)

def equalBody (operands : List Operand) : List Statement :=
  if operands.isEmpty then [.answerConstant true]
  else [.answerAll (operands.map fun o => .equal (.operand o .left) (.operand o .right))]

def lessBody : List Operand → List Statement
  | [] => [.answerConstant false]
  | [o] => [.answer (.less (.operand o .left) (.operand o .right))]
  | o :: rest =>
    .returnIf (.less (.operand o .left) (.operand o .right)) true
      :: .returnIf (.less (.operand o .right) (.operand o .left)) false :: lessBody rest

structure Form where
  isFriend : Bool
  explicitThis : Bool

def Form.object (f : Form) : Object → Text
  | .left => if f.isFriend then "lhs" else "*this"
  | .right => if f.isFriend then "rhs" else "other"

def Form.access (f : Form) : Object → Text
  | .left => if f.isFriend then "lhs." else if f.explicitThis then "this->" else []
  | .right => if f.isFriend then "rhs." else "other."

def baseCast (f : Fragment) : Text := "static_cast<const " ++ f.name ++ " &>"

def Term.render (f : Form) : Term → Text
  | .operand (.base b) side => baseCast b ++ '(' :: f.object side ++ [')']
  | .operand (.member e) side => f.access side ++ e.name
  | .whole side => f.object side

def Condition.render (f : Form) : Condition → Text
  | .equal a b => a.render f ++ " == " ++ b.render f
  | .less a b => a.render f ++ " < " ++ b.render f
  | .not c => "!(" ++ c.render f ++ [')']

def constantText (b : Bool) : Text := if b then "true" else "false"

def Statement.render (f : Form) (eol indent : Text) : Statement → Text
  | .returnIf c value =>
    "if (" ++ c.render f ++ ')' :: eol ++ indent ++ indent ++ "return " ++ constantText value
      ++ ';' :: eol ++ indent
  | .answer c => "return " ++ c.render f ++ [';']
  | .answerAll cs =>
    let alignment := if indent.contains ' ' then "    ".toList else indent
    "return " ++ join (eol ++ indent ++ alignment ++ "&& ") (cs.map (·.render f)) ++ [';']
  | .answerConstant value => "return " ++ constantText value ++ [';']

def renderBody (f : Form) (eol indent : Text) (body : List Statement) : Text :=
  body.flatMap (·.render f eol indent)

end Comparison

/-! ## Operators as member functions -/

structure Operator where
  parent : Entity
  name : Text
  returnType : Text
  isFriend : Bool
  parameters : Text
  body : Text

namespace Operator

/-- The indentation for a body of several lines; a space in it comes first if continuation lines are aligned. -/
def indentationFor (settings : Settings) (operands : List Operand) (aligned : Bool) : Outcome Text := do
  if operands.isEmpty then return []
  else
    if aligned then discard ((← settings.indentation).lists [' '])
    settings.indentationText

def comparison (c : Entity) (settings : Settings) (symbol : String) (indent : Text)
    (body : List Comparison.Statement) : Operator :=
  let form : Comparison.Form := ⟨settings.friendComparison, settings.explicitThis⟩
  let type := "const " ++ c.templatedNameText ++ " &"
  { parent := c
    name := "operator" ++ symbol.toList
    returnType := "bool "
    isFriend := form.isFriend
    parameters := if form.isFriend then type ++ "lhs, " ++ type ++ "rhs" else type ++ "other"
    body := Comparison.renderBody form c.document.eol indent body }

def equality (c : Entity) (settings : Settings) (operands : List Operand) : Outcome (List Operator) := do
  let indent ← indentationFor settings operands true
  return [comparison c settings "==" indent (Comparison.equalBody operands),
    comparison c settings "!=" [] [.answer (.not (.equal (.whole .left) (.whole .right)))]]

def relational (c : Entity) (settings : Settings) (operands : List Operand) : Outcome (List Operator) := do
  let indent ← indentationFor settings operands false
  return [comparison c settings "<" indent (Comparison.lessBody operands),
    comparison c settings ">" [] [.answer (.less (.whole .right) (.whole .left))],
    comparison c settings "<=" [] [.answer (.not (.less (.whole .right) (.whole .left)))],
    comparison c settings ">=" [] [.answer (.not (.less (.whole .left) (.whole .right)))]]

/-- The parts of an output statement; all member variables but a first operand follow a space. -/
def outputParts : Text → List Operand → List Text
  | _, [] => []
  | _, .base f :: rest => ("<< " ++ Comparison.baseCast f ++ "(rhs)") :: outputParts [' '] rest
  | spacer, .member e :: rest =>
    ("<< \"" ++ spacer ++ e.name ++ ": \" << rhs." ++ e.name) :: outputParts [' '] rest

def streamOutput (c : Entity) (settings : Settings) (operands : List Operand) : Outcome Operator := do
  let indent ← indentationFor settings operands true
  let eol := c.document.eol
  let alignment := if indent.contains ' ' then "   ".toList else indent
  let stream := "std::ostream &"
  return {
    parent := c
    name := "operator<<"
    returnType := stream
    isFriend := true
    parameters := stream ++ "os, const " ++ c.templatedNameText ++ " &rhs"
    body := if operands.isEmpty then "return os;" else
      "os " ++ join (eol ++ indent ++ alignment) (outputParts [] operands) ++ ';' :: eol ++ indent
        ++ "return os;" }

def trailing (o : Operator) : Text := if o.isFriend then [] else " const"

def declaration (o : Operator) : Text :=
  (if o.isFriend then "friend ".toList else []) ++ o.returnType ++ o.name ++ '(' :: o.parameters ++ ')' :: o.trailing

/-- The definition of the operator at a position of the target; `separator` stands before the opening
brace. -/
def definition (o : Operator) (target : OpenDocument) (p : Position) (separator : Text) : CodeAction Text := do
  let eol := target.eol
  let sameFile := (← o.parent.document.path) == (← target.path)
  let inside := o.parent.range.containsStrictly p
  let friendSpecifier := if o.isFriend && inside && sameFile then "friend ".toList else []
  let inlineSpecifier := if !inside && sameFile then "inline ".toList else []
  let head := o.parent.combinedTemplateStatements true eol false
  let scopes ← o.parent.scopeString target p (some o.isFriend)
  let indentation ← (← settings).indentationText
  return head ++ friendSpecifier ++ inlineSpecifier ++ o.returnType ++ scopes ++ o.name
    ++ '(' :: o.parameters ++ ')' :: o.trailing ++ separator ++ '{' :: eol ++ indentation ++ o.body ++ eol ++ ['}']

end Operator

end CppScaffold
