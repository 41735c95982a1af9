import CppScaffold.Lexical.Spacing

/-!
# Bare names

The bare names of `Foo::bar(int) const` and `Foo<T>` are `bar` and `Foo`. An operator function keeps the operator.
-/

namespace CppScaffold.SymbolName

open Text Recognizer

/-- Accepts the name of an operator function: `operator` with a pair of parentheses or brackets, `new` or `delete`, or
anything up to a blank or parenthesis; blanks will do before a parenthesis that opens no empty pair. -/
def operatorName : Recognizer := fun prev t =>
  match word "operator" prev t with
  | none => none
  | some n =>
    let rest := t.drop n
    let gap := (indentation rest).length
    let symbol := rest.drop gap
    let allocation := seq [firstOf [exactly "new", exactly "delete"], blanks,
      optional (emptyPair '[' ']')]
    let direct := firstOf [emptyPair '(' ')', emptyPair '[' ']', allocation,
      some1 fun c => !isBlank c && c != '('] none symbol
    match direct with
    | some m => some (n + gap + m)
    | none => if gap > 0 then some (n + gap) else none

/-- The part of a name before trailing angle brackets, read from the reverse `name`; `depth` counts open groups. -/
def dropArguments (depth : Int) : Text → Option Text
  | [] => none
  | '>' :: rest => dropArguments (depth + 1) rest
  | '<' :: rest => if depth = 1 then some rest.reverse else dropArguments (depth - 1) rest
  | _ :: rest => dropArguments depth rest

def withoutArguments (name : Text) : Text :=
  match dropArguments 0 name.reverse with
  | some head => trimEnd head
  | none => name

def strip (reported : Text) : Text :=
  let name := trim reported
  match search? operatorName name with
  | some s => trim (Spacing.collapse (extract name s))
  | none =>
    let name := match find? ['('] name with
      | some i => trimEnd (name.take i)
      | none => name
    let name := if ['>'].isSuffixOf name then withoutArguments name else name
    let name := match findLast? [':', ':'] name with
      | some i => name.drop (i + 2)
      | none => name
    trim name

end CppScaffold.SymbolName
