import CppScaffold.Document.Edit
import CppScaffold.Placement.Search

/-!
# Adding guards and includes
-/

namespace CppScaffold.CodeAction

open Text Recognizer

def guardOpening (style : GuardStyle) (name eol : Text) : Text :=
  let pragma := "#pragma once" ++ eol
  let define := "#ifndef " ++ name ++ eol ++ "#define " ++ name ++ eol
  match style with
  | .pragmaOnce => pragma
  | .define => define
  | .both => pragma ++ define

def endsLine (t : Text) : Bool := isAllBlank t || t.getLast?.any isBreak

def addHeaderGuard (uri : Text) : CodeAction WorkspaceEdit := do
  let d ← openDocument uri
  let s ← settings
  if !(← isHeader d.toTextDocument) then refuse .notAHeader
  if (← d.afterGuard? s).isSome then refuse .guardExists
  let eol := d.eol
  let name ← d.guardName s
  let opening := guardOpening s.guardStyle name eol
  let place := d.afterHeaderComment
  let opening := if place.after then eol ++ eol ++ opening else if place.before then opening ++ eol else opening
  let edit := WorkspaceEdit.insert {} uri place.position opening
  if s.guardStyle = .pragmaOnce then return edit
  else
    let closing := "#endif // " ++ name ++ eol
    let gap := if endsLine d.text then eol else eol ++ eol
    return edit.insert uri d.endPosition (gap ++ closing)

def includeStart : Recognizer := seq [char (· == '#'), blanks, exactly "include", blanks]

def includedFile? (directive : Text) : Option Text := do
  let n ← matchStart? includeStart directive
  let file := directive.drop n
  let delimited (left right : Char) : Bool := file.head? == some left && file.getLast? == some right
  if (delimited '<' '>' || delimited '"' '"') && file.length ≥ 3 && !file.contains '\n' then some file else none

def addInclude (uri : Text) (written : Json) : CodeAction WorkspaceEdit := do
  let d ← openDocument uri
  let given := trim (← written.textFor "strip")
  let directive := if given.head? == some '#' then given else "#include " ++ given
  match includedFile? directive with
  | none => refuse .notAnInclude
  | some file =>
    if d.includedFiles.contains file.tail.dropLast then refuse (.alreadyIncluded file)
    let kind := if file.head? == some '<' then .system else .project
    let p ← d.placeForInclude (← settings) kind
    return WorkspaceEdit.insert {} uri p (directive ++ d.eol)

end CppScaffold.CodeAction
