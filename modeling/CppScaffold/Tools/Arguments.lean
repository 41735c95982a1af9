import CppScaffold.Document.Position
import CppScaffold.Json.Access

/-!
# The arguments of a tool call

Arguments come as a JSON object. Their values are taken as leniently as they can be: a position may be
given by numbers with a fraction or by texts, and any value can be a switch.
-/

namespace CppScaffold

open Text

structure Arguments where
  fields : List (Text × Json)

namespace Json

def shownLimit : Nat := 200

/-- The whole number that a value denotes: a number without its fraction, or what a text says. -/
def toWhole (v : Json) : Outcome Int :=
  match v with
  | .int i => .ok i
  | .bool b => .ok (if b then 1 else 0)
  | .real x =>
    match x, x.truncate? with
    | _, some i => .ok i
    | .nan, none => .error .nanToInteger
    | _, none => .error .infinityToInteger
  | .str t =>
    match readInt t with
    | .ok i => .ok i
    | .error .malformed => .error (.notANumber ((quoted t).take shownLimit))
    | .error (.tooLong digits) => .error (.numberTooLong digits)
  | v => .error (.wrongType
      ("int() argument must be a string, a bytes-like object or a real number, not '" ++ v.kindName ++ ['\'']))

end Json

namespace Arguments

def value? (a : Arguments) (name : String) : Option Json := Json.lookup? name.toList a.fields

def required (a : Arguments) (name : String) : Outcome Json :=
  match a.value? name with
  | some v => .ok v
  | none => .error (.missingField name.toList)

def switch (a : Arguments) (name : String) : Bool := (a.value? name).any Json.isTruthy

def textOr (a : Arguments) (name default : String) : Text := ((a.value? name).map Json.spoken).getD default.toList

def position (a : Arguments) : Outcome Position := do
  let line ← (← a.required "line").toWhole
  let character ← (← a.required "character").toWhole
  return ⟨line, character⟩

end Arguments

end CppScaffold
