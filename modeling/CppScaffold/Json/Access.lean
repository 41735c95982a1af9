import CppScaffold.Error
import CppScaffold.Json.Basic

/-!
# Using values

A value from outside is searched, run through or joined, and refused with a message that names its kind if that cannot
be done.
-/

namespace CppScaffold.Json

open Text

def field (name : String) : Json → Outcome Json
  | .obj fields =>
    match lookup? name.toList fields with
    | some v => .ok v
    | none => .error (.missingField name.toList)
  | .arr _ => .error (.wrongType "list indices must be integers or slices, not str")
  | .str _ | .unpaired _ => .error (.wrongType "string indices must be integers, not 'str'")
  | v => .error (.wrongType ("'" ++ v.kindName ++ "' object is not subscriptable"))

def lacks (operation : String) (v : Json) : Fault :=
  .noOperation ("'" ++ v.kindName ++ "' object has no attribute '" ++ operation.toList ++ ['\''])

def record : Json → Outcome (List (Text × Json))
  | .obj fields => .ok fields
  | v => .error (v.lacks "get")

def textFor (operation : String) : Json → Outcome Text
  | .str t => .ok t
  | .unpaired points => .ok (legible points)
  | v => .error (v.lacks operation)

def textToJoin : Json → Outcome Text
  | .str t => .ok t
  | .unpaired points => .ok (legible points)
  | v => .error (.wrongType ("can only concatenate str (not \"" ++ v.kindName ++ "\") to str"))

def wholeNumber (v : Json) : Outcome Int :=
  match v.wholeNumber? with
  | some i => .ok i
  | none => .error (.wrongType (v.kindName ++ " is no whole number"))

def elements : Json → Outcome (List Json)
  | .arr xs => .ok xs
  | .str s => .ok (s.map fun c => .str [c])
  | .unpaired points => .ok (points.map fun n => ofPoints [n])
  | .obj fs => .ok (fs.map fun (n, _) => .str n)
  | v => .error (.wrongType ("'" ++ v.kindName ++ "' object is not iterable"))

/-- Whether a value lists a text: an array has it as an item, a text as a part, an object as a name. -/
def lists (part : Text) : Json → Outcome Bool
  | .arr xs => .ok (xs.any fun x => x.str? == some part)
  | .str s => .ok (occursIn part s)
  | .unpaired points => .ok (occursIn part (legible points))
  | .obj fs => .ok (fs.any fun (n, _) => n == part)
  | v => .error (.wrongType ("argument of type '" ++ v.kindName ++ "' is not iterable"))

/-- Refuses values that cannot be looked up by their value. -/
def hashable (v : Json) : Outcome Unit :=
  match v with
  | .arr _ | .obj _ => .error (.wrongType ("unhashable type: '" ++ v.kindName ++ ['\'']))
  | _ => .ok ()

mutual

def depth : Json → Nat
  | .arr xs => depthAll xs + 1
  | .obj fs => depthFields fs + 1
  | _ => 0

def depthAll : List Json → Nat
  | [] => 0
  | x :: xs => max (depth x) (depthAll xs)

def depthFields : List (Text × Json) → Nat
  | [] => 0
  | (_, v) :: rest => max (depth v) (depthFields rest)

end

end CppScaffold.Json
