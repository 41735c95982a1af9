import CppScaffold.Document.Position
import CppScaffold.Path.Uri

/-!
# Links between declarations and definitions

Of several locations for one symbol the one is taken whose file is closest in its base name.
-/

namespace CppScaffold

open Text

structure Location where
  uri : Text
  range : Range
  deriving DecidableEq, Repr

inductive ReportedLocation where
  | plain (location : Location)
  | link (uri : Text) (target : Range) (selection : Option Range)
  deriving DecidableEq, Repr

namespace Location

def ofReported : ReportedLocation → Location
  | .plain l => l
  | .link uri target _ => ⟨uri, target⟩

def isWithin (l : Location) (uri : Text) (range : Range) : Outcome Bool := do
  let there ← Uri.toPath l.uri
  let here ← Uri.toPath uri
  return there == here && range.encloses l.range

/-- A location found so far, with the difference in length of its base name. -/
abbrev Best := Option (Location × Nat)

/-- Goes through candidates for the symbol in `range` of the document `uri`, whose base name is
`base`. A file of the same base name wins at once. -/
def selectFrom (inWorkspace : Text → Outcome Bool) (uri : Text) (range : Range) (base : Text) :
    Best → List Location → Outcome (Option Location)
  | best, [] => .ok (best.map (·.1))
  | best, l :: rest => do
    let skip ← if !(← inWorkspace l.uri) then pure true else l.isWithin uri range
    if skip then selectFrom inWorkspace uri range base best rest
    else
      let other := Path.baseName (← Uri.toPath l.uri)
      if other == base then return some l
      else if occursIn other base || occursIn base other then
        let difference := (other.length - base.length) + (base.length - other.length)
        let better := match best with
          | none => true
          | some (_, d) => difference < d
        selectFrom inWorkspace uri range base (if better then some (l, difference) else best) rest
      else selectFrom inWorkspace uri range base best rest

/-- The candidate most likely to be the counterpart of the symbol in `range` of the document `uri`. A
single candidate is taken as it is. -/
def mostLikely (inWorkspace : Text → Outcome Bool) (uri : Text) (range : Range) (candidates : List Location) :
    Outcome (Option Location) :=
  match candidates with
  | [] => .ok none
  | [l] => .ok (some l)
  | ls => do
    let base := Path.baseName (← Uri.toPath uri)
    selectFrom inWorkspace uri range base none ls

/-- The candidate most likely to be the counterpart of a symbol, unless it is the symbol itself. -/
def linked (inWorkspace : Text → Outcome Bool) (uri : Text) (range : Range) (candidates : List Location) :
    Outcome (Option Location) := do
  match ← mostLikely inWorkspace uri range candidates with
  | none => return none
  | some l => if ← l.isWithin uri range then return none else return some l

end Location

end CppScaffold
