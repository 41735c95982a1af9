/-!
# Positions and ranges

Lines and characters are counted from zero. The numbers come from outside and may be negative or point beyond the
document.
-/

namespace CppScaffold

structure Position where
  line : Int
  character : Int
  deriving DecidableEq, Repr, Inhabited

namespace Position

protected def lt (p q : Position) : Prop :=
  p.line < q.line ∨ (p.line = q.line ∧ p.character < q.character)

protected def le (p q : Position) : Prop :=
  p.line < q.line ∨ (p.line = q.line ∧ p.character ≤ q.character)

instance : LT Position := ⟨Position.lt⟩
instance : LE Position := ⟨Position.le⟩

instance (p q : Position) : Decidable (p < q) :=
  inferInstanceAs (Decidable (p.line < q.line ∨ (p.line = q.line ∧ p.character < q.character)))

instance (p q : Position) : Decidable (p ≤ q) :=
  inferInstanceAs (Decidable (p.line < q.line ∨ (p.line = q.line ∧ p.character ≤ q.character)))

def zero : Position := ⟨0, 0⟩

def shift (p : Position) (lines characters : Int) : Position :=
  ⟨p.line + lines, p.character + characters⟩

protected def min (p q : Position) : Position := if q < p then q else p

protected def max (p q : Position) : Position := if p < q then q else p

end Position

structure Range where
  start : Position
  stop : Position
  deriving DecidableEq, Repr, Inhabited

namespace Range

def isEmpty (r : Range) : Bool := r.start = r.stop

def contains (r : Range) (p : Position) : Bool := r.start ≤ p && p ≤ r.stop

def containsStrictly (r : Range) (p : Position) : Bool := r.start < p && p < r.stop

def encloses (r s : Range) : Bool := r.start ≤ s.start && s.stop ≤ r.stop

def union (r s : Range) : Range := ⟨r.start.min s.start, r.stop.max s.stop⟩

def listedBefore (r s : Range) : Bool :=
  r.stop < s.stop || (r.stop = s.stop && r.start ≤ s.start)

end Range

end CppScaffold
