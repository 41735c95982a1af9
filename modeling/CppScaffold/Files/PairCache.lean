import CppScaffold.Text.Basic

/-!
# Known pairs of files

Which header and source files belong together, remembered in both directions.
-/

namespace CppScaffold

structure PairCache where
  pairs : List (Text × Text) := []

namespace PairCache

def size (c : PairCache) : Nat := c.pairs.length

def partner? (c : PairCache) (path : Text) : Option Text := c.pairs.lookup path

def enter (pairs : List (Text × Text)) (path partner : Text) : List (Text × Text) :=
  if pairs.any (·.1 == path) then pairs.map fun (p, q) => (p, if p == path then partner else q)
  else pairs ++ [(path, partner)]

def insert (c : PairCache) (a b : Text) : PairCache := ⟨enter (enter c.pairs a b) b a⟩

def erase (c : PairCache) (paths : List Text) : PairCache :=
  ⟨c.pairs.filter fun (p, _) => !paths.contains p⟩

/-- The partner of a file if that exists; otherwise both are forgotten. -/
def get (c : PairCache) (present : Text → Bool) (path : Text) : Option Text × PairCache :=
  match c.partner? path with
  | none => (none, c)
  | some q => if present q then (some q, c) else (none, c.erase [path, q])

end PairCache

end CppScaffold
