import CppScaffold.Generate.Operator
import CppScaffold.Proofs.Declarators
import Mathlib.Data.List.SplitBy
import Mathlib.Order.Lattice

/-!
# Bodies of operators as programs

The body of a comparison operator is read and executed with no regard to how it was written. One that cannot be read,
or compares what has no common order, has no meaning (`none`).
-/

namespace CppScaffold

open Text List

def Operand.isBase : Operand → Bool
  | .base _ => true
  | .member _ => false

namespace Program

/-! ## Tokens -/

inductive Token where
  | name (word : Text)
  | this
  | staticCast
  | constKeyword
  | returnKeyword
  | ifKeyword
  | constant (value : Bool)
  | dot
  | arrow
  | less
  | greater
  | equal
  | and
  | ampersand
  | not
  | star
  | left
  | right
  | semicolon
  /-- A mark that means nothing in a body. -/
  | mark (text : Text)
  deriving DecidableEq, Repr

/-- The keywords and marks that have a meaning of their own. -/
def vocabulary : List (Text × Token) :=
  [("this", .this), ("static_cast", .staticCast), ("const", .constKeyword), ("return", .returnKeyword),
    ("if", .ifKeyword), ("true", .constant true), ("false", .constant false), (".", .dot), ("->", .arrow), ("<", .less),
    (">", .greater), ("==", .equal), ("&&", .and), ("&", .ampersand), ("!", .not), ("*", .star), ("(", .left),
    (")", .right), (";", .semicolon)]

def Token.ofText (t : Text) : Token :=
  (vocabulary.lookup t).getD (if t.all isWordChar then .name t else .mark t)

/-- Whether two neighbours belong to one token. -/
def joined (a b : Char) : Bool :=
  (isWordChar a && isWordChar b) || [('=', '='), ('&', '&'), ('-', '>')].contains (a, b)

def tokens (t : Text) : List Token := ((t.splitBy joined).filter (!isAllBlank ·)).map .ofText

structure IsIdentifier (t : Text) : Prop where
  ne_nil : t ≠ []
  word : ∀ c ∈ t, isWordChar c
  reserved : vocabulary.lookup t = none

/-- Characters that belong to no token with a neighbour. -/
def alone (c : Char) : Bool := isBlank c || ['(', ')', ';', '.', '*', '!'].contains c

variable {c : Char} {x y t : Text}

lemma joined_of_alone (h : alone c) (d : Char) : joined c d = false ∧ joined d c = false := by
  have hword : isWordChar c = false := by
    rw [alone, Bool.or_eq_true] at h
    rcases h with h | h
    · exact isWordChar_of_isBlank h
    · simp only [contains_iff_mem, mem_cons, not_mem_nil, or_false] at h
      rcases h with rfl | rfl | rfl | rfl | rfl | rfl
      all_goals decide
  have hne : c ≠ '=' ∧ c ≠ '&' ∧ c ≠ '-' ∧ c ≠ '>' := by
    refine ⟨?_, ?_, ?_, ?_⟩
    all_goals
      rintro rfl
      exact absurd h (by decide)
  simp [joined, hword, hne]

lemma tokens_append (h : ∀ a ∈ x.getLast?, ∀ b ∈ y.head?, joined a b = false) :
    tokens (x ++ y) = tokens x ++ tokens y := by
  rw [tokens, splitBy_append h, filter_append, map_append]
  rfl

lemma tokens_append_left (h : y.head?.all alone) : tokens (x ++ y) = tokens x ++ tokens y := by
  refine tokens_append fun a _ b hb => ?_
  rw [Option.mem_def.mp hb] at h
  exact (joined_of_alone h a).2

lemma tokens_append_right (h : x.getLast?.all alone) : tokens (x ++ y) = tokens x ++ tokens y := by
  refine tokens_append fun a ha b _ => ?_
  rw [Option.mem_def.mp ha] at h
  exact (joined_of_alone h b).1

lemma tokens_cons (h : alone c) (t : Text) : tokens (c :: t) = tokens [c] ++ tokens t :=
  tokens_append_right (x := [c]) h

lemma tokens_append_cons (h : alone c) : tokens (x ++ c :: t) = tokens x ++ (tokens [c] ++ tokens t) := by
  rw [tokens_append_left (y := c :: t) h, tokens_cons h]

lemma tokens_around {s : Text} (hhead : s.head?.all alone) (hlast : s.getLast?.all alone) (hs : s ≠ []) :
    tokens (x ++ s ++ y) = tokens x ++ (tokens s ++ tokens y) := by
  rw [append_assoc, tokens_append_left, tokens_append_right hlast]
  rwa [head?_append_of_ne_nil _ hs]

lemma alone_of_isAllBlank (h : isAllBlank t) : t.head?.all alone ∧ t.getLast?.all alone := by
  have halone : ∀ c ∈ t, alone c := by
    intro c hc
    rw [alone, all_eq_true.mp h c hc, Bool.true_or]
  exact ⟨(Option.all_eq_true _ _).mpr fun c hc => halone c (mem_of_mem_head? hc),
    (Option.all_eq_true _ _).mpr fun c hc => halone c (mem_of_mem_getLast? hc)⟩

lemma tokens_of_isAllBlank (h : isAllBlank t) : tokens t = [] := by
  rw [tokens, map_eq_nil_iff, filter_eq_nil_iff]
  intro w hw
  have hsub : ∀ c ∈ w, c ∈ t := fun c hc => by
    rw [← flatten_splitBy joined t]
    exact mem_flatten.mpr ⟨w, hw, hc⟩
  simpa [isAllBlank] using fun c hc => all_eq_true.mp h c (hsub c hc)

lemma tokens_identifier (h : IsIdentifier t) : tokens t = [.name t] := by
  have hchain : t.IsChain fun a b => joined a b := by
    refine List.Pairwise.isChain (List.Pairwise.imp_of_mem (R := fun _ _ => True) ?_ (pairwise_of_forall (by simp)))
    intro a b ha hb _
    simp [joined, h.word a ha, h.word b hb]
  have hvisible : isAllBlank t = false := by
    obtain ⟨c, rest, rfl⟩ := exists_cons_of_ne_nil h.ne_nil
    simp [isAllBlank, isBlank_of_isWordChar (h.word c (mem_cons_self ..))]
  rw [tokens, splitBy_of_isChain h.ne_nil hchain]
  simp [hvisible, Token.ofText, h.reserved, all_eq_true.mpr h.word]

/-! ## Reading -/

inductive Expression where
  | name (word : Text)
  | this
  | member (object : Expression) (word : Text)
  | cast (type : Text) (object : Expression)
  | equal (a b : Expression)
  | less (a b : Expression)
  | not (a : Expression)
  | and (a b : Expression)
  | constant (value : Bool)

inductive Statement where
  /-- Returns the value if the condition holds. -/
  | guarded (condition value : Expression)
  | answer (value : Expression)

def object : List Token → Option (Expression × List Token)
  | .name w :: rest => some (.name w, rest)
  | .star :: .this :: rest => some (.this, rest)
  | _ => none

/-- Reads an object, a member of one, or an object cast to a base class. -/
def term : List Token → Option (Expression × List Token)
  | .this :: .arrow :: .name w :: rest => some (.member .this w, rest)
  | .name v :: .dot :: .name w :: rest => some (.member (.name v) w, rest)
  | .staticCast :: .less :: .constKeyword :: .name w :: .ampersand :: .greater :: .left :: rest =>
    match object rest with
    | some (e, .right :: rest) => some (.cast w e, rest)
    | _ => none
  | rest => object rest

/-- Reads a comparison of two terms. -/
def comparison (ts : List Token) : Option (Expression × List Token) :=
  match term ts with
  | some (a, .equal :: rest) => (term rest).map fun r => (.equal a r.1, r.2)
  | some (a, .less :: rest) => (term rest).map fun r => (.less a r.1, r.2)
  | _ => none

/-- Reads a comparison, a negated one or a truth value. -/
def condition (ts : List Token) : Option (Expression × List Token) :=
  (comparison ts).or <| match ts with
    | .constant value :: rest => some (.constant value, rest)
    | .not :: .left :: rest =>
      match comparison rest with
      | some (e, .right :: rest) => some (.not e, rest)
      | _ => none
    | _ => none

/-- Reads conditions that all have to hold, at most the given number of them. -/
def conjunction : Nat → List Token → Option (Expression × List Token)
  | 0, _ => none
  | n + 1, ts =>
    match condition ts with
    | some (a, .and :: rest) => (conjunction n rest).map fun r => (.and a r.1, r.2)
    | result => result

def returned (n : Nat) : List Token → Option (Expression × List Token)
  | .returnKeyword :: rest =>
    match conjunction n rest with
    | some (e, .semicolon :: rest) => some (e, rest)
    | _ => none
  | _ => none

/-- Reads statements to the end, at most the given number of them. -/
def statements : Nat → List Token → Option (List Statement)
  | _, [] => some []
  | 0, _ => none
  | n + 1, .ifKeyword :: .left :: rest =>
    match comparison rest with
    | some (c, .right :: rest) =>
      match returned (n + 1) rest with
      | some (e, rest) => (statements n rest).map (.guarded c e :: ·)
      | none => none
    | _ => none
  | n + 1, ts =>
    match returned (n + 1) ts with
    | some (e, rest) => (statements n rest).map (.answer e :: ·)
    | none => none

def read (t : Text) : Option (List Statement) := statements (tokens t).length (tokens t)

section

variable {n : Nat} {w : Text} {a b e : Expression} {later : List Statement} {ts more rest : List Token}

lemma term_name (w : Text) (h : rest.head? ≠ some .dot) : term (.name w :: rest) = some (.name w, rest) := by
  cases rest with
  | nil => rfl
  | cons t rest =>
    cases t with
    | dot => exact absurd rfl h
    | _ => rfl

lemma term_cast (h : object ts = some (e, .right :: rest)) :
    term (.staticCast :: .less :: .constKeyword :: .name w :: .ampersand :: .greater :: .left :: ts) =
      some (.cast w e, rest) := by
  rw [term, h]

lemma comparison_equal (ha : term ts = some (a, .equal :: more)) (hb : term more = some (b, rest)) :
    comparison ts = some (.equal a b, rest) := by
  rw [comparison, ha]
  dsimp only
  rw [hb]
  rfl

lemma comparison_less (ha : term ts = some (a, .less :: more)) (hb : term more = some (b, rest)) :
    comparison ts = some (.less a b, rest) := by
  rw [comparison, ha]
  dsimp only
  rw [hb]
  rfl

lemma condition_of_comparison (h : comparison ts = some (e, rest)) : condition ts = some (e, rest) := by
  unfold condition
  rw [h, Option.some_or]

lemma condition_not (h : comparison ts = some (e, .right :: rest)) :
    condition (.not :: .left :: ts) = some (.not e, rest) := by
  have hnone : comparison (.not :: .left :: ts) = none := rfl
  rw [condition, h]
  rfl

lemma conjunction_last (h : condition ts = some (a, rest)) (hand : rest.head? ≠ some .and) :
    conjunction (n + 1) ts = some (a, rest) := by
  rw [conjunction, h]
  cases rest with
  | nil => rfl
  | cons t rest =>
    cases t with
    | and => exact absurd rfl hand
    | _ => rfl

lemma conjunction_and (ha : condition ts = some (a, .and :: more)) (hb : conjunction n more = some (b, rest)) :
    conjunction (n + 1) ts = some (.and a b, rest) := by
  rw [conjunction, ha]
  dsimp only
  rw [hb]
  rfl

lemma returned_of_conjunction (h : conjunction n ts = some (e, .semicolon :: rest)) :
    returned n (.returnKeyword :: ts) = some (e, rest) := by
  rw [returned, h]

lemma statements_guarded (hc : comparison ts = some (a, .right :: more)) (he : returned (n + 1) more = some (e, rest))
    (hlater : statements n rest = some later) :
    statements (n + 1) (.ifKeyword :: .left :: ts) = some (.guarded a e :: later) := by
  rw [statements, hc]
  dsimp only
  rw [he]
  dsimp only
  rw [hlater]
  rfl

lemma statements_answer (h : conjunction (n + 1) ts = some (e, .semicolon :: rest))
    (hlater : statements n rest = some later) :
    statements (n + 1) (.returnKeyword :: ts) = some (.answer e :: later) := by
  rw [statements, returned_of_conjunction h]
  · dsimp only
    rw [hlater]
    rfl
  · simp
  · simp

end

/-! ## Executing -/

/-- What the parts of a class mean: every part has values in an order of its own. -/
structure Interpretation (layout : List Operand) where
  Object : Type
  Value : Fin layout.length → Type
  order : ∀ i, LinearOrder (Value i)
  part : ∀ i, Object → Value i

attribute [instance] Interpretation.order

/-- Whether a value of a part comes before another one. -/
def Interpretation.precedes {layout : List Operand} (m : Interpretation layout) (i : Fin layout.length)
    (u v : m.Value i) : Bool :=
  @decide (u < v) ((m.order i).toDecidableLT u v)

/-- The only part of a class with a property. -/
def onlyPart (layout : List Operand) (p : Operand → Bool) : Option (Fin layout.length) :=
  match (List.finRange layout.length).filter fun i => p (layout.get i) with
  | [i] => some i
  | _ => none

def memberNamed (layout : List Operand) (w : Text) : Option (Fin layout.length) :=
  onlyPart layout fun o => !o.isBase && o.name == w

/-- The base class with a name, which a member variable with this name would hide. -/
def baseNamed (layout : List Operand) (w : Text) : Option (Fin layout.length) :=
  (onlyPart layout fun o => o.name == w).filter fun i => (layout.get i).isBase

variable {layout : List Operand}

/-- What the names in a body stand for: the object of a member function, and the parameters. -/
structure Frame (Object : Type) where
  own : Option Object
  parameters : List (Text × Object)

/-- How whole objects compare. -/
structure Calls (Object : Type) where
  equal : Object → Object → Option Bool
  less : Object → Object → Option Bool

inductive Datum (m : Interpretation layout) where
  | object (x : m.Object)
  | part (i : Fin layout.length) (value : m.Value i)
  | truth (value : Bool)

variable {m : Interpretation layout}

def Datum.compare (onValues : ∀ i, m.Value i → m.Value i → Bool) (onObjects : m.Object → m.Object → Option Bool) :
    Datum m → Datum m → Option Bool
  | .part i u, .part j v => if h : j = i then some (onValues i u (h ▸ v)) else none
  | .object x, .object y => onObjects x y
  | _, _ => none

def Datum.truth? : Datum m → Option Bool
  | .truth b => some b
  | _ => none

def Datum.object? : Datum m → Option m.Object
  | .object x => some x
  | _ => none

def partOf (m : Interpretation layout) (x : m.Object) (i : Option (Fin layout.length)) : Option (Datum m) :=
  i.map fun i => .part i (m.part i x)

/-- The value of an expression. Parameters hide members and base classes of the same name. -/
def Expression.eval (m : Interpretation layout) (calls : Calls m.Object) (f : Frame m.Object) :
    Expression → Option (Datum m)
  | .name w =>
    match f.parameters.lookup w with
    | some x => some (.object x)
    | none => f.own.bind fun x => partOf m x (memberNamed layout w)
  | .this => f.own.map .object
  | .member e w => ((e.eval m calls f).bind Datum.object?).bind fun x => partOf m x (memberNamed layout w)
  | .cast w e =>
    if (f.parameters.lookup w).isSome then none
    else ((e.eval m calls f).bind Datum.object?).bind fun x => partOf m x (baseNamed layout w)
  | .equal a b => do
    let u ← a.eval m calls f
    let v ← b.eval m calls f
    return .truth (← u.compare (fun _ u v => decide (u = v)) calls.equal v)
  | .less a b => do
    let u ← a.eval m calls f
    let v ← b.eval m calls f
    return .truth (← u.compare m.precedes calls.less v)
  | .not a => ((a.eval m calls f).bind Datum.truth?).map fun b => .truth !b
  | .and a b => do
    let u ← (a.eval m calls f).bind Datum.truth?
    let v ← (b.eval m calls f).bind Datum.truth?
    return .truth (u && v)
  | .constant value => some (.truth value)

section

variable {calls : Calls m.Object} {f : Frame m.Object} {w : Text} {e : Expression} {x : m.Object}

lemma eval_parameter (h : f.parameters.lookup w = some x) : (Expression.name w).eval m calls f = some (.object x) := by
  rw [Expression.eval, h]

lemma eval_member (h : e.eval m calls f = some (.object x)) :
    (Expression.member e w).eval m calls f = partOf m x (memberNamed layout w) := by
  rw [Expression.eval, h]
  rfl

lemma eval_cast (h : e.eval m calls f = some (.object x)) : (Expression.cast w e).eval m calls f =
    if (f.parameters.lookup w).isSome then none else partOf m x (baseNamed layout w) := by
  rw [Expression.eval, h]
  rfl

end

def Expression.holds (m : Interpretation layout) (calls : Calls m.Object) (f : Frame m.Object) (e : Expression) :
    Option Bool :=
  (e.eval m calls f).bind Datum.truth?

/-- What a body returns. All of it has to have a meaning, also what is not reached. -/
def execute (m : Interpretation layout) (calls : Calls m.Object) (f : Frame m.Object) : List Statement → Option Bool
  | [] => none
  | .guarded c e :: rest => do
    let holds ← c.holds m calls f
    let value ← e.holds m calls f
    let later ← execute m calls f rest
    return if holds then value else later
  | .answer e :: _ => e.holds m calls f

/-- The name at the end of a parameter. -/
def lastName? (parameter : List Token) : Option Text :=
  match parameter.getLast? with
  | some (.name w) => some w
  | _ => none

/-- The frame of a comparison, by its parameters: a member function has the right object as its parameter, a friend has
both, which are of one type and have a comma between them. -/
def frame? {Object : Type} (isFriend : Bool) (parameters : List Token) (x y : Object) : Option (Frame Object) :=
  if isFriend then
    let first := parameters.take (parameters.length / 2)
    let second := parameters.drop (parameters.length / 2)
    if second.dropLast = .mark "," :: first.dropLast then
      return ⟨none, [(← lastName? first, x), (← lastName? second, y)]⟩
    else none
  else return ⟨some x, [(← lastName? parameters, y)]⟩

lemma lastName?_append (ts : List Token) (w : Text) : lastName? (ts ++ [.ampersand, .name w]) = some w := by
  simp [lastName?]

lemma frame?_member {α : Type} (ts : List Token) (w : Text) (x y : α) :
    frame? false (ts ++ [.ampersand, .name w]) x y = some ⟨some x, [(w, y)]⟩ := by
  rw [frame?, lastName?_append]
  rfl

lemma frame?_friend {α : Type} (ts : List Token) (v w : Text) (x y : α) :
    frame? true (ts ++ ([.ampersand, .name v, .mark ","] ++ (ts ++ [.ampersand, .name w]))) x y =
      some ⟨none, [(v, x), (w, y)]⟩ := by
  have hshape : ts ++ ([.ampersand, .name v, .mark ","] ++ (ts ++ [.ampersand, .name w])) =
      (ts ++ [.ampersand, .name v]) ++ ((.mark "," :: ts) ++ [.ampersand, .name w]) := by simp
  have hhalf : (ts ++ [Token.ampersand, .name v] ++ (.mark "," :: ts ++ [Token.ampersand, .name w])).length / 2 =
      (ts ++ [Token.ampersand, .name v]).length := by
    simp only [length_append, length_cons, length_nil]
    omega
  have htypes : (.mark "," :: ts ++ [Token.ampersand, .name w]).dropLast =
      .mark "," :: (ts ++ [Token.ampersand, .name v]).dropLast := by
    rw [dropLast_append_of_ne_nil (by simp), dropLast_append_of_ne_nil (by simp)]
    rfl
  simp only [frame?, if_true, hshape, hhalf, take_left, drop_left, htypes, lastName?_append]
  rfl

/-- What an operator answers for two objects, if calls are nested no deeper than the given number. -/
def call (m : Interpretation layout) (operators : List Operator) : Nat → String → m.Object → m.Object → Option Bool
  | 0, _, _, _ => none
  | n + 1, symbol, x, y => do
    let o ← operators.find? fun o => o.name == "operator" ++ symbol.toList
    let frame ← frame? o.isFriend (tokens o.parameters) x y
    let body ← read o.body
    execute m ⟨call m operators n "==", call m operators n "<"⟩ frame body

end Program

end CppScaffold
