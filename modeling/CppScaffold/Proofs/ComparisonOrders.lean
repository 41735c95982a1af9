import CppScaffold.Proofs.Actions
import CppScaffold.Proofs.ComparisonReading
import Mathlib.Data.List.FinRange
import Mathlib.Data.List.Perm.Basic

/-!
# Comparison operators as orders

The printed comparison operators compare the chosen parts of two objects lexicographically if and only if each part is
denoted by its name: no other has it, and no parameter hides it.
-/

namespace CppScaffold

open Text List Operand

namespace Program

variable {layout : List Operand} {i : Fin layout.length}

/-! ## Looking up parts -/

lemma onlyPart_eq_some_iff {p : Operand → Bool} :
    onlyPart layout p = some i ↔ p (layout.get i) ∧ ∀ j, p (layout.get j) → j = i := by
  have hmem : ∀ j, j ∈ (finRange layout.length).filter (fun i => p (layout.get i)) ↔ p (layout.get j) := by
    intro j
    rw [mem_filter]
    exact and_iff_right (mem_finRange j)
  have hnodup : ((finRange layout.length).filter fun i => p (layout.get i)).Nodup :=
    (nodup_finRange _).filter _
  unfold onlyPart
  constructor
  · intro h
    split at h
    next k heq =>
      obtain rfl := Option.some.inj h
      rw [heq] at hmem
      exact ⟨(hmem k).mp (mem_singleton_self k), fun j hj => mem_singleton.mp ((hmem j).mpr hj)⟩
    · cases h
  · rintro ⟨hi, hunique⟩
    have hperm : ((finRange layout.length).filter fun i => p (layout.get i)).Perm [i] := by
      refine (perm_ext_iff_of_nodup hnodup (nodup_singleton i)).mpr fun j => ?_
      rw [hmem, mem_singleton]
      exact ⟨hunique j, fun h => h ▸ hi⟩
    rw [perm_singleton.mp hperm]

lemma memberNamed_eq_some_iff {w : Text} : memberNamed layout w = some i ↔
    ((layout.get i).isBase = false ∧ (layout.get i).name = w) ∧
      ∀ j, (layout.get j).isBase = false → (layout.get j).name = w → j = i := by
  simp [memberNamed, onlyPart_eq_some_iff]

lemma baseNamed_eq_some_iff {w : Text} : baseNamed layout w = some i ↔
    ((layout.get i).isBase ∧ (layout.get i).name = w) ∧ ∀ j, (layout.get j).name = w → j = i := by
  rw [baseNamed, Option.filter_eq_some_iff, onlyPart_eq_some_iff]
  simp only [beq_iff_eq]
  tauto

/-! ## Orders -/

namespace Interpretation

variable (m : Interpretation layout) (parts : List (Fin layout.length)) (x y : m.Object)

/-- The parts of two objects are equal. -/
def Agree : Prop := ∀ i ∈ parts, m.part i x = m.part i y

/-- The first parts that differ decide. -/
def Before : Prop :=
  ∃ before i after, parts = before ++ i :: after ∧ m.Agree before x y ∧ m.part i x < m.part i y

variable {m parts x y} {i : Fin layout.length}

lemma agree_cons : m.Agree (i :: parts) x y ↔ m.part i x = m.part i y ∧ m.Agree parts x y := forall_mem_cons

lemma not_before_nil : ¬ m.Before [] x y := by
  rintro ⟨before, i, after, h, _⟩
  simp at h

lemma before_cons : m.Before (i :: parts) x y ↔
    m.part i x < m.part i y ∨ m.part i x = m.part i y ∧ m.Before parts x y := by
  constructor
  · rintro ⟨before, j, after, h, hagree, hlt⟩
    cases before with
    | nil =>
      obtain ⟨rfl, rfl⟩ := cons_eq_cons.mp h
      exact .inl hlt
    | cons k before =>
      obtain ⟨rfl, rfl⟩ := cons_eq_cons.mp h
      obtain ⟨heq, hagree⟩ := agree_cons.mp hagree
      exact .inr ⟨heq, before, j, after, rfl, hagree, hlt⟩
  · rintro (hlt | ⟨heq, before, j, after, rfl, hagree, hlt⟩)
    · exact ⟨[], i, parts, rfl, fun _ h => absurd h not_mem_nil, hlt⟩
    · exact ⟨i :: before, j, after, rfl, agree_cons.mpr ⟨heq, hagree⟩, hlt⟩

lemma trichotomy (m : Interpretation layout) (parts : List (Fin layout.length)) (x y : m.Object) :
    (m.Before parts x y ∧ ¬ m.Agree parts x y ∧ ¬ m.Before parts y x) ∨
      (¬ m.Before parts x y ∧ m.Agree parts x y ∧ ¬ m.Before parts y x) ∨
      (¬ m.Before parts x y ∧ ¬ m.Agree parts x y ∧ m.Before parts y x) := by
  induction parts with
  | nil => exact .inr (.inl ⟨not_before_nil, fun _ h => absurd h not_mem_nil, not_before_nil⟩)
  | cons i parts ih =>
    rw [before_cons, before_cons, agree_cons]
    rcases lt_trichotomy (m.part i x) (m.part i y) with hlt | heq | hgt
    · simp [hlt, hlt.ne, hlt.ne', hlt.not_gt]
    · simpa [heq] using ih
    · simp [hgt, hgt.ne, hgt.ne', hgt.not_gt]

end Interpretation

end Program

namespace Comparison

open Program

/-- No other part has the name of this one, apart from a base class if it is a member variable, nor has a parameter,
unless it is written behind an object. -/
structure Denoted (f : Form) (layout : List Operand) (i : Fin layout.length) : Prop where
  unique : ∀ j, (layout.get j).name = (layout.get i).name →
    (layout.get i).isBase ∨ (layout.get j).isBase = false → j = i
  visible : (layout.get i).name ∈ f.parameterNames →
    (layout.get i).isBase = false ∧ (f.isFriend ∨ f.explicitThis)

lemma denoted_of_nodup {f : Form} {layout : List Operand} (hnames : (layout.map (·.name)).Nodup)
    (hvisible : ∀ o ∈ layout, o.name ∈ f.parameterNames → o.isBase = false ∧ (f.isFriend ∨ f.explicitThis))
    (i : Fin layout.length) : Denoted f layout i := by
  refine ⟨fun j hj _ => ?_, hvisible _ (get_mem ..)⟩
  have hget : (layout.map (·.name))[j.val]? = (layout.map (·.name))[i.val]? := by
    rw [getElem?_map, getElem?_map, getElem?_eq_getElem j.isLt, getElem?_eq_getElem i.isLt]
    exact congrArg some hj
  exact Fin.ext ((getElem?_inj (by simp) hnames).mp hget)

def Object.pick {α : Type} (x y : α) : Object → α
  | .left => x
  | .right => y

/-- What the names in an operator stand for when it compares two objects. -/
def Form.frame {α : Type} (f : Form) (x y : α) : Frame α :=
  if f.isFriend then ⟨none, [("lhs", x), ("rhs", y)]⟩ else ⟨some x, [("other", y)]⟩

section

variable {f : Form} {layout : List Operand} {m : Interpretation layout} {calls : Calls m.Object} {x y : m.Object}
  {i : Fin layout.length}

lemma isSome_lookup_frame {α : Type} {x y : α} {w : Text} :
    ((f.frame x y).parameters.lookup w).isSome ↔ w ∈ f.parameterNames := by
  rw [lookup_isSome_iff, Form.frame, Form.parameterNames]
  split <;> simp

lemma eval_object (side : Object) :
    (f.objectExpression side).eval m calls (f.frame x y) = some (.object (side.pick x y)) := by
  obtain ⟨isFriend, explicitThis⟩ := f
  cases isFriend <;> cases side <;> rfl

lemma eval_operand (h : Denoted f layout i) (side : Object) :
    ((Term.operand (layout.get i) side).expression f).eval m calls (f.frame x y) =
      some (.part i (m.part i (side.pick x y))) := by
  cases ho : layout.get i with
  | base b =>
    have hbase : baseNamed layout b.name = some i := by
      refine baseNamed_eq_some_iff.mpr ⟨⟨by rw [ho]; rfl, by rw [ho]; rfl⟩, fun j hj => ?_⟩
      exact h.unique j (by rw [hj, ho]; rfl) (.inl (by rw [ho]; rfl))
    have hvisible : ¬ ((f.frame x y).parameters.lookup b.name).isSome := by
      intro hhidden
      have hmember := (h.visible (by rw [ho]; exact isSome_lookup_frame.mp hhidden)).1
      rw [ho] at hmember
      cases hmember
    rw [Term.expression, eval_cast (eval_object side), if_neg hvisible, hbase]
    rfl
  | member e =>
    have hmember : memberNamed layout e.name = some i := by
      refine memberNamed_eq_some_iff.mpr ⟨⟨by rw [ho]; rfl, by rw [ho]; rfl⟩, fun j hj hname => ?_⟩
      exact h.unique j (by rw [hname, ho]; rfl) (.inr hj)
    have hbehind : (Expression.member (f.objectExpression side) e.name).eval m calls (f.frame x y) =
        some (.part i (m.part i (side.pick x y))) := by
      rw [eval_member (eval_object side), hmember]
      rfl
    cases side with
    | right => exact hbehind
    | left =>
      rw [Term.expression]
      split
      next hbare =>
        rw [Bool.and_eq_true, Bool.not_eq_true', Bool.not_eq_true'] at hbare
        have hnone : (f.frame x y).parameters.lookup e.name = none := by
          rw [← Option.not_isSome_iff_eq_none, isSome_lookup_frame]
          intro hhidden
          have hbehindObject := (h.visible (by rw [ho]; exact hhidden)).2
          rw [hbare.1, hbare.2] at hbehindObject
          simp at hbehindObject
        have hown : (f.frame x y).own = some x := by
          rw [Form.frame, hbare.1]
          rfl
        rw [Expression.eval, hnone, hown, Option.bind_some, hmember]
        rfl
      next => exact hbehind

/-- Only a part that is denoted by its name is compared at all. -/
lemma denoted_of_eval {v : Datum m} (h : ((Condition.equal (.operand (layout.get i) .left)
    (.operand (layout.get i) .right)).expression f).eval m calls (f.frame x y) = some v) : Denoted f layout i := by
  rw [Condition.expression, Expression.eval, Option.bind_eq_bind, Option.bind_eq_some_iff] at h
  obtain ⟨left, hleft, h⟩ := h
  rw [Option.bind_eq_bind, Option.bind_eq_some_iff] at h
  obtain ⟨right, hright, h⟩ := h
  cases ho : layout.get i with
  | base b =>
    rw [ho, Term.expression, eval_cast (eval_object .left)] at hleft
    split at hleft
    · cases hleft
    next hvisible =>
      obtain ⟨j, hj, _⟩ := Option.map_eq_some_iff.mp hleft
      obtain ⟨_, hunique⟩ := baseNamed_eq_some_iff.mp hj
      refine ⟨fun k hk _ => ?_, fun hhidden => ?_⟩
      · rw [ho] at hk
        rw [hunique k hk, hunique i (by rw [ho]; rfl)]
      · rw [ho] at hhidden
        exact absurd (isSome_lookup_frame.mpr hhidden) hvisible
  | member e =>
    rw [ho] at hleft hright
    rw [Term.expression, eval_member (eval_object .right)] at hright
    obtain ⟨j, hj, rfl⟩ := Option.map_eq_some_iff.mp hright
    obtain ⟨_, hunique⟩ := memberNamed_eq_some_iff.mp hj
    refine ⟨fun k hk hkind => ?_, fun hhidden => ⟨by rw [ho]; rfl, ?_⟩⟩
    · rw [ho] at hk hkind
      have hmember : (layout.get k).isBase = false := hkind.resolve_left (by simp [isBase])
      rw [hunique k hmember hk, hunique i (by rw [ho]; rfl) (by rw [ho]; rfl)]
    · by_contra hbare
      rw [not_or, Bool.not_eq_true, Bool.not_eq_true] at hbare
      rw [ho] at hhidden
      obtain ⟨z, hz⟩ := Option.isSome_iff_exists.mp ((isSome_lookup_frame (x := x) (y := y)).mpr hhidden)
      rw [Term.expression, if_pos (by rw [hbare.1, hbare.2]; rfl)] at hleft
      -- the parameter is compared with a part of an object
      obtain rfl : Datum.object z = left := Option.some.inj ((eval_parameter hz).symm.trans hleft)
      cases h

/-- A result that is there and that tells whether something holds. -/
def Answers (result : Option Bool) (p : Prop) : Prop := ∃ b, result = some b ∧ (b ↔ p)

lemma answers_equal (calls : Calls m.Object) (x y : m.Object) (h : Denoted f layout i) :
    Answers (((Condition.equal (.operand (layout.get i) .left) (.operand (layout.get i) .right)).expression f).holds m
      calls (f.frame x y)) (m.part i x = m.part i y) := by
  refine ⟨decide (m.part i x = m.part i y), ?_, decide_eq_true_iff⟩
  rw [Expression.holds, Condition.expression, Expression.eval, eval_operand h, eval_operand h]
  simp [Datum.compare, Datum.truth?, Object.pick]

lemma answers_less (calls : Calls m.Object) (x y : m.Object) (h : Denoted f layout i) (a b : Object) :
    Answers (((Condition.less (.operand (layout.get i) a) (.operand (layout.get i) b)).expression f).holds m calls
      (f.frame x y)) (m.part i (a.pick x y) < m.part i (b.pick x y)) := by
  refine ⟨m.precedes i (m.part i (a.pick x y)) (m.part i (b.pick x y)), ?_, decide_eq_true_iff⟩
  rw [Expression.holds, Condition.expression, Expression.eval, eval_operand h, eval_operand h]
  simp [Datum.compare, Datum.truth?]

variable {p : Prop} {frame : Frame m.Object}

lemma answers_and {a b : Expression} {q : Prop} (ha : Answers (a.holds m calls frame) p)
    (hb : Answers (b.holds m calls frame) q) : Answers ((Expression.and a b).holds m calls frame) (p ∧ q) := by
  obtain ⟨u, hu, hp⟩ := ha
  obtain ⟨v, hv, hq⟩ := hb
  refine ⟨u && v, ?_, by rw [Bool.and_eq_true, hp, hq]⟩
  rw [Expression.holds] at hu hv
  rw [Expression.holds, Expression.eval, hu, hv]
  rfl

lemma answers_not {a : Expression} (ha : Answers (a.holds m calls frame) p) :
    Answers ((Expression.not a).holds m calls frame) (¬ p) := by
  obtain ⟨u, hu, hp⟩ := ha
  refine ⟨!u, ?_, by rw [← hp]; simp⟩
  rw [Expression.holds] at hu
  rw [Expression.holds, Expression.eval, hu]
  rfl

/-- The comparison of an operand that the body of an equality makes. -/
def equalExpression (f : Form) (o : Operand) : Expression :=
  (Condition.equal (.operand o .left) (.operand o .right)).expression f

lemma map_program_equalBody (operands : List Operand) :
    (equalBody operands).map (·.program f) = [.answer (conjoin (operands.map (equalExpression f)))] := by
  cases operands with
  | nil => rfl
  | cons o operands =>
    show [Program.Statement.answer (conjoin (((o :: operands).map _).map _))] = _
    rw [map_map]
    rfl

variable {parts : List (Fin layout.length)}

lemma answers_conjoin (h : ∀ i ∈ parts, Denoted f layout i) :
    Answers ((conjoin ((parts.map layout.get).map (equalExpression f))).holds m calls (f.frame x y))
      (m.Agree parts x y) := by
  induction parts with
  | nil => exact ⟨true, rfl, iff_of_true rfl fun _ h => absurd h not_mem_nil⟩
  | cons i parts ih =>
    have hfirst := answers_equal calls x y (h i (mem_cons_self ..))
    have hlater := ih fun j hj => h j (mem_cons_of_mem _ hj)
    rw [Interpretation.agree_cons]
    cases parts with
    | nil =>
      have hnil : m.Agree [] x y := fun _ h => absurd h not_mem_nil
      rwa [and_iff_left hnil]
    | cons j parts => exact answers_and hfirst hlater

lemma denoted_of_conjoin {b : Bool}
    (h : (conjoin ((parts.map layout.get).map (equalExpression f))).holds m calls (f.frame x y) = some b) :
    ∀ i ∈ parts, Denoted f layout i := by
  induction parts generalizing b with
  | nil => exact fun _ h => absurd h not_mem_nil
  | cons i parts ih =>
    cases parts with
    | nil =>
      obtain ⟨v, hv, _⟩ := Option.bind_eq_some_iff.mp h
      exact forall_mem_singleton.mpr (denoted_of_eval hv)
    | cons j parts =>
      obtain ⟨_, h, _⟩ := Option.bind_eq_some_iff.mp h
      obtain ⟨u, hu, h⟩ := Option.bind_eq_some_iff.mp h
      obtain ⟨v, hv, _⟩ := Option.bind_eq_some_iff.mp h
      obtain ⟨w, hw, _⟩ := Option.bind_eq_some_iff.mp hu
      exact forall_mem_cons.mpr ⟨denoted_of_eval hw, ih hv⟩

lemma answers_guarded {c : Expression} (value : Bool) {rest : List Program.Statement} {q : Prop}
    (hc : Answers (c.holds m calls frame) p) (hrest : Answers (execute m calls frame rest) q) :
    Answers (execute m calls frame (.guarded c (.constant value) :: rest)) ((p ∧ value) ∨ (¬ p ∧ q)) := by
  obtain ⟨u, hu, hp⟩ := hc
  obtain ⟨v, hv, hq⟩ := hrest
  refine ⟨if u then value else v, ?_, ?_⟩
  · rw [execute, hu, hv]
    rfl
  · rw [← hp, ← hq]
    cases u <;> simp

lemma answers_lessBody (h : ∀ i ∈ parts, Denoted f layout i) :
    Answers (execute m calls (f.frame x y) ((lessBody (parts.map layout.get)).map (·.program f)))
      (m.Before parts x y) := by
  induction parts with
  | nil => exact ⟨false, rfl, iff_of_false (by simp) Interpretation.not_before_nil⟩
  | cons i parts ih =>
    have hi := h i (mem_cons_self ..)
    have hless := answers_less calls x y hi .left .right
    rw [Interpretation.before_cons]
    cases parts with
    | nil => rwa [or_iff_left fun h => Interpretation.not_before_nil h.2]
    | cons j parts =>
      have hgreater := answers_less calls x y hi .right .left
      have hlater := ih fun j hj => h j (mem_cons_of_mem _ hj)
      obtain ⟨b, hb, hiff⟩ := answers_guarded true hless (answers_guarded false hgreater hlater)
      refine ⟨b, hb, hiff.trans ?_⟩
      rcases lt_trichotomy (m.part i x) (m.part i y) with hlt | heq | hgt
      · simp [Object.pick, hlt]
      · simp [Object.pick, heq]
      · simp [Object.pick, hgt, hgt.ne', hgt.not_gt]

lemma answers_equal_whole (h : Answers (calls.equal x y) p) :
    Answers (((Condition.equal (.whole .left) (.whole .right)).expression f).holds m calls (f.frame x y)) p := by
  obtain ⟨b, hb, hp⟩ := h
  refine ⟨b, ?_, hp⟩
  rw [Expression.holds, Condition.expression, Term.expression, Term.expression, Expression.eval, eval_object,
    eval_object]
  simp [Datum.compare, Datum.truth?, Object.pick, hb]

lemma answers_less_whole {a b : Object} (h : Answers (calls.less (a.pick x y) (b.pick x y)) p) :
    Answers (((Condition.less (.whole a) (.whole b)).expression f).holds m calls (f.frame x y)) p := by
  obtain ⟨r, hr, hp⟩ := h
  refine ⟨r, ?_, hp⟩
  rw [Expression.holds, Condition.expression, Term.expression, Term.expression, Expression.eval, eval_object,
    eval_object]
  simp [Datum.compare, Datum.truth?, hr]

end

end Comparison

/-! ## The operators of a class -/

namespace Operator

open Program Comparison

variable {c : Entity} {settings : Settings} {layout : List Operand} {m : Interpretation layout}
  {operators : List Operator}

/-- How the operators of a class refer to their objects. -/
def formOf (settings : Settings) : Form := ⟨settings.friendComparison, settings.explicitThis⟩

lemma frame?_parameters {α : Type} (symbol : String) (indent : Text) (body : List Comparison.Statement) (x y : α) :
    frame? settings.friendComparison (tokens (comparison c settings symbol indent body).parameters) x y =
      some ((formOf settings).frame x y) := by
  have hparameters : (comparison c settings symbol indent body).parameters = if settings.friendComparison then
      ("const " ++ c.templatedNameText) ++ (" &lhs, " ++ (("const " ++ c.templatedNameText) ++ " &rhs"))
      else ("const " ++ c.templatedNameText) ++ " &other" := by
    rw [comparison]
    simp only [append_assoc]
    rfl
  rw [hparameters, Form.frame, formOf]
  cases settings.friendComparison with
  | true =>
    rw [if_pos rfl, tokens_append_left rfl, tokens_append_right (x := " &lhs, ") rfl,
      tokens_append_left (y := " &rhs") rfl]
    exact frame?_friend _ "lhs" "rhs" x y
  | false =>
    rw [if_neg Bool.false_ne_true, tokens_append_left rfl]
    exact frame?_member _ "other" x y

lemma call_comparison {symbol : String} {indent : Text}
    {body : List Comparison.Statement} (hindent : isAllBlank indent) (hbody : ∀ s ∈ body, s.Readable)
    (hfind : operators.find? (fun o => o.name == "operator" ++ symbol.toList) =
      some (comparison c settings symbol indent body)) (n : Nat) (x y : m.Object) :
    call m operators (n + 1) symbol x y = execute m ⟨call m operators n "==", call m operators n "<"⟩
      ((formOf settings).frame x y) (body.map (·.program (formOf settings))) := by
  have hread : read (comparison c settings symbol indent body).body = some (body.map (·.program (formOf settings))) := by
    have heol : isAllBlank c.document.eol ∧ c.document.eol ≠ [] := by
      rw [TextDocument.eol]
      split <;> exact ⟨rfl, by simp⟩
    exact read_renderBody heol.1 heol.2 hindent hbody
  rw [call, hfind]
  show (frame? settings.friendComparison (tokens (comparison ..).parameters) x y).bind _ = _
  rw [frame?_parameters]
  show (read _).bind _ = _
  rw [hread]
  rfl

variable {operands : List Operand}

lemma isAllBlank_indentationFor {aligned : Bool} {indent : Text}
    (h : indentationFor settings operands aligned = .ok indent)
    (hindent : ∀ t, settings.indentationText = .ok t → isAllBlank t) : isAllBlank indent := by
  unfold indentationFor at h
  split at h
  · obtain rfl := Except.ok.inj h
    rfl
  · refine hindent indent ?_
    split at h
    · obtain ⟨value, -, h⟩ := exists_ok_of_bind h
      obtain ⟨_, -, h⟩ := exists_ok_of_bind h
      exact h
    · exact h

/-- The six comparison operators of a class, with the indentation of the two that have operands. -/
def comparisons (c : Entity) (settings : Settings) (indent indent' : Text) (operands : List Operand) : List Operator :=
  [comparison c settings "==" indent (equalBody operands),
    comparison c settings "!=" [] [.answer (.not (.equal (.whole .left) (.whole .right)))],
    comparison c settings "<" indent' (lessBody operands),
    comparison c settings ">" [] [.answer (.less (.whole .right) (.whole .left))],
    comparison c settings "<=" [] [.answer (.not (.less (.whole .right) (.whole .left)))],
    comparison c settings ">=" [] [.answer (.not (.less (.whole .left) (.whole .right)))]]

lemma comparisons_of_ok {equalities relations : List Operator} (hequality : equality c settings operands = .ok equalities)
    (hrelational : relational c settings operands = .ok relations)
    (hindent : ∀ t, settings.indentationText = .ok t → isAllBlank t) :
    ∃ indent indent', isAllBlank indent ∧ isAllBlank indent' ∧
      equalities ++ relations = comparisons c settings indent indent' operands := by
  obtain ⟨indent, hi, hequality⟩ := exists_ok_of_bind hequality
  obtain ⟨indent', hi', hrelational⟩ := exists_ok_of_bind hrelational
  refine ⟨indent, indent', isAllBlank_indentationFor hi hindent, isAllBlank_indentationFor hi' hindent, ?_⟩
  obtain rfl := Except.ok.inj hequality
  obtain rfl := Except.ok.inj hrelational
  rfl

/-- What the comparison operators answer for two objects if they order them by the given parts. -/
structure Orders (m : Interpretation layout) (parts : List (Fin layout.length))
    (answer : String → m.Object → m.Object → Option Bool) (x y : m.Object) : Prop where
  equal : Answers (answer "==" x y) (m.Agree parts x y)
  notEqual : Answers (answer "!=" x y) (¬ m.Agree parts x y)
  less : Answers (answer "<" x y) (m.Before parts x y)
  greater : Answers (answer ">" x y) (m.Before parts y x)
  lessEqual : Answers (answer "<=" x y) (¬ m.Before parts y x)
  greaterEqual : Answers (answer ">=" x y) (¬ m.Before parts x y)
  exactlyOne : [answer "<" x y, answer "==" x y, answer "<" y x].count (some true) = 1

lemma count_of_answers {a b c : Option Bool} {p q r : Prop} (ha : Answers a p) (hb : Answers b q) (hc : Answers c r)
    (h : (p ∧ ¬ q ∧ ¬ r) ∨ (¬ p ∧ q ∧ ¬ r) ∨ (¬ p ∧ ¬ q ∧ r)) : [a, b, c].count (some true) = 1 := by
  obtain ⟨a, rfl, hp⟩ := ha
  obtain ⟨b, rfl, hq⟩ := hb
  obtain ⟨c, rfl, hr⟩ := hc
  rw [← hp, ← hq, ← hr] at h
  cases a <;> cases b <;> cases c <;> simp_all

lemma readable_equalBody (h : ∀ o ∈ operands, IsIdentifier o.name) : ∀ s ∈ equalBody operands, s.Readable := by
  intro s hs
  cases operands with
  | nil =>
    obtain rfl := mem_singleton.mp hs
    exact trivial
  | cons o operands =>
    obtain rfl := mem_singleton.mp hs
    refine ⟨by simp, fun d hd => ?_⟩
    obtain ⟨p, hp, rfl⟩ := mem_map.mp hd
    exact ⟨h p hp, h p hp⟩

lemma readable_lessBody (h : ∀ o ∈ operands, IsIdentifier o.name) : ∀ s ∈ lessBody operands, s.Readable := by
  induction operands with
  | nil => exact forall_mem_singleton.mpr trivial
  | cons o operands ih =>
    have ho := h o (mem_cons_self ..)
    cases operands with
    | nil => exact forall_mem_singleton.mpr ⟨ho, ho⟩
    | cons p operands =>
      refine forall_mem_cons.mpr ⟨⟨ho, ho⟩, forall_mem_cons.mpr ⟨⟨ho, ho⟩, ?_⟩⟩
      exact ih fun o ho => h o (mem_cons_of_mem _ ho)

lemma answers_call {symbol : String} (e : Comparison.Condition) (he : e.Readable)
    (hfind : operators.find? (fun o => o.name == "operator" ++ symbol.toList) =
      some (comparison c settings symbol [] [.answer e])) {n : Nat} {x y : m.Object} {p : Prop}
    (h : Answers ((e.expression (formOf settings)).holds m ⟨call m operators n "==", call m operators n "<"⟩
      ((formOf settings).frame x y)) p) : Answers (call m operators (n + 1) symbol x y) p := by
  have hbody : ∀ s ∈ [Comparison.Statement.answer e], s.Readable := forall_mem_singleton.mpr he
  rwa [call_comparison rfl hbody hfind]

section

variable {parts : List (Fin layout.length)} {indent indent' : Text}
  (hoperators : operators = comparisons c settings indent indent' (parts.map layout.get))
  (hnames : ∀ i ∈ parts, IsIdentifier (layout.get i).name)

include hoperators hnames

lemma call_equal (hindent : isAllBlank indent) (n : Nat) (x y : m.Object) :
    call m operators (n + 1) "==" x y = execute m ⟨call m operators n "==", call m operators n "<"⟩
      ((formOf settings).frame x y)
      [.answer (conjoin ((parts.map layout.get).map (equalExpression (formOf settings))))] := by
  subst hoperators
  rw [← map_program_equalBody]
  exact call_comparison hindent (readable_equalBody (forall_mem_map.mpr hnames)) rfl n x y

lemma orders_of_denoted (hindent : isAllBlank indent) (hindent' : isAllBlank indent')
    (h : ∀ i ∈ parts, Denoted (formOf settings) layout i) (n : Nat) (x y : m.Object) :
    Orders m parts (call m operators (n + 2)) x y := by
  have hequal : ∀ k x y, Answers (call m operators (k + 1) "==" x y) (m.Agree parts x y) := by
    intro k x y
    rw [call_equal hoperators hnames hindent]
    exact answers_conjoin h
  have hless : ∀ k x y, Answers (call m operators (k + 1) "<" x y) (m.Before parts x y) := by
    intro k x y
    subst hoperators
    rw [call_comparison hindent' (readable_lessBody (forall_mem_map.mpr hnames)) rfl]
    exact answers_lessBody h
  refine ⟨hequal _ x y, ?_, hless _ x y, ?_, ?_, ?_, ?_⟩
  · exact answers_call (.not (.equal (.whole .left) (.whole .right))) ⟨trivial, trivial⟩ (by rw [hoperators]; rfl)
      (answers_not (answers_equal_whole (hequal n x y)))
  · exact answers_call (.less (.whole .right) (.whole .left)) ⟨trivial, trivial⟩ (by rw [hoperators]; rfl)
      (answers_less_whole (hless n y x))
  · exact answers_call (.not (.less (.whole .right) (.whole .left))) ⟨trivial, trivial⟩ (by rw [hoperators]; rfl)
      (answers_not (answers_less_whole (hless n y x)))
  · exact answers_call (.not (.less (.whole .left) (.whole .right))) ⟨trivial, trivial⟩ (by rw [hoperators]; rfl)
      (answers_not (answers_less_whole (hless n x y)))
  · exact count_of_answers (hless _ x y) (hequal _ x y) (hless _ y x) (m.trichotomy parts x y)

end

/-- **The comparison operators are a lexicographic order if and only if every operand is denoted by its name.**
Whatever operands mean and however their values are ordered, objects compare as the first operands that differ, and
exactly one of `<`, `==` and `>` holds. An operand that shares its name is not compared. -/
theorem comparisons_lexicographic_iff {parts : List (Fin layout.length)} {equalities relations : List Operator}
    (hequality : equality c settings (parts.map layout.get) = .ok equalities)
    (hrelational : relational c settings (parts.map layout.get) = .ok relations)
    (hnames : ∀ i ∈ parts, IsIdentifier (layout.get i).name)
    (hindent : ∀ t, settings.indentationText = .ok t → isAllBlank t = true) :
    (∀ (m : Interpretation layout) (n : Nat) (x y : m.Object),
      Orders m parts (call m (equalities ++ relations) (n + 2)) x y) ↔
      ∀ i ∈ parts, Denoted (formOf settings) layout i := by
  obtain ⟨indent, indent', hblank, hblank', hoperators⟩ := comparisons_of_ok hequality hrelational hindent
  constructor
  · intro h
    -- a class of one object, all whose parts have one value
    let m : Interpretation layout := ⟨Unit, fun _ => Unit, fun _ => inferInstance, fun _ _ => ()⟩
    obtain ⟨b, hb, _⟩ := (h m 0 () ()).equal
    rw [call_equal hoperators hnames hblank] at hb
    exact denoted_of_conjoin hb
  · intro h m n x y
    exact orders_of_denoted hoperators hnames hblank hblank' h n x y

/-- A class with a base class, a member variable and one that is named like the parameter of operators. -/
def comparedClass : Entity where
  document := {
    uri := "file:///p/a.h"
    text := "class A : public B \x7b\n    int x;\n    int other;\n\x7d;\n"
    opening := 0 }
  node := ⟨⟨"A", "A", [], .classType, ⟨⟨0, 0⟩, ⟨3, 1⟩⟩, ⟨⟨0, 6⟩, ⟨0, 7⟩⟩,
    [⟨"x", "x", [], .field, ⟨⟨1, 4⟩, ⟨1, 9⟩⟩, ⟨⟨1, 8⟩, ⟨1, 9⟩⟩, []⟩,
      ⟨"other", "other", [], .field, ⟨⟨2, 4⟩, ⟨2, 13⟩⟩, ⟨⟨2, 8⟩, ⟨2, 13⟩⟩, []⟩]⟩, []⟩

lemma all_comparedClass : (all comparedClass).map (fun o => (o.isBase, o.name)) =
    [(true, "B".toList), (false, "x".toList), (false, "other".toList)] := by decide +kernel

lemma names_comparedClass : (all comparedClass).map (·.name) = ["B".toList, "x".toList, "other".toList] := by
  have hnames := congrArg (map (·.2)) all_comparedClass
  rwa [map_map] at hnames

lemma identifiers_comparedClass : ∀ o ∈ all comparedClass, IsIdentifier o.name := by
  intro o ho
  have hname : o.name ∈ (all comparedClass).map (·.name) := mem_map_of_mem ho
  rw [names_comparedClass] at hname
  have hall : ["B".toList, "x", "other"].all (fun w =>
      !w.isEmpty && w.all isWordChar && (vocabulary.lookup w).isNone) := by decide
  have hword := all_eq_true.mp hall _ hname
  simp only [Bool.and_eq_true, Bool.not_eq_true', isEmpty_eq_false_iff, all_eq_true, Option.isNone_iff_eq_none]
    at hword
  exact ⟨hword.1.1, hword.1.2, hword.2⟩

def explicitThisSettings : Settings := ⟨[(.text "explicit_this_pointer", .bool true)]⟩

/-- With `this` before its members, all operands of the class are compared. -/
theorem comparisons_lexicographic_iff_explicitThis : ∃ equalities relations,
    equality comparedClass explicitThisSettings (Operand.all comparedClass) = .ok equalities ∧
    relational comparedClass explicitThisSettings (Operand.all comparedClass) = .ok relations ∧
    ∀ (m : Interpretation (Operand.all comparedClass)) (n : Nat) (x y : m.Object),
      Orders m (List.finRange _) (call m (equalities ++ relations) (n + 2)) x y := by
  obtain ⟨equalities, he, -⟩ := @exists_ok_of_any _ (equality comparedClass explicitThisSettings (all comparedClass))
    (fun _ => true) (by decide +kernel)
  obtain ⟨relations, hr, -⟩ := @exists_ok_of_any _ (relational comparedClass explicitThisSettings (all comparedClass))
    (fun _ => true) (by decide +kernel)
  have hindent : explicitThisSettings.indentationText.toOption.all isAllBlank = true := by decide +kernel
  have hvisible : ∀ q ∈ [(true, "B".toList), (false, "x"), (false, "other")],
      q.2 ∈ (formOf explicitThisSettings).parameterNames → q.1 = false ∧
        ((formOf explicitThisSettings).isFriend = true ∨ (formOf explicitThisSettings).explicitThis = true) := by
    decide +kernel
  refine ⟨equalities, relations, he, hr, ?_⟩
  rw [← List.map_get_finRange (Operand.all comparedClass)] at he hr
  refine (comparisons_lexicographic_iff he hr (fun i _ => identifiers_comparedClass _ (List.get_mem ..)) ?_).mpr
    fun i _ => ?_
  · intro t ht
    rwa [ht] at hindent
  · refine denoted_of_nodup ?_ (fun o ho hname => ?_) i
    · rw [names_comparedClass]
      decide
    · have hmem : (o.isBase, o.name) ∈ (Operand.all comparedClass).map (fun o => (o.isBase, o.name)) :=
        List.mem_map_of_mem ho
      rw [all_comparedClass] at hmem
      exact hvisible _ hmem hname

/-- Without it, the member that is named like the parameter is not compared, and the equality means nothing. -/
theorem hidden_member_not_compared : ∃ equalities relations,
    equality comparedClass .standard (Operand.all comparedClass) = .ok equalities ∧
    relational comparedClass .standard (Operand.all comparedClass) = .ok relations ∧
    equalities.map (·.body) =
      ["return static_cast<const B &>(*this) == static_cast<const B &>(other)\n        && x == other.x\n        && other == other.other;".toList,
        "return !(*this == other);".toList] ∧
    ∀ (m : Interpretation (Operand.all comparedClass)) (n : Nat) (x y : m.Object),
      call m (equalities ++ relations) (n + 1) "==" x y = none := by
  obtain ⟨equalities, he, hbodies⟩ := @exists_ok_of_any _ (equality comparedClass .standard (all comparedClass))
    (fun equalities => decide (equalities.map (·.body) =
      ["return static_cast<const B &>(*this) == static_cast<const B &>(other)\n        && x == other.x\n        && other == other.other;",
        "return !(*this == other);"])) (by decide +kernel)
  obtain ⟨relations, hr, -⟩ := @exists_ok_of_any _ (relational comparedClass .standard (all comparedClass))
    (fun _ => true) (by decide +kernel)
  have hindent : Settings.standard.indentationText.toOption.all isAllBlank = true := by decide +kernel
  have hform : formOf .standard = ⟨false, false⟩ := by
    have hfriend : Settings.standard.friendComparison = false := by decide +kernel
    have hthis : Settings.standard.explicitThis = false := by decide +kernel
    rw [formOf, hfriend, hthis]
  refine ⟨equalities, relations, he, hr, of_decide_eq_true hbodies, fun m n x y => ?_⟩
  obtain ⟨indent, indent', hblank, _, hoperators⟩ := comparisons_of_ok he hr fun t ht => by
    rwa [ht] at hindent
  rw [← List.map_get_finRange (Operand.all comparedClass)] at hoperators
  refine Option.eq_none_iff_forall_ne_some.mpr fun b hb => ?_
  rw [call_equal hoperators (fun i _ => identifiers_comparedClass _ (List.get_mem ..)) hblank] at hb
  have hother : "other".toList ∈ (Operand.all comparedClass).map (·.name) := by
    rw [names_comparedClass]
    decide
  obtain ⟨o, ho, hname⟩ := List.mem_map.mp hother
  obtain ⟨i, rfl⟩ := List.mem_iff_get.mp ho
  have hdenoted := denoted_of_conjoin hb i (List.mem_finRange i)
  rw [hform] at hdenoted
  have hbehind := (hdenoted.visible (by rw [hname]; decide)).2
  simp at hbehind

end Operator

end CppScaffold
