import CppScaffold.Proofs.OperatorPrograms

/-!
# Bodies of comparison operators, read back

The text of a body reads as the program of its statements, however lines are divided, if the names of operands are
identifiers.
-/

namespace CppScaffold.Comparison

open Text Program List Statement

/-! ## What the texts read as -/

def Form.parameterNames (f : Form) : List Text := if f.isFriend then ["lhs", "rhs"] else ["other"]

def Form.objectExpression (f : Form) : Object → Expression
  | .left => if f.isFriend then .name "lhs" else .this
  | .right => if f.isFriend then .name "rhs" else .name "other"

def Term.expression (f : Form) : Term → Expression
  | .operand (.base b) side => .cast b.name (f.objectExpression side)
  | .operand (.member e) .left =>
    if !f.isFriend && !f.explicitThis then .name e.name else .member (f.objectExpression .left) e.name
  | .operand (.member e) .right => .member (f.objectExpression .right) e.name
  | .whole side => f.objectExpression side

def Condition.expression (f : Form) : Condition → Expression
  | .equal a b => .equal (a.expression f) (b.expression f)
  | .less a b => .less (a.expression f) (b.expression f)
  | .not c => .not (c.expression f)

def conjoin : List Expression → Expression
  | [] => .constant true
  | [e] => e
  | e :: es => .and e (conjoin es)

def Statement.program (f : Form) : Statement → Program.Statement
  | .returnIf c value => .guarded (c.expression f) (.constant value)
  | .answer c => .answer (c.expression f)
  | .answerAll cs => .answer (conjoin (cs.map (·.expression f)))
  | .answerConstant value => .answer (.constant value)

def Term.Readable : Term → Prop
  | .operand o _ => IsIdentifier o.name
  | .whole _ => True

def Condition.IsComparison : Condition → Prop
  | .equal a b => a.Readable ∧ b.Readable
  | .less a b => a.Readable ∧ b.Readable
  | .not _ => False

def Condition.Readable : Condition → Prop
  | .not c => c.IsComparison
  | c => c.IsComparison

def Statement.Readable : Statement → Prop
  | .returnIf c _ => c.IsComparison
  | .answer c => c.Readable
  | .answerAll cs => cs ≠ [] ∧ ∀ c ∈ cs, c.Readable
  | .answerConstant _ => True

variable {f : Form}

/-- A reader reads an expression off the front of every continuation that does not begin with a dot. -/
def Reads (reader : List Token → Option (Expression × List Token)) (t : Text) (e : Expression) : Prop :=
  ∀ rest, rest.head? ≠ some .dot → reader (tokens t ++ rest) = some (e, rest)

lemma reads_object (side : Object) (rest : List Token) :
    object (tokens (f.object side) ++ rest) = some (f.objectExpression side, rest) := by
  obtain ⟨isFriend, explicitThis⟩ := f
  cases isFriend <;> cases side <;> rfl

lemma tokens_base {b : Fragment} (h : IsIdentifier b.name) (side : Object) :
    tokens ((Term.operand (.base b) side).render f) =
      [.staticCast, .less, .constKeyword, .name b.name, .ampersand, .greater, .left] ++ tokens (f.object side) ++
        [.right] := by
  show tokens ("static_cast<const " ++ b.name ++ " &>" ++ '(' :: f.object side ++ [')']) = _
  rw [tokens_append_left (y := [')']) rfl, tokens_append_left (y := '(' :: f.object side) rfl,
    tokens_append_left (y := " &>") rfl, tokens_append_right (x := "static_cast<const ") rfl,
    tokens_identifier h, tokens_cons rfl]
  rfl

lemma tokens_member {e : Entity} (h : IsIdentifier e.name) (side : Object) :
    tokens ((Term.operand (.member e) side).render f) = tokens (f.access side) ++ [.name e.name] := by
  show tokens (f.access side ++ e.name) = _
  have hlast : (f.access side).getLast?.all (fun a => a == '.' || a == '>') := by
    obtain ⟨isFriend, explicitThis⟩ := f
    cases isFriend <;> cases explicitThis <;> cases side <;> rfl
  rw [tokens_append, tokens_identifier h]
  intro a ha b _
  rw [Option.mem_def.mp ha, Option.all_some, Bool.or_eq_true, beq_iff_eq, beq_iff_eq] at hlast
  rcases hlast with rfl | rfl
  · exact (joined_of_alone rfl b).1
  · have hword : isWordChar '>' = false := rfl
    simp [joined, hword]

lemma reads_term {t : Term} (h : t.Readable) : Reads term (t.render f) (t.expression f) := by
  intro rest hrest
  cases t with
  | whole side =>
    obtain ⟨isFriend, explicitThis⟩ := f
    cases isFriend <;> cases side
    · rfl
    · exact term_name _ hrest
    · exact term_name _ hrest
    · exact term_name _ hrest
  | operand o side =>
    cases o with
    | base b =>
      rw [tokens_base h, append_assoc]
      exact term_cast (reads_object side ([.right] ++ rest))
    | member e =>
      rw [tokens_member h]
      obtain ⟨isFriend, explicitThis⟩ := f
      cases isFriend <;> cases explicitThis <;> cases side
      · exact term_name _ hrest
      all_goals rfl

lemma reads_comparison {c : Condition} (h : c.IsComparison) : Reads comparison (c.render f) (c.expression f) := by
  intro rest hrest
  cases c with
  | equal a b =>
    have htokens : tokens (a.render f ++ " == " ++ b.render f) =
        tokens (a.render f) ++ .equal :: tokens (b.render f) := tokens_around rfl rfl (by simp)
    rw [Condition.render, htokens, append_assoc]
    exact comparison_equal (reads_term h.1 _ (by simp)) (reads_term h.2 _ hrest)
  | less a b =>
    have htokens : tokens (a.render f ++ " < " ++ b.render f) =
        tokens (a.render f) ++ .less :: tokens (b.render f) := tokens_around rfl rfl (by simp)
    rw [Condition.render, htokens, append_assoc]
    exact comparison_less (reads_term h.1 _ (by simp)) (reads_term h.2 _ hrest)
  | not c => exact h.elim

lemma reads_condition {c : Condition} (h : c.Readable) : Reads condition (c.render f) (c.expression f) := by
  intro rest hrest
  cases c with
  | equal a b => exact condition_of_comparison (reads_comparison (c := .equal a b) h rest hrest)
  | less a b => exact condition_of_comparison (reads_comparison (c := .less a b) h rest hrest)
  | not c =>
    have htokens : tokens ((Condition.not c).render f) = .not :: .left :: tokens (c.render f) ++ [.right] := by
      show tokens ("!(" ++ c.render f ++ [')']) = _
      rw [tokens_append_left (y := [')']) rfl, tokens_append_right (x := "!(") rfl]
      rfl
    rw [htokens, append_assoc]
    exact condition_not (reads_comparison h _ (by simp))

/-! ## Bodies -/

section

variable {eol indent : Text} (heol : isAllBlank eol = true) (hne : eol ≠ []) (hindent : isAllBlank indent = true)

lemma conjunction_tokens {c : Condition} {cs : List Condition} {n : Nat} {rest : List Token}
    (h : ∀ d ∈ c :: cs, d.Readable) (hn : cs.length < n) (hrest : rest.head? ≠ some .dot)
    (hand : rest.head? ≠ some .and) :
    conjunction n (tokens (c.render f) ++ (cs.flatMap fun d => .and :: tokens (d.render f)) ++ rest) =
      some (conjoin ((c :: cs).map (·.expression f)), rest) := by
  induction cs generalizing c n with
  | nil =>
    obtain ⟨n, rfl⟩ := Nat.exists_eq_add_one_of_ne_zero (Nat.ne_of_gt hn)
    rw [flatMap_nil, append_nil]
    exact conjunction_last (reads_condition (h c (mem_cons_self ..)) rest hrest) hand
  | cons d cs ih =>
    obtain ⟨n, rfl⟩ := Nat.exists_eq_add_one_of_ne_zero (Nat.ne_of_gt (Nat.zero_lt_of_lt hn))
    have hlater := ih (fun d hd => h d (mem_cons_of_mem _ hd)) (Nat.lt_of_succ_lt_succ hn)
    rw [append_assoc] at hlater
    rw [flatMap_cons, append_assoc, append_assoc]
    exact conjunction_and (reads_condition (h c (mem_cons_self ..)) _ (by simp)) hlater

lemma tokens_join {gap : Text} (hgap : isAllBlank gap) (hne : gap ≠ []) (c : Condition) (cs : List Condition) :
    tokens (join (gap ++ "&& ") ((c :: cs).map (·.render f))) =
      tokens (c.render f) ++ cs.flatMap fun d => .and :: tokens (d.render f) := by
  induction cs generalizing c with
  | nil => simp [join]
  | cons d cs ih =>
    have hhead : (gap ++ "&& " ++ join (gap ++ "&& ") ((d :: cs).map (·.render f))).head?.all alone := by
      rw [append_assoc, head?_append_of_ne_nil _ hne]
      exact (alone_of_isAllBlank hgap).1
    have hlast : (gap ++ "&& ").getLast?.all alone := by
      rw [getLast?_append_of_ne_nil _ (by simp)]
      rfl
    have hshape : join (gap ++ "&& ") ((c :: d :: cs).map (·.render f)) =
        c.render f ++ (gap ++ "&& " ++ join (gap ++ "&& ") ((d :: cs).map (·.render f))) := by
      simp [join, intercalate]
    rw [hshape, tokens_append_left hhead, tokens_append_right hlast, tokens_append_right (alone_of_isAllBlank hgap).2,
      tokens_of_isAllBlank hgap, ih]
    rfl

include heol hindent

lemma tokens_returnIf (c : Condition) (value : Bool) : tokens ((returnIf c value).render f eol indent) =
    .ifKeyword :: .left :: tokens (c.render f) ++ [.right, .returnKeyword, .constant value, .semicolon] := by
  have hgap : isAllBlank (eol ++ indent ++ indent) := by simp_all [isAllBlank]
  have hend : isAllBlank (eol ++ indent) := by simp_all [isAllBlank]
  have hconstant : tokens (constantText value) = [.constant value] := by cases value <;> rfl
  have hshape : (returnIf c value).render f eol indent = "if (" ++ (c.render f ++ (')' ::
      ((eol ++ indent ++ indent) ++ ("return " ++ (constantText value ++ (';' :: (eol ++ indent))))))) := by
    show "if (" ++ c.render f ++ ')' :: eol ++ indent ++ indent ++ "return " ++ constantText value
      ++ ';' :: eol ++ indent = _
    simp
  rw [hshape, tokens_append_right (x := "if (") rfl, tokens_append_cons rfl,
    tokens_append_right (alone_of_isAllBlank hgap).2, tokens_append_right (x := "return ") rfl,
    tokens_append_cons rfl, tokens_of_isAllBlank hgap,
    tokens_of_isAllBlank hend, hconstant]
  rfl

omit heol hindent in
lemma all_getLast?_append_cons {x t : Text} {c : Char} (hc : alone c) (ht : t.getLast?.all alone) :
    (x ++ c :: t).getLast?.all alone := by
  rw [getLast?_append_of_ne_nil _ (by simp)]
  cases t with
  | nil => exact hc
  | cons d t => exact ht

lemma alone_render (s : Statement) : (s.render f eol indent).getLast?.all alone := by
  have hend : isAllBlank (eol ++ indent) := by simp_all [isAllBlank]
  cases s with
  | returnIf c value =>
    show ("if (" ++ c.render f ++ ')' :: eol ++ indent ++ indent ++ "return " ++ constantText value
      ++ ';' :: eol ++ indent).getLast?.all alone
    rw [append_assoc _ (';' :: eol)]
    exact all_getLast?_append_cons rfl (alone_of_isAllBlank hend).2
  | answer c | answerAll cs | answerConstant value => exact all_getLast?_append_cons rfl rfl

include hne

lemma tokens_answerAll (c : Condition) (cs : List Condition) : tokens ((answerAll (c :: cs)).render f eol indent) =
    .returnKeyword :: (tokens (c.render f) ++ cs.flatMap fun d => .and :: tokens (d.render f)) ++ [.semicolon] := by
  have halignment : isAllBlank (if indent.contains ' ' then "    " else indent) := by
    split
    · rfl
    · exact hindent
  generalize hgap : eol ++ indent ++ (if indent.contains ' ' then "    ".toList else indent) = gap
  have hblank : isAllBlank gap := by
    rw [← hgap, isAllBlank, all_append, all_append]
    exact Bool.and_eq_true_iff.mpr ⟨Bool.and_eq_true_iff.mpr ⟨heol, hindent⟩, halignment⟩
  have hgapne : gap ≠ [] := by
    rw [← hgap]
    simp [hne]
  have hshape : (answerAll (c :: cs)).render f eol indent =
      "return " ++ (join (gap ++ "&& ") ((c :: cs).map (·.render f)) ++ [';']) := by
    rw [← hgap]
    rfl
  rw [hshape, tokens_append_right (x := "return ") rfl, tokens_append_left (y := [';']) rfl,
    tokens_join hblank hgapne]
  rfl

lemma statements_render {s : Statement} (hs : s.Readable) {n : Nat} {rest : List Token} {later : List Program.Statement}
    (hn : (tokens (s.render f eol indent) ++ rest).length ≤ n)
    (hrest : ∀ k, rest.length ≤ k → statements k rest = some later) :
    statements n (tokens (s.render f eol indent) ++ rest) = some (s.program f :: later) := by
  cases s with
  | returnIf c value =>
    rw [tokens_returnIf heol hindent] at hn ⊢
    obtain ⟨k, rfl⟩ := Nat.exists_eq_add_one_of_ne_zero (n := n) (by rintro rfl; simp at hn)
    rw [append_assoc]
    exact statements_guarded (reads_comparison hs _ (by simp)) (returned_of_conjunction rfl)
      (hrest k (by simp at hn; omega))
  | answer c =>
    have htokens : tokens ((answer c).render f eol indent) =
        .returnKeyword :: tokens (c.render f) ++ [.semicolon] := by
      show tokens ("return " ++ c.render f ++ [';']) = _
      rw [tokens_append_left (y := [';']) rfl, tokens_append_right (x := "return ") rfl]
      rfl
    rw [htokens, append_assoc] at hn ⊢
    obtain ⟨k, rfl⟩ := Nat.exists_eq_add_one_of_ne_zero (n := n) (by rintro rfl; simp at hn)
    refine statements_answer ?_ (hrest k (by simp at hn; omega))
    have hreadable : ∀ d ∈ [c], d.Readable := forall_mem_singleton.mpr hs
    have hread : conjunction (k + 1) (tokens (c.render f) ++ [] ++ .semicolon :: rest) =
        some (c.expression f, .semicolon :: rest) := conjunction_tokens hreadable (Nat.succ_pos k) (by simp) (by simp)
    rwa [append_nil] at hread
  | answerAll cs =>
    obtain ⟨hcs, hreadable⟩ := hs
    obtain ⟨c, cs, rfl⟩ := exists_cons_of_ne_nil hcs
    rw [tokens_answerAll heol hne hindent, append_assoc] at hn ⊢
    obtain ⟨k, rfl⟩ := Nat.exists_eq_add_one_of_ne_zero (n := n) (by rintro rfl; simp at hn)
    have hlength : cs.length ≤ (cs.flatMap fun d => Token.and :: tokens (d.render f)).length := by
      clear hn hcs hreadable
      induction cs with
      | nil => simp
      | cons d cs ih =>
        rw [flatMap_cons, length_append, length_cons, length_cons]
        omega
    refine statements_answer ?_ (hrest k (by simp at hn; omega))
    refine conjunction_tokens hreadable ?_ (by simp) (by simp)
    simp only [length_cons, length_append] at hn
    omega
  | answerConstant value =>
    have htokens : tokens ((answerConstant value).render f eol indent) =
        [.returnKeyword, .constant value, .semicolon] := by cases value <;> rfl
    rw [htokens] at hn ⊢
    obtain ⟨k, rfl⟩ := Nat.exists_eq_add_one_of_ne_zero (n := n) (by rintro rfl; simp at hn)
    exact statements_answer rfl (hrest k (by simp at hn; omega))

lemma read_renderBody {body : List Statement} (h : ∀ s ∈ body, s.Readable) :
    read (renderBody f eol indent body) = some (body.map (·.program f)) := by
  have hall : ∀ n, (tokens (renderBody f eol indent body)).length ≤ n →
      statements n (tokens (renderBody f eol indent body)) = some (body.map (·.program f)) := by
    induction body with
    | nil =>
      intro n _
      cases n <;> rfl
    | cons s body ih =>
      intro n hn
      have htokens : tokens (renderBody f eol indent (s :: body)) =
          tokens (s.render f eol indent) ++ tokens (renderBody f eol indent body) :=
        tokens_append_right (alone_render heol hindent s)
      rw [htokens] at hn ⊢
      exact statements_render heol hne hindent (h s (mem_cons_self ..)) hn
        (ih fun s hs => h s (mem_cons_of_mem _ hs))
  exact hall _ (Nat.le_refl _)

end

end CppScaffold.Comparison
