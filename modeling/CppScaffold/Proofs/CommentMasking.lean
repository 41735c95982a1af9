import CppScaffold.Proofs.LeadingComments
import CppScaffold.Proofs.Normalization

/-!
# Literals beside masked comments

The text with comments masked has the lexemes of the text itself (`scan_comments`): a quote that is not closed there is
not closed here either, though backslashes and quotes of comments are gone (`Veiling.quotedLength`).
-/

namespace CppScaffold

open Text List Mask

/-- A literal at its place in a text. -/
structure Literal where
  offset : Nat
  kind : TokenKind
  /-- The literal as written, with its enclosing characters. -/
  written : Text
  deriving DecidableEq, Repr

namespace Lexeme

/-- The literals of a text that is read from `offset` on. -/
def literalsFrom (offset : Nat) : List Lexeme → List Literal
  | [] => []
  | .plain _ :: rest => literalsFrom (offset + 1) rest
  | .token kind w :: rest =>
    if kind.isComment then literalsFrom (offset + w.length) rest
    else ⟨offset, kind, w⟩ :: literalsFrom (offset + w.length) rest

def literals (t : Text) : List Literal := literalsFrom 0 (scan t)

/-- How a lexeme is read when comments are masked. A comment without its enclosing characters is no lexeme of its own. -/
def maskedLexemes (keep : Bool) : Lexeme → List Lexeme
  | .plain c => [.plain c]
  | .token kind w =>
    if kind.isComment && !keep then (Mask.all w).map .plain else [.token kind (veiled keep (.token kind w))]

variable {kind : TokenKind} {c : Char} {rest : Text}

lemma comments_plain (h : tokenAt c rest = none) (keep : Bool) :
    comments (c :: rest) keep = c :: comments rest keep := by
  rw [comments_eq, scan_plain h, flatMap_cons]
  rfl

lemma comments_token {n : Nat} (h : tokenAt c rest = some (kind, n)) (keep : Bool) :
    comments (c :: rest) keep =
      veiled keep (.token kind (c :: rest.take n)) ++ comments (rest.drop n) keep := by
  rw [comments_eq, scan_token h, flatMap_cons, ← comments_eq]

end Lexeme

/-- A text that begins with a line break, if with anything, still does when it is masked. -/
lemma Mask.MaskedForm.isBreak_head {t m : Text} (h : MaskedForm t m)
    (ht : ∀ d, t.head? = some d → isBreak d) : ∀ d, m.head? = some d → isBreak d := by
  intro d hd
  cases t with
  | nil =>
    rw [length_eq_zero_iff.mp h.length_eq] at hd
    cases hd
  | cons e u =>
    have he := ht e rfl
    have heq := (h.break_at 0 e he).mpr rfl
    rw [← head?_eq_getElem?, hd, Option.some.injEq] at heq
    rwa [heq]

namespace Lexeme

/-! ## Quotes that are not closed -/

/-- The text does not begin with a character that means something after a backslash or ends a literal. -/
def BeginsUnmarked (m : Text) : Prop :=
  ∀ d, m.head? = some d → d ≠ '"' ∧ d ≠ '\'' ∧ d ≠ '\\'

/-- Blanks characters of `t`; a backslash is blanked only where the next character means nothing after a quote. -/
inductive Veiling : Text → Text → Prop where
  | nil : Veiling [] []
  | same (c : Char) {t m : Text} (h : Veiling t m) : Veiling (c :: t) (c :: m)
  | blank {c : Char} {t m : Text} (hbreak : isBreak c = false) (hnext : c = '\\' → BeginsUnmarked m)
      (h : Veiling t m) : Veiling (c :: t) (' ' :: m)

namespace Veiling

variable {t m : Text}

lemma exists_cons {d : Char} (h : Veiling t (d :: m)) : ∃ c u, t = c :: u ∧ Veiling u m := by
  cases h with
  | same _ h | blank _ _ h => exact ⟨_, _, rfl, h⟩

lemma append (x : Text) (h : Veiling t m) : Veiling (x ++ t) (x ++ m) := by
  induction x with
  | nil => exact h
  | cons c x ih => exact .same c ih

lemma all_append {w : Text} (h : Veiling t m) (hnext : w.getLast? = some '\\' → BeginsUnmarked m) :
    Veiling (w ++ t) (Mask.all w ++ m) := by
  induction w with
  | nil => exact h
  | cons c w ih =>
    have hrest : Veiling (w ++ t) (Mask.all w ++ m) := by
      refine ih fun hlast => hnext ?_
      rw [getLast?_cons, hlast]
      rfl
    rw [Mask.all, map_cons, ← Mask.all, cons_append, cons_append, Mask.maskChar]
    split_ifs with hbreak
    · exact .same c hrest
    · refine .blank (by simpa using hbreak) ?_ hrest
      rintro rfl d hd
      cases w with
      | nil => exact hnext rfl d hd
      | cons e w =>
        -- the next character is blanked as well
        obtain rfl : maskChar e = d := Option.some.inj hd
        have hblank : isBlank (maskChar e) := isBlank_of_mem_all (mem_map_of_mem (mem_singleton_self e))
        refine ⟨?_, ?_, ?_⟩ <;> intro heq <;> rw [heq] at hblank <;> cases hblank

/-- A literal that is closed where comments are masked is closed in the text too. -/
lemma quotedLength {q : Char} (hq : q = '"' ∨ q = '\'') (h : Veiling t m) {n : Nat}
    (hm : Lexeme.quotedLength q m = some n) : ∃ k, Lexeme.quotedLength q t = some k := by
  have hback : q ≠ '\\' := by rcases hq with rfl | rfl <;> decide
  fun_induction Lexeme.quotedLength q m generalizing t n with
  | case1 => cases hm
  | case2 d rest ih =>
    obtain ⟨j, hj, rfl⟩ := Option.map_eq_some_iff.mp hm
    cases h with
    | same _ h =>
      obtain ⟨e, u, rfl, hu⟩ := h.exists_cons
      obtain ⟨k, hk⟩ := ih hu hj
      exact ⟨k + 2, by simp [Lexeme.quotedLength, hk]⟩
  | case3 c rest hform hc =>
    obtain rfl := beq_iff_eq.mp hc
    cases h with
    | same _ h => exact ⟨1, by rw [quotedLength_cons hback, if_pos rfl]⟩
    | blank => rcases hq with hq | hq <;> exact absurd hq (by decide)
  | case4 => cases hm
  | case5 c rest hform hc hstop ih =>
    obtain ⟨j, hj, rfl⟩ := Option.map_eq_some_iff.mp hm
    simp only [Bool.or_eq_true, beq_iff_eq, not_or] at hc hstop
    cases h with
    | same _ h =>
      obtain ⟨k, hk⟩ := ih h hj
      exact ⟨k + 1, by rw [quotedLength_cons hstop.1, if_neg hc, if_neg hstop.2, hk]; rfl⟩
    | @blank e u _ hbreak hnext h =>
      by_cases hclose : e = q
      · exact ⟨1, by rw [hclose, quotedLength_cons hback, if_pos rfl]⟩
      · by_cases hescape : e = '\\'
        · -- the backslash takes a character along that the masked text passes as an ordinary one
          subst hescape
          cases rest with
          | nil => cases hj
          | cons g rest =>
            obtain ⟨hg, hg', hg''⟩ := hnext rfl g rfl
            have hgq : g ≠ q := by rcases hq with rfl | rfl <;> assumption
            obtain ⟨f, v, rfl, hv⟩ := h.exists_cons
            obtain ⟨k, hk⟩ := ih (.same g hv) hj
            rw [quotedLength_cons hg'', if_neg hgq] at hk
            split_ifs at hk
            obtain ⟨i, hi, _⟩ := Option.map_eq_some_iff.mp hk
            exact ⟨i + 2, by simp [Lexeme.quotedLength, hi]⟩
        · obtain ⟨k, hk⟩ := ih h hj
          exact ⟨k + 1, by rw [quotedLength_cons hescape, if_neg hclose, if_neg (by simp [hbreak]), hk]; rfl⟩

end Veiling

lemma veiling_comments (t : Text) (keep : Bool) : Veiling t (comments t keep) := by
  induction t using scan_induction with
  | nil => exact .nil
  | plain c rest hnone ih =>
    rw [comments_plain hnone]
    exact .same c ih
  | token c rest kind n htoken ih =>
    have hsplit : c :: rest = c :: rest.take n ++ rest.drop n := by rw [cons_append, take_append_drop]
    rw [comments_token htoken, hsplit]
    by_cases hkind : kind.isComment
    · rcases comment_cases htoken hkind with ⟨body, rfl, hw, _, hbehind⟩ | ⟨inner, rfl, hw⟩
      · -- a line break or nothing follows
        have hnext : BeginsUnmarked (comments (rest.drop n) keep) := by
          intro d hd
          have hbreak := (maskedForm_comments (rest.drop n) keep).isBreak_head hbehind d hd
          refine ⟨?_, ?_, ?_⟩ <;> rintro rfl <;> cases hbreak
        rw [hw]
        cases keep with
        | false =>
          rw [veiled_comment rfl]
          exact ih.all_append fun _ => hnext
        | true =>
          rw [veiled_line]
          exact .same '/' (.same '/' (ih.all_append fun _ => hnext))
      · rw [hw]
        cases keep with
        | false =>
          rw [veiled_comment rfl]
          refine ih.all_append fun hlast => ?_
          rw [show '/' :: '*' :: (inner ++ ['*', '/']) = ('/' :: '*' :: inner) ++ ['*', '/'] from rfl,
            getLast?_append] at hlast
          cases hlast
        | true =>
          rw [veiled_block]
          simp only [cons_append, append_assoc]
          refine .same '/' (.same '*' ((ih.append ['*', '/']).all_append fun _ d hd => ?_))
          obtain rfl : '*' = d := by simpa using hd
          decide
    · rw [veiled_literal hkind]
      exact ih.append _

/-! ## Reading a text with comments masked -/

/-- A character that begins no token begins none where comments are masked. -/
lemma tokenAt_comments {c : Char} {rest : Text} (h : tokenAt c rest = none) (keep : Bool) :
    tokenAt c (comments rest keep) = none := by
  by_contra hsome
  obtain ⟨⟨kind, n⟩, hsome⟩ := Option.ne_none_iff_exists'.mp hsome
  have hform := maskedForm_comments rest keep
  have hveiling := veiling_comments rest keep
  have hread := tokenAt_eq_some_iff.mp hsome
  generalize comments rest keep = m at hform hveiling hread
  cases hread with
  | line more =>
    obtain ⟨u, rfl, _⟩ := hform.cons_inv (by decide)
    cases h
  | block hfound =>
    obtain ⟨u, rfl, hu⟩ := hform.cons_inv (by decide)
    have hclosed := (hu.drop _).prefix_of_visible (find?_eq_some_iff.mp hfound).1 (by decide)
    have hnone : find? ['*', '/'] u = none := by simpa [tokenAt] using h
    exact find?_eq_none_iff.mp hnone (hclosed.isInfix.trans (drop_suffix _ u).isInfix)
  | raw hraw =>
    obtain ⟨u, rfl, hu⟩ := hform.cons_inv (by decide)
    obtain ⟨d, more, i, rfl, hd, hlength, hi, _⟩ := rawLength_eq_some_iff.mp hraw
    have hspace : ' ' ∉ d := fun hmem => absurd (hd ' ' hmem) (by decide)
    obtain ⟨v, rfl⟩ : ∃ v, u = d ++ '(' :: v := by
      obtain ⟨v, hv⟩ := hu.prefix_of_visible (w := d ++ ['(']) ⟨more, by simp⟩ (by simp [hspace])
      exact ⟨v, by rw [← hv]; simp⟩
    have hv : MaskedForm v more := by
      have hdrop := hu.drop (d.length + 1)
      rwa [← drop_drop, ← drop_drop, drop_left, drop_left] at hdrop
    have hclosed := (hv.drop i).prefix_of_visible (find?_eq_some_iff.mp hi).1 (by simp [hspace])
    obtain ⟨j, hj⟩ : ∃ j, find? (')' :: d ++ ['"']) v = some j := by
      refine Option.ne_none_iff_exists'.mp fun hnone => ?_
      exact find?_eq_none_iff.mp hnone (hclosed.isInfix.trans (drop_suffix i v).isInfix)
    have hread := rawLength_eq_some_iff.mpr ⟨d, v, j, rfl, hd, hlength, hj, rfl⟩
    simp [tokenAt, hread] at h
  | string hn =>
    obtain ⟨k, hk⟩ := hveiling.quotedLength (.inl rfl) hn
    simp [tokenAt, hk] at h
  | char hn =>
    obtain ⟨k, hk⟩ := hveiling.quotedLength (.inr rfl) hn
    simp [tokenAt, hk] at h

lemma scan_veiled_append {c : Char} {rest : Text} {kind : TokenKind} {n : Nat}
    (h : tokenAt c rest = some (kind, n)) (hkind : kind.isComment) :
    scan (veiled true (.token kind (c :: rest.take n)) ++ comments (rest.drop n) true) =
      .token kind (veiled true (.token kind (c :: rest.take n))) :: scan (comments (rest.drop n) true) := by
  rcases comment_cases h hkind with ⟨body, rfl, hw, hbody, hbehind⟩ | ⟨inner, rfl, hw⟩
  · rw [hw, veiled_line]
    refine scan_line_append (fun d hd => ?_) ((maskedForm_comments (rest.drop n) true).isBreak_head hbehind)
    obtain ⟨e, he, rfl⟩ := mem_map.mp hd
    rw [maskChar, hbody e he]
    rfl
  · rw [hw, veiled_block]
    have hstar : '*' ∉ Mask.all inner := fun hmem => absurd (Mask.isBlank_of_mem_all hmem) (by decide)
    exact scan_block_append (@find?_of_notMem ['/'] _ '*' hstar []) _

/-- **A text with comments masked is read like the text itself.** -/
theorem scan_comments (t : Text) (keep : Bool) :
    scan (comments t keep) = (scan t).flatMap (maskedLexemes keep) := by
  induction t using scan_induction with
  | nil => rfl
  | plain c rest hnone ih =>
    rw [comments_plain hnone, scan_plain (tokenAt_comments hnone keep), scan_plain hnone, ih]
    rfl
  | token c rest kind n htoken ih =>
    rw [comments_token htoken, scan_token htoken, flatMap_cons, ← ih]
    by_cases hkind : kind.isComment
    · cases keep with
      | false =>
        rw [veiled_comment hkind, scan_blank_append fun c hc => isBlank_of_mem_all hc]
        simp [maskedLexemes, hkind]
      | true =>
        rw [scan_veiled_append htoken hkind]
        simp [maskedLexemes]
    · -- the literal is closed, and what follows it does not matter
      have hle := (tokenAt_bounds htoken).2
      have hlength : (rest.take n).length = n := length_take_of_le hle
      have hliteral : kind ≠ .lineComment := by
        rintro rfl
        exact hkind rfl
      have htoken' : tokenAt c (rest.take n ++ comments (rest.drop n) keep) = some (kind, n) := by
        refine tokenAt_append (tokenAt_of_append (y := rest.drop n) ?_ hlength.ge) _ fun h => absurd h hliteral
        rw [take_append_drop, htoken]
      have hveiled := veiled_literal hkind keep (c :: rest.take n)
      rw [hveiled, cons_append, scan_token htoken', take_left' hlength, drop_left' hlength]
      simp [maskedLexemes, hkind, hveiled]

/-! ## Masking again -/

variable {t : Text}

lemma veiled_veiled {kind : TokenKind} {w : Text} (h : .token kind w ∈ scan t) (keep : Bool) :
    veiled keep (.token kind (veiled true (.token kind w))) = veiled keep (.token kind w) := by
  by_cases hkind : kind.isComment
  · cases keep with
    | false => rw [veiled_comment hkind, veiled_comment hkind, all_veiled h hkind]
    | true =>
      rcases comment_of_mem h hkind with ⟨body, rfl, rfl, _⟩ | ⟨inner, rfl, rfl⟩
      · simp [veiled_line]
      · simp [veiled_block]
  · simp only [veiled_literal hkind]

lemma length_veiled {l : Lexeme} (h : l ∈ scan t) (keep : Bool) : (veiled keep l).length = l.written.length := by
  cases l with
  | plain c => rfl
  | token kind w =>
    simp only [veiled, written]
    split
    · exact (maskedForm_replaceInside _ (enclosing_le_of_mem_scanFrom h)).length_eq
    · rfl

lemma literalsFrom_append_plain (offset : Nat) (w : Text) (l : List Lexeme) :
    literalsFrom offset (w.map .plain ++ l) = literalsFrom (offset + w.length) l := by
  induction w generalizing offset with
  | nil => rfl
  | cons c w ih =>
    rw [map_cons, cons_append, literalsFrom, ih, length_cons, Nat.add_assoc, Nat.add_comm 1]

lemma literalsFrom_maskedLexemes {l : List Lexeme} (h : ∀ x ∈ l, x ∈ scan t) (keep : Bool) (offset : Nat) :
    literalsFrom offset (l.flatMap (maskedLexemes keep)) = literalsFrom offset l := by
  induction l generalizing offset with
  | nil => rfl
  | cons x l ih =>
    obtain ⟨hx, h⟩ := forall_mem_cons.mp h
    have ih := ih h
    cases x with
    | plain c => exact ih (offset + 1)
    | token kind w =>
      have hlength : (veiled keep (.token kind w)).length = w.length := length_veiled hx keep
      by_cases hkind : kind.isComment
      · have hskip : literalsFrom offset (.token kind w :: l) = literalsFrom (offset + w.length) l := if_pos hkind
        rw [hskip, ← ih, ← hlength]
        cases keep with
        | false =>
          rw [veiled_comment hkind, ← literalsFrom_append_plain]
          simp [maskedLexemes, hkind]
        | true => simp [maskedLexemes, literalsFrom, hkind]
      · rw [literalsFrom, ← ih]
        simp [maskedLexemes, literalsFrom, hkind, veiled_literal hkind]

lemma veiled_maskedLexemes {l : Lexeme} (h : l ∈ scan t) (keep : Bool) :
    (maskedLexemes keep l).flatMap (veiled keep) = veiled keep l := by
  cases l with
  | plain c => rfl
  | token kind w =>
    by_cases hkind : kind.isComment
    · cases keep with
      | false => simp [maskedLexemes, hkind, veiled_comment hkind, flatMap_veiled_plain]
      | true => simp [maskedLexemes, veiled_veiled h]
    · simp [maskedLexemes, hkind, veiled_literal hkind]

/-- What is read of a masked comment depends on the comment alone, if its enclosing characters are kept. -/
lemma flatMap_scan_comments {f : Lexeme → Text} (t : Text)
    (h : ∀ kind w, .token kind w ∈ scan t → f (.token kind (veiled true (.token kind w))) = f (.token kind w)) :
    (scan (comments t true)).flatMap f = (scan t).flatMap f := by
  rw [scan_comments, flatMap_assoc]
  refine flatMap_congr fun l hl => ?_
  cases l with
  | plain c => simp [maskedLexemes]
  | token kind w => simp [maskedLexemes, h kind w hl]

/-- **Masking comments disturbs nothing else.** Literals stay as they are, masking again changes nothing, and comments
can be masked whole after their insides were masked. -/
theorem comments_keeps_literals (t : Text) (keep : Bool) :
    literals (Mask.comments t keep) = literals t ∧
      Mask.comments (Mask.comments t keep) keep = Mask.comments t keep ∧
      Mask.comments (Mask.comments t true) false = Mask.comments t false ∧
      Mask.removeComments (Mask.comments t true) = Mask.removeComments t := by
  refine ⟨?_, ?_, ?_, ?_⟩
  · rw [literals, scan_comments]
    exact literalsFrom_maskedLexemes (fun _ hx => hx) keep 0
  · rw [comments_eq (Mask.comments t keep), scan_comments, List.flatMap_assoc]
    exact List.flatMap_congr fun l hl => veiled_maskedLexemes hl keep
  · exact flatMap_scan_comments t fun kind w h => veiled_veiled h false
  · rw [removeComments_eq, removeComments_eq]
    refine flatMap_scan_comments t fun kind w h => ?_
    by_cases hkind : kind.isComment
    · rcases comment_of_mem h hkind with ⟨_, rfl, _⟩ | ⟨_, rfl, _⟩ <;> rfl
    · rw [veiled_literal hkind]

end Lexeme

end CppScaffold
