import CppScaffold.Proofs.Lexemes
import CppScaffold.Proofs.Starts

/-!
# The comment before an entity

Block comments are searched where comments are masked, line comments line by line, without a look at the last line of
their run. So code can get between comment and entity on the line directly before the entity only.
-/

namespace CppScaffold

open Text List Lexeme Mask

def TokenKind.isComment : TokenKind → Bool
  | .lineComment | .blockComment => true
  | _ => false

namespace Lexeme

/-- No lexeme runs across an offset: the text is read in two parts. -/
def CutAt (t : Text) (o : Nat) : Prop := scan t = scan (t.take o) ++ scan (t.drop o)

instance (t : Text) (o : Nat) : Decidable (CutAt t o) :=
  inferInstanceAs (Decidable (scan t = scan (t.take o) ++ scan (t.drop o)))

/-! ## Masked comments, lexeme by lexeme -/

def veiled (keep : Bool) : Lexeme → Text
  | .plain c => [c]
  | .token kind w =>
    match chooseComments keep kind with
    | some keep => replaceInside kind keep all w
    | none => w

lemma comments_eq (t : Text) (keep : Bool) : comments t keep = (scan t).flatMap (veiled keep) := rfl

lemma comments_append {x y : Text} (h : scan (x ++ y) = scan x ++ scan y) (keep : Bool) :
    comments (x ++ y) keep = comments x keep ++ comments y keep := by
  rw [comments_eq, h, flatMap_append, ← comments_eq, ← comments_eq]

variable {t : Text}

lemma comments_take_append_drop {o : Nat} (h : CutAt t o) (keep : Bool) :
    comments t keep = comments (t.take o) keep ++ comments (t.drop o) keep := by
  have happend := @comments_append (t.take o) (t.drop o) (by rw [take_append_drop]; exact h) keep
  rwa [take_append_drop] at happend

lemma veiled_comment {kind : TokenKind} (h : kind.isComment) (w : Text) :
    veiled false (.token kind w) = Mask.all w := by
  cases kind <;> simp [veiled, chooseComments, replaceInside, between, TokenKind.isComment] at h ⊢

lemma veiled_literal {kind : TokenKind} (h : ¬ kind.isComment) (keep : Bool) (w : Text) :
    veiled keep (.token kind w) = w := by
  cases kind <;> simp [veiled, chooseComments, TokenKind.isComment] at h ⊢

lemma flatMap_veiled_plain (keep : Bool) (x : Text) : (x.map plain).flatMap (veiled keep) = x := by
  rw [flatMap_map]
  exact flatMap_singleton' _

lemma veiled_line (body : Text) : veiled true (.token .lineComment ('/' :: '/' :: body)) = '/' :: '/' :: all body := by
  simp [veiled, chooseComments, replaceInside, enclosing, between]

lemma veiled_block (inner : Text) : veiled true (.token .blockComment ('/' :: '*' :: (inner ++ ['*', '/']))) =
    '/' :: '*' :: (Mask.all inner ++ ['*', '/']) := by
  simp [veiled, Mask.chooseComments, Mask.replaceInside, Mask.enclosing, between]

lemma comment_cases {kind : TokenKind} {c : Char} {rest : Text} {n : Nat} (h : tokenAt c rest = some (kind, n))
    (hkind : kind.isComment) :
    (∃ body, kind = .lineComment ∧ c :: rest.take n = '/' :: '/' :: body ∧ (∀ d ∈ body, isBreak d = false) ∧
      ∀ d, (rest.drop n).head? = some d → isBreak d) ∨
    ∃ inner, kind = .blockComment ∧ c :: rest.take n = '/' :: '*' :: (inner ++ ['*', '/']) := by
  cases tokenAt_eq_some_iff.mp h with
  | line more =>
    refine .inl ⟨more.takeWhile (!isBreak ·), rfl, ?_, fun d hd => ?_, fun d hd => ?_⟩
    · rw [Nat.add_comm]
      exact congrArg ('/' :: '/' :: ·) (prefix_iff_eq_take.mp <| takeWhile_prefix _).symm
    · simpa using mem_takeWhile_imp hd
    · rw [Nat.add_comm, drop_succ_cons, drop_length_takeWhile] at hd
      have hnot := head?_dropWhile_not (!isBreak ·) more
      rw [hd] at hnot
      simpa using hnot
  | @block more i hfound =>
    obtain ⟨closing, hclosing⟩ := (find?_eq_some_iff.mp hfound).1
    refine .inr ⟨more.take i, rfl, ?_⟩
    rw [show 1 + i + 2 = (i + 2) + 1 by omega, take_succ_cons, take_add, ← hclosing]
    rfl
  | raw => cases hkind
  | string => cases hkind
  | char => cases hkind

lemma comment_of_mem {kind : TokenKind} {w : Text} (h : .token kind w ∈ scan t) (hkind : kind.isComment) :
    (∃ body, kind = .lineComment ∧ w = '/' :: '/' :: body ∧ ∀ c ∈ body, isBreak c = false) ∨
      ∃ inner, kind = .blockComment ∧ w = '/' :: '*' :: (inner ++ ['*', '/']) := by
  obtain ⟨c, rest, n, hread, _, rfl⟩ := tokenRead_of_mem h
  rcases comment_cases (tokenAt_eq_some_iff.mpr hread) hkind with ⟨body, rfl, hw, hbody, _⟩ | ⟨inner, rfl, hw⟩
  · exact .inl ⟨body, rfl, hw, hbody⟩
  · exact .inr ⟨inner, rfl, hw⟩

lemma all_veiled {kind : TokenKind} {w : Text} (h : .token kind w ∈ scan t) (hkind : kind.isComment) :
    Mask.all (veiled true (.token kind w)) = Mask.all w := by
  rcases comment_of_mem h hkind with ⟨body, rfl, rfl, _⟩ | ⟨inner, rfl, rfl⟩
  · rw [veiled_line, Mask.all, map_cons, map_cons, ← Mask.all, Mask.all_all]
    rfl
  · rw [veiled_block, Mask.all, map_cons, map_cons, map_append, ← Mask.all]
    simp [Mask.all]

lemma maskedForm_veiled {l : Lexeme} (h : l ∈ scan t) : Mask.MaskedForm (veiled true l) (veiled false l) := by
  cases l with
  | plain c => exact .refl _
  | token kind w =>
    by_cases hkind : kind.isComment
    · rw [veiled_comment hkind, ← all_veiled h hkind]
      exact Mask.maskedForm_all _
    · rw [veiled_literal hkind, veiled_literal hkind]
      exact .refl _

lemma maskedForm_flatMap_veiled {l : List Lexeme} (h : ∀ x ∈ l, x ∈ scan t) :
    MaskedForm (l.flatMap (veiled true)) (l.flatMap (veiled false)) :=
  MaskedForm.flatMap fun x hx => maskedForm_veiled (h x hx)

lemma exists_lexeme {f : Lexeme → Text} {l : List Lexeme} {i : Nat} (h : i < (l.flatMap f).length) :
    ∃ l₁ x l₂ k, l = l₁ ++ x :: l₂ ∧ i = (l₁.flatMap f).length + k ∧ k < (f x).length := by
  induction l generalizing i with
  | nil => simp at h
  | cons x rest ih =>
    rw [flatMap_cons, length_append] at h
    by_cases hi : i < (f x).length
    · exact ⟨[], x, rest, i, rfl, by simp, hi⟩
    · obtain ⟨l₁, y, l₂, k, rfl, hik, hk⟩ := ih (i := i - (f x).length) (by omega)
      exact ⟨x :: l₁, y, l₂, k, rfl, by rw [flatMap_cons, length_append]; omega, hk⟩

lemma getElem?_flatMap {f : Lexeme → Text} {l₁ l₂ : List Lexeme} {x : Lexeme} {k : Nat} (hk : k < (f x).length) :
    ((l₁ ++ x :: l₂).flatMap f)[(l₁.flatMap f).length + k]? = (f x)[k]? := by
  rw [flatMap_append, flatMap_cons, getElem?_append_right (by omega), Nat.add_sub_cancel_left, getElem?_append_left hk]

/-- The star before the last slash of a block comment with a blank inside is the one of its closing mark. -/
lemma getElem?_hollow_eq_star {inner : Text} (hinner : ∀ c ∈ inner, isBlank c) {k : Nat}
    (hstar : ('/' :: '*' :: (inner ++ ['*', '/']))[k]? = some '*')
    (hnext : k + 1 < ('/' :: '*' :: (inner ++ ['*', '/'])).length →
      ('/' :: '*' :: (inner ++ ['*', '/']))[k + 1]? = some '/') : k = inner.length + 2 := by
  rcases k with _ | _ | k
  · simp at hstar
  · cases inner with
    | nil => simp at hnext
    | cons c inner =>
      obtain rfl : c = '/' := by simpa using hnext
      exact absurd (hinner '/' mem_cons_self) (by decide)
  · rw [getElem?_cons_succ, getElem?_cons_succ] at hstar
    rcases Nat.lt_trichotomy k inner.length with hlt | heq | hgt
    · rw [getElem?_append_left hlt] at hstar
      exact absurd (hinner '*' (mem_of_getElem? hstar)) (by decide)
    · rw [heq]
    · rw [getElem?_append_right (by omega)] at hstar
      obtain ⟨j, hj⟩ : ∃ j, k - inner.length = j + 1 := ⟨k - inner.length - 1, by omega⟩
      rw [hj, getElem?_cons_succ] at hstar
      have hmem := mem_of_getElem? hstar
      simp at hmem

/-- A star and a slash that belong to comments end a block comment. -/
lemma exists_block {i : Nat} (hstar : (Mask.comments t true)[i]? = some '*')
    (hslash : (Mask.comments t true)[i + 1]? = some '/')
    (hblank : ∀ c, (Mask.comments t false)[i]? = some c → isBlank c) :
    ∃ l₁ inner l₂, scan t = l₁ ++ .token .blockComment ('/' :: '*' :: (inner ++ ['*', '/'])) :: l₂ ∧
      i = (l₁.flatMap (veiled true)).length + (inner.length + 2) := by
  rw [comments_eq] at hstar hslash hblank
  obtain ⟨l₁, x, l₂, k, hscan, rfl, hk⟩ := exists_lexeme (List.getElem?_eq_some_iff.mp hstar).1
  have hx : x ∈ scan t := by simp [hscan]
  have hmasked := maskedForm_veiled hx
  have hlength := (maskedForm_flatMap_veiled (t := t) (l := l₁) fun y hy => by simp [hscan, hy]).length_eq
  rw [hscan, getElem?_flatMap hk] at hstar
  rw [hscan, ← hlength, getElem?_flatMap (by rw [hmasked.length_eq]; exact hk)] at hblank
  have hsame : veiled false x ≠ veiled true x := by
    intro heq
    rw [heq, hstar] at hblank
    exact absurd (hblank '*' rfl) (by decide)
  cases x with
  | plain c => exact absurd rfl hsame
  | token kind w =>
    by_cases hkind : kind.isComment
    · rcases comment_of_mem hx hkind with ⟨body, rfl, rfl, _⟩ | ⟨inner, rfl, rfl⟩
      · -- no star is visible in a line comment
        rw [veiled_line] at hstar
        have hmem := mem_of_getElem? hstar
        simp only [mem_cons, Char.reduceEq, false_or] at hmem
        exact absurd (Mask.isBlank_of_mem_all hmem) (by decide)
      · refine ⟨l₁, inner, l₂, hscan, ?_⟩
        have hnext : k + 1 < (veiled true (.token .blockComment ('/' :: '*' :: (inner ++ ['*', '/'])))).length →
            (veiled true (.token .blockComment ('/' :: '*' :: (inner ++ ['*', '/']))))[k + 1]? = some '/' := by
          intro hlt
          rwa [hscan, Nat.add_assoc, getElem?_flatMap hlt] at hslash
        rw [veiled_block] at hstar hnext
        rw [(getElem?_hollow_eq_star (fun c hc => Mask.isBlank_of_mem_all hc) hstar hnext), Mask.all, length_map]
    · exact absurd (by rw [veiled_literal hkind, veiled_literal hkind]) hsame

/-! ## Line comments -/

lemma comments_blank_append {x : Text} (hx : ∀ c ∈ x, isBlank c) (y : Text) (keep : Bool) :
    comments (x ++ y) keep = x ++ comments y keep := by
  rw [comments_eq, scan_blank_append hx, flatMap_append, flatMap_veiled_plain, ← comments_eq]

end Lexeme

namespace TextDocument

variable (d : TextDocument) {n last : Nat}

lemma drop_lineStart (hn : n < d.lineCount) :
    d.text.drop (d.lineStart n) = (d.lineAt n).text ++ (d.breakAfter n ++ d.text.drop (d.lineStart (n + 1))) := by
  rw [d.lineAt_of_lt hn, breakAfter, ← drop_eq_between_append _ (d.lineEnd_le_next hn),
    ← drop_eq_between_append _ (d.lineStart_le_lineEnd hn)]

lemma lineStart_succ (hn : n < d.lineCount) :
    d.lineStart (n + 1) = d.lineStart n + (d.lineAt n).text.length + (d.breakAfter n).length := by
  have hle := d.lineStart_le_lineEnd hn
  have hnext := d.lineEnd_le_next hn
  have hbound : d.lineStart (n + 1) ≤ d.text.length :=
    (d.lineStart_le_lineStart (Nat.le_max_left ..)).trans_eq (d.lineStart_of_le (Nat.le_max_right ..))
  rw [d.length_lineAt hn, breakAfter, length_between]
  omega

lemma isBreak_after_line {c : Char} (hn : n < d.lineCount)
    (hc : (d.breakAfter n ++ d.text.drop (d.lineStart (n + 1))).head? = some c) : isBreak c := by
  rcases d.lt_or_last hn with hnext | hlast
  · refine d.isBreak_of_mem_breakAfter hn (mem_of_head? ?_)
    rcases d.breakAfter_cases hnext with ⟨-, hbreak⟩ | ⟨-, -, hbreak | hbreak⟩
    all_goals
      rw [hbreak] at hc ⊢
      exact hc
  · rw [d.breakAfter_last hlast, d.lineStart_of_le (Nat.le_of_eq hlast.symm), drop_length] at hc
    cases hc

lemma isBreak_of_mem_lineAt (hn : n < d.lineCount) {c : Char} (hc : c ∈ (d.lineAt n).text) : isBreak c = false := by
  rw [d.lineAt_of_lt hn] at hc
  exact d.isBreak_of_mem_between hn (Nat.le_refl _) (Nat.le_refl _) hc

/-- A line begins with a line comment. -/
def BeginsWithComment (n : Nat) : Prop := ['/', '/'] <+: trimStart (d.lineAt n).text

lemma exists_indent (h : d.BeginsWithComment n) :
    ∃ indent body, (d.lineAt n).text = indent ++ '/' :: '/' :: body ∧ (∀ c ∈ indent, isBlank c) ∧
      find? ['/', '/'] (d.lineAt n).text = some indent.length := by
  obtain ⟨body, hbody⟩ := h
  generalize (d.lineAt n).text = line at hbody ⊢
  have hindent : ∀ c ∈ line.takeWhile isBlank, isBlank c := fun c hc => mem_takeWhile_imp hc
  have hline : line = line.takeWhile isBlank ++ '/' :: '/' :: body :=
    calc line = line.takeWhile isBlank ++ trimStart line := takeWhile_append_dropWhile.symm
      _ = line.takeWhile isBlank ++ '/' :: '/' :: body := by rw [← hbody]; rfl
  generalize line.takeWhile isBlank = indent at hline hindent
  subst hline
  refine ⟨indent, body, rfl, hindent, find?_eq_some_iff.mpr ⟨?_, fun j hj hslashes => ?_⟩⟩
  · rw [drop_left]
    exact ⟨body, rfl⟩
  · have hslash := getElem?_of_prefix_drop hslashes (i := 0) (by simp)
    rw [Nat.add_zero, getElem?_append_left hj] at hslash
    exact absurd (hindent '/' (mem_of_getElem? hslash)) (by decide)

/-- A line that begins with a line comment holds nothing else. -/
lemma blankBetween_comments_line {k : Nat} (hn : n < d.lineCount) (h : d.BeginsWithComment n)
    (hk : ∀ i, find? ['/', '/'] (d.lineAt n).text = some i → k ≤ i)
    (hrest : BlankBetween (Mask.comments (d.text.drop (d.lineStart (n + 1))) false) 0
      (d.lineStart last - d.lineStart (n + 1))) :
    BlankBetween (Mask.comments (d.text.drop (d.lineStart n + k)) false) 0
      (d.lineStart last - (d.lineStart n + k)) := by
  obtain ⟨indent, body, hline, hindent, hfound⟩ := d.exists_indent h
  have hnext := d.lineStart_succ hn
  have hki := hk _ hfound
  have hbody : ∀ c ∈ body, isBreak c = false := fun c hc => d.isBreak_of_mem_lineAt hn (by rw [hline]; simp [hc])
  have htext : d.text.drop (d.lineStart n + k) =
      indent.drop k ++ ('/' :: '/' :: (body ++ (d.breakAfter n ++ d.text.drop (d.lineStart (n + 1))))) := by
    rw [← drop_drop, d.drop_lineStart hn, hline, append_assoc, drop_append_of_le_length hki]
    rfl
  have hlength : (d.lineAt n).text.length = indent.length + (body.length + 2) := by
    rw [hline]
    simp
  have hindentBlank : ∀ c ∈ indent.drop k, isBlank c := fun c hc => hindent c (mem_of_mem_drop hc)
  have hcommentBlank : ∀ c ∈ Mask.all ('/' :: '/' :: body), isBlank c := fun c hc => Mask.isBlank_of_mem_all hc
  have hbreakBlank : ∀ c ∈ d.breakAfter n, isBlank c :=
    fun c hc => Mask.isBlank_of_isBreak (d.isBreak_of_mem_breakAfter hn hc)
  rw [htext, comments_blank_append hindentBlank, comments_eq,
    scan_line_append hbody fun c hc => d.isBreak_after_line hn hc, flatMap_cons, veiled_comment rfl, ← comments_eq,
    comments_blank_append hbreakBlank]
  refine (BlankBetween.append hindentBlank (.append hcommentBlank (.append hbreakBlank hrest))).mono (Nat.le_refl 0) ?_
  rw [length_drop, Mask.all, length_map, length_cons, length_cons]
  omega

lemma blankBetween_comments_lines (hle : n ≤ last) (h : ∀ m, n ≤ m → m < last → d.BeginsWithComment m) :
    BlankBetween (comments (d.text.drop (d.lineStart n)) false) 0 (d.lineStart last - d.lineStart n) := by
  induction hk : last - n generalizing n with
  | zero =>
    obtain rfl : n = last := by omega
    rw [Nat.sub_self]
    exact .empty _ _
  | succ k ih =>
    rcases Nat.lt_or_ge n d.lineCount with hn | hn
    · have hrest := ih (n := n + 1) (by omega) (fun m hm => h m (by omega)) (by omega)
      exact d.blankBetween_comments_line (k := 0) hn (h n (Nat.le_refl n) (by omega)) (fun _ _ => Nat.zero_le _) hrest
    · rw [d.lineStart_of_le hn, d.lineStart_of_le (show d.lineCount ≤ last by omega), Nat.sub_self]
      exact .empty _ _

lemma blankBetween_comments_first {first i : Nat} (hlt : first < last)
    (h : ∀ m, first ≤ m → m < last → d.BeginsWithComment m)
    (hfound : find? ['/', '/'] (d.lineAt first).text = some i) (hcut : CutAt d.text (d.offsetAt ⟨first, i⟩)) :
    BlankBetween (comments d.text false) (d.offsetAt ⟨first, i⟩) (d.lineStart last) ∧
      d.offsetAt ⟨first, i⟩ ≤ d.lineStart last := by
  rcases Nat.lt_or_ge first d.lineCount with hn | hn
  · have hi := add_length_le_of_find? hfound (by simp)
    rw [d.length_lineAt hn, length_cons] at hi
    have hoffset : d.offsetAt ⟨first, i⟩ = d.lineStart first + i := by
      have := d.offsetAt_of_line hn i
      omega
    have hnext := d.lineStart_succ hn
    have hmono := d.lineStart_le_lineStart (show first + 1 ≤ last from hlt)
    have hlength := d.length_lineAt hn
    have hlines := d.blankBetween_comments_lines (show first + 1 ≤ last from hlt) fun m hm => h m (by omega)
    have hline := d.blankBetween_comments_line hn (h first (Nat.le_refl _) hlt)
      (fun j hj => Nat.le_of_eq (Option.some.inj (hfound.symm.trans hj))) hlines
    have htake : (comments (d.text.take (d.lineStart first + i)) false).length = d.lineStart first + i := by
      rw [(maskedForm_comments _ _).length_eq, length_take]
      have := d.lineEnd_le_length hn
      omega
    rw [hoffset] at hcut ⊢
    have hshift := hline.shift (x := comments (d.text.take (d.lineStart first + i)) false)
    rw [← comments_take_append_drop hcut, htake,
      show d.lineStart first + i + (d.lineStart last - (d.lineStart first + i)) = d.lineStart last by omega] at hshift
    exact ⟨hshift, by omega⟩
  · rw [d.offsetAt_of_lineCount_le (p := ⟨first, i⟩) (by simpa using hn), d.lineStart_of_le (by omega)]
    exact ⟨.empty _ _, Nat.le_refl _⟩

/-- The line before the one on which a position lies begins no later than the line before that of the position. -/
lemma lineStart_pred_le (p : Position) (c : Int) :
    d.lineStart (d.lineOf (d.offsetAt p) - 1) ≤ d.offsetAt ⟨p.line - 1, c⟩ := by
  have hfirst : d.lineStart 0 = 0 := rfl
  have hlast := d.lineOf_lt (d.offsetAt p)
  rcases d.line_cases p with hneg | hge | ⟨n, hn, k, rfl⟩
  · have hzero : d.lineOf 0 = 0 := d.lineOf_eq (by omega) (Nat.le_refl 0) (Nat.zero_le _)
    rw [d.offsetAt_of_line_neg hneg, hzero]
    exact Nat.zero_le _
  · rcases Int.lt_or_le (p.line - 1) d.lineCount with hlt | hge'
    · obtain ⟨n, hn⟩ : ∃ n : Nat, p.line - 1 = n := ⟨(p.line - 1).toNat, by omega⟩
      have hmono := d.lineStart_le_lineStart (show d.lineOf (d.offsetAt p) - 1 ≤ n by omega)
      have hbounds := d.offsetAt_bounds_of_line (n := n) (by omega) c
      rw [hn]
      omega
    · rw [d.offsetAt_of_lineCount_le (p := ⟨p.line - 1, c⟩) hge']
      exact d.lineStart_le_length (by omega)
  · obtain ⟨hstart, hend⟩ := d.offsetAt_bounds_of_line hn k
    rw [d.lineOf_eq hn hstart hend]
    cases n with
    | zero => exact Nat.zero_le _
    | succ n =>
      have hbounds := d.offsetAt_bounds_of_line (n := n) (by omega) c
      simp only [Nat.add_sub_cancel, Int.natCast_succ, Int.add_sub_cancel]
      omega

section Gap

/-! The blanks that are dropped before an entity hold at most one line break, so the mark before them stands on
the line of the entity or on the one before. -/

variable {d} {s q : Nat} {m marked space lineBreak indent : Text}
  (hmasked : MaskedForm (d.text.take s) m) (hm : m = marked ++ (space ++ (lineBreak ++ indent)))
  (hspace : ∀ c ∈ space, isSpaceOrTab c = true) (hindent : ∀ c ∈ indent, isSpaceOrTab c = true)
  (hbreak : lineBreak = [] ∨ lineBreak = ['\n'] ∨ lineBreak = ['\r', '\n'])
  (hmarked : ∀ i c, q ≤ i → marked[i]? = some c → isBreak c = false)

include hmasked hm hspace hindent hbreak hmarked

lemma eq_of_breakEndsAt_gap {x : Nat} (hqx : q < x) (hxs : x ≤ s) (hends : BreakEndsAt d.text x) :
    x = marked.length + (space.length + lineBreak.length) := by
  obtain ⟨k, rfl⟩ : ∃ k, x = k + 1 := ⟨x - 1, by omega⟩
  obtain ⟨c, hc, hcbreak, hlone⟩ : ∃ c, d.text[k]? = some c ∧ isBreak c ∧
      (c = '\r' → d.text[k + 1]? ≠ some '\n') := by
    rcases hends with h | ⟨h, hnext⟩
    · exact ⟨'\n', h, by decide, fun heq => absurd heq (by decide)⟩
    · exact ⟨'\r', h, by decide, fun _ => hnext⟩
  have hnotSpace : ∀ {y : Text}, (∀ c ∈ y, isSpaceOrTab c) → ∀ i : Nat, y[i]? ≠ some c := by
    intro y hy i hi
    have hboth := hy c (mem_of_getElem? hi)
    simp only [isBreak, isSpaceOrTab, Bool.or_eq_true, beq_iff_eq] at hcbreak hboth
    rcases hcbreak with rfl | rfl <;> simp at hboth
  have hmk : m[k]? = some c :=
    (hmasked.break_at k c hcbreak).mpr (by rw [getElem?_take_of_lt (by omega), hc])
  rw [hm] at hmk
  have hk : marked.length ≤ k := by
    by_contra hlt
    rw [getElem?_append_left (by omega)] at hmk
    rw [hmarked k c (by omega) hmk] at hcbreak
    cases hcbreak
  rw [getElem?_append_right hk] at hmk
  have hk' : space.length ≤ k - marked.length := by
    by_contra hlt
    rw [getElem?_append_left (by omega)] at hmk
    exact hnotSpace hspace _ hmk
  rw [getElem?_append_right hk'] at hmk
  have hk'' : k - marked.length - space.length < lineBreak.length := by
    by_contra hge
    rw [getElem?_append_right (by omega)] at hmk
    exact hnotSpace hindent _ hmk
  rcases hbreak with rfl | rfl | rfl
  · simp at hk''
  · simp only [length_singleton] at hk'' ⊢
    omega
  · simp only [length_cons, length_nil] at hk'' ⊢
    by_contra hne
    obtain rfl : k = marked.length + space.length := by omega
    have hnext : m[marked.length + space.length + 1]? = some '\n' := by
      rw [hm, getElem?_append_right (by omega), getElem?_append_right (by omega),
        show marked.length + space.length + 1 - marked.length - space.length = 1 by omega]
      rfl
    have hreturn : c = '\r' := by
      rw [show marked.length + space.length - marked.length - space.length = 0 by omega] at hmk
      exact (Option.some.inj hmk).symm
    have htext := (hmasked.break_at _ '\n' rfl).mp hnext
    have hlt := (List.getElem?_eq_some_iff.mp htext).1
    rw [length_take] at hlt
    rw [getElem?_take_of_lt (by omega)] at htext
    exact hlone hreturn htext

lemma lineStart_pred_le_of_gap : d.lineStart (d.lineOf s - 1) ≤ q := by
  have honly : ∀ x, q < x → x ≤ s → BreakEndsAt d.text x → x = marked.length + (space.length + lineBreak.length) :=
    fun x hqx hxs hends => eq_of_breakEndsAt_gap hmasked hm hspace hindent hbreak hmarked hqx hxs hends
  by_contra hlt
  have hfirst : d.lineStart 0 = 0 := rfl
  have hlast := d.lineOf_lt s
  have hpos : 0 < d.lineOf s - 1 := by
    by_contra hzero
    rw [show d.lineOf s - 1 = 0 by omega] at hlt
    omega
  have hle := d.lineStart_lineOf_le s
  have hless := d.lineStart_lt_lineStart (show d.lineOf s - 1 < d.lineOf s by omega) hlast
  have hprevious := honly _ (by omega) (by omega) (d.breakEndsAt_lineStart hpos (by omega))
  have hcurrent := honly _ (by omega) hle (d.breakEndsAt_lineStart (by omega) hlast)
  omega

end Gap

end TextDocument

namespace Entity

variable (e : Entity)

lemma beginsWithComment_of_firstCommentLine_le {d : TextDocument} {n m : Nat} (h : firstCommentLine d n ≤ m)
    (hm : m < n) : d.BeginsWithComment m := by
  induction n with
  | zero => omega
  | succ n ih =>
    rw [firstCommentLine] at h
    split at h
    next hline =>
      rcases Nat.lt_succ_iff_lt_or_eq.mp hm with hm | rfl
      · exact ih h hm
      · exact isPrefixOf_iff_prefix.mp hline
    next => omega

/-- The last mark that opens a comment in a text that ends with a masked block comment is the one of that comment. -/
lemma findLast?_hollow {before inner : Text} (hinner : ∀ c ∈ inner, isBlank c) :
    findLast? ['/', '*'] (before ++ '/' :: '*' :: (inner ++ ['*', '/'])) = some before.length := by
  refine (findLast?_eq_some_iff (by simp)).mpr ⟨?_, fun j hj hmark => ?_⟩
  · rw [drop_left]
    exact ⟨inner ++ ['*', '/'], rfl⟩
  · obtain ⟨k, rfl⟩ : ∃ k, j = before.length + (k + 1) := ⟨j - before.length - 1, by omega⟩
    rw [← drop_drop, drop_left, drop_succ_cons] at hmark
    have hslash := getElem?_of_prefix_drop hmark (i := 0) (by simp)
    have hstar := getElem?_of_prefix_drop hmark (i := 1) (by simp)
    rcases k with _ | k
    · simp at hslash
    · rw [getElem?_cons_succ] at hslash hstar
      rcases Nat.lt_trichotomy k inner.length with hlt | rfl | hgt
      · rw [getElem?_append_left hlt] at hslash
        exact absurd (hinner '/' (mem_of_getElem? hslash)) (by decide)
      · rw [getElem?_append_right (Nat.le_refl _)] at hslash
        simp at hslash
      · have hlength := (List.getElem?_eq_some_iff.mp hstar).1
        rw [length_append, length_cons, length_singleton] at hlength
        omega

/-- If the closing mark of a block comment belongs to a comment, only this comment and blanks stand before the entity.
-/
lemma blankBetween_block {t m gap : Text} {j : Nat} (hm : Mask.comments t true = m ++ gap)
    (hgap : ∀ c ∈ gap, isBlank c) (hends : ['*', '/'] <:+ m) (hfound : findLast? ['/', '*'] m = some j)
    (hmark : ∀ c, (Mask.comments t false)[m.length - 2]? = some c → isBlank c) :
    BlankBetween (Mask.comments t false) j t.length := by
  obtain ⟨before, rfl⟩ := hends
  have hstar : (Mask.comments t true)[before.length]? = some '*' := by
    rw [hm, append_assoc, getElem?_append_right (Nat.le_refl _), Nat.sub_self]
    rfl
  have hslash : (Mask.comments t true)[before.length + 1]? = some '/' := by
    rw [hm, append_assoc, getElem?_append_right (by omega), Nat.add_sub_cancel_left]
    rfl
  rw [length_append, length_cons, length_singleton] at hmark
  obtain ⟨l₁, inner, l₂, hscan, hbefore⟩ := exists_block hstar hslash hmark
  have hinner : ∀ c ∈ Mask.all inner, isBlank c := fun c hc => Mask.isBlank_of_mem_all hc
  -- what is shown of the comment ends where the gap begins
  have hshown : l₁.flatMap (veiled true) ++ '/' :: '*' :: (Mask.all inner ++ ['*', '/']) = before ++ ['*', '/'] ∧
      l₂.flatMap (veiled true) = gap := by
    rw [comments_eq, hscan, flatMap_append, flatMap_cons, veiled_block, ← append_assoc] at hm
    refine append_inj hm ?_
    simp only [length_append, length_cons, length_nil, Mask.all, length_map]
    omega
  rw [← hshown.1, findLast?_hollow hinner] at hfound
  obtain rfl := Option.some.inj hfound
  have hfirst := maskedForm_flatMap_veiled (t := t) (l := l₁) fun x hx => by simp [hscan, hx]
  have hrest := maskedForm_flatMap_veiled (t := t) (l := l₂) fun x hx => by simp [hscan, hx]
  have hblank := BlankBetween.append (fun c hc => Mask.isBlank_of_mem_all hc)
    (BlankBetween.of_forall (hrest.blank (hshown.2 ▸ hgap)) (l₂.flatMap (veiled false)).length)
    (x := Mask.all ('/' :: '*' :: (inner ++ ['*', '/'])))
  have hmasked : Mask.comments t false = l₁.flatMap (veiled false) ++
      (Mask.all ('/' :: '*' :: (inner ++ ['*', '/'])) ++ l₂.flatMap (veiled false)) := by
    rw [comments_eq, hscan, flatMap_append, flatMap_cons, veiled_comment rfl]
  have hlength := congrArg List.length hmasked
  rw [(Mask.maskedForm_comments t false).length_eq, length_append, length_append] at hlength
  rw [hmasked, hlength, ← hfirst.length_eq]
  exact hblank.shift

lemma firstLine_eq_or (e : Entity) : e.firstLine = e.trueStart.line - 1 ∨
    ∃ first last : Nat, e.firstLine = first ∧ e.trueStart.line - 1 = last ∧ first < last ∧
      ∀ m, first ≤ m → m < last → e.document.BeginsWithComment m := by
  have hlt := e.firstLine_lt
  by_cases hsame : e.firstLine = e.trueStart.line - 1
  · exact .inl hsame
  · rw [firstLine] at hlt hsame ⊢
    by_cases hpos : e.trueStart.line - 1 > 0
    · rw [if_pos hpos] at hlt hsame ⊢
      refine .inr ⟨_, (e.trueStart.line - 1).toNat, rfl, by omega, by omega, fun m hm hm' => ?_⟩
      exact beginsWithComment_of_firstCommentLine_le hm hm'
    · rw [if_neg hpos] at hsame
      exact absurd rfl hsame

/-- The begin of the line before that of the entity. -/
abbrev previousLine : Nat := e.document.lineStart (e.document.lineOf (e.document.offsetAt e.trueStart) - 1)

section

variable {e : Entity}

/-- Line comments before the entity: the lines above the last one hold nothing else. -/
lemma blankBetween_lineComments {i : Nat} (hfound : find? ['/', '/'] (e.document.lineAt e.firstLine).text = some i)
    (hcut : CutAt e.document.text (e.document.offsetAt ⟨e.firstLine, i⟩)) :
    let start := e.document.offsetAt ⟨e.firstLine, i⟩
    e.previousLine ≤ start ∨
      ∃ last, BlankBetween (comments e.document.text false) start last ∧ start ≤ last ∧ e.previousLine ≤ last := by
  have hprevious := e.document.lineStart_pred_le e.trueStart
  rcases e.firstLine_eq_or with hfirst | ⟨first, last, hfirst, hlast, hlt, hlines⟩
  · left
    rw [hfirst]
    exact hprevious i
  · right
    rw [hfirst] at hfound hcut ⊢
    have hle := hprevious 0
    rw [hlast, e.document.offsetAt_lineStart] at hle
    obtain ⟨hblank, hbound⟩ := e.document.blankBetween_comments_first hlt hlines hfound hcut
    exact ⟨e.document.lineStart last, hblank, hbound, hle⟩

/-- The closing mark of a block comment before the entity stands on its line or on the one before. -/
lemma lineStart_pred_le_mark (hends : ['*', '/'] <:+ e.maskedBefore) :
    e.previousLine ≤ e.maskedBefore.length - 2 := by
  obtain ⟨space, lineBreak, indent, hgap, hspace, hindent, hbreak⟩ :=
    exists_gap (comments (e.document.getText ⟨.zero, e.trueStart⟩) true)
  have hmasked := maskedForm_comments (e.document.getText ⟨.zero, e.trueStart⟩) true
  rw [e.document.getText_from_zero] at hmasked hgap
  refine TextDocument.lineStart_pred_le_of_gap hmasked hgap hspace hindent hbreak fun i c hi hc => ?_
  rw [← e.document.getText_from_zero, ← maskedBefore] at hc
  obtain ⟨before, hbefore⟩ := hends
  rw [← hbefore, length_append, length_cons, length_singleton] at hi
  rw [← hbefore, getElem?_append_right hi] at hc
  have hmem := mem_of_getElem? hc
  simp only [mem_cons, not_mem_nil, or_false] at hmem
  rcases hmem with rfl | rfl <;> decide

lemma blankBetween_blockComment {j : Nat} (hends : ['*', '/'] <:+ e.maskedBefore)
    (hfound : findLast? ['/', '*'] e.maskedBefore = some j)
    (hcut : CutAt e.document.text (e.document.offsetAt e.trueStart))
    (h : BlankBetween (comments e.document.text false)
      (max (e.document.offsetAt (e.document.positionAt j)) e.previousLine) (e.document.offsetAt e.trueStart)) :
    BlankBetween (comments e.document.text false) (e.document.offsetAt (e.document.positionAt j))
      (e.document.offsetAt e.trueStart) := by
  obtain ⟨space, lineBreak, indent, hgap, hspace, hindent, hbreak⟩ :=
    exists_gap (comments (e.document.getText ⟨.zero, e.trueStart⟩) true)
  have hdropped : ∀ c ∈ space ++ (lineBreak ++ indent), isBlank c := by
    have hlineBreak : ∀ c ∈ lineBreak, isBlank c := by
      rcases hbreak with rfl | rfl | rfl <;> simp [isBlank]
    exact forall_mem_append.mpr ⟨fun c hc => isBlank_of_isSpaceOrTab (hspace c hc),
      forall_mem_append.mpr ⟨hlineBreak, fun c hc => isBlank_of_isSpaceOrTab (hindent c hc)⟩⟩
  rw [← maskedBefore, e.document.getText_from_zero] at hgap
  have hle := e.document.offsetAt_le_length e.trueStart
  have hprevious := lineStart_pred_le_mark hends
  have hlength := e.length_maskedBefore_le
  have hmark := ((findLast?_eq_some_iff (by simp)).mp hfound).1
  have hj := hmark.length_le
  rw [length_drop, length_cons, length_singleton] at hj
  generalize e.document.offsetAt e.trueStart = start at *
  generalize e.maskedBefore = marked at *
  have htake : (e.document.text.take start).length = start := by
    rw [length_take]
    omega
  have hlow := e.document.offsetAt_positionAt (o := j) (by omega)
  have hsame : ∀ i < start, (comments e.document.text false)[i]? =
      (comments (e.document.text.take start) false)[i]? := by
    intro i hi
    rw [comments_take_append_drop hcut, getElem?_append_left]
    rwa [(maskedForm_comments _ _).length_eq, htake]
  have hblank : BlankBetween (comments (e.document.text.take start) false) j start := by
    have := blankBetween_block hgap hdropped hends hfound fun c hc => by
      refine h _ c ((hsame _ (by omega)).trans hc) (Nat.max_le.mpr ⟨?_, hprevious⟩) (by omega)
      split at hlow <;> omega
    rwa [htake] at this
  have hslash : e.document.text[j]? = some '/' := by
    have hvisible : (marked ++ (space ++ (lineBreak ++ indent)))[j]? = some '/' := by
      rw [getElem?_append_left (by omega)]
      exact getElem?_of_prefix_drop hmark (i := 0) (by simp)
    rw [← hgap] at hvisible
    have htext := (maskedForm_comments _ _).getElem?_of_visible hvisible (by decide)
    rwa [getElem?_take_of_lt (by omega)] at htext
  have hoffset : e.document.offsetAt (e.document.positionAt j) = j := by
    rw [hlow, if_neg]
    intro hinside
    cases j with
    | zero => exact hinside
    | succ k => exact absurd (hinside.2.symm.trans hslash) (by decide)
  rw [hoffset]
  exact fun i c hc hji hi => hblank i c ((hsame i hi).symm.trans hc) hji hi

end

/-- **The comment before an entity.** Where neither its start nor the entity lies inside of a comment or literal, only
comments and blanks stand between them if and only if this is so on the line of the entity and the one before it. -/
theorem leadingComment_is_blank_iff : e.leadingCommentStart ≤ e.trueStart ∧
    (Lexeme.CutAt e.document.text (e.document.offsetAt e.leadingCommentStart) →
      Lexeme.CutAt e.document.text (e.document.offsetAt e.trueStart) →
      (BlankBetween (Mask.comments e.document.text false) (e.document.offsetAt e.leadingCommentStart)
          (e.document.offsetAt e.trueStart) ↔
        BlankBetween (Mask.comments e.document.text false)
          (max (e.document.offsetAt e.leadingCommentStart)
            (e.document.lineStart (e.document.lineOf (e.document.offsetAt e.trueStart) - 1)))
          (e.document.offsetAt e.trueStart))) := by
  refine ⟨e.leadingCommentStart_le, fun hfirst hstart => ⟨fun h => h.mono (Nat.le_max_left _ _) (Nat.le_refl _),
    fun h => ?_⟩⟩
  rcases e.commentPlace with hp | ⟨j, hends, hfound, hp⟩ | ⟨i, hends, hfound, hp⟩
  · rw [hp]
    exact .empty _ _
  · rw [hp] at h ⊢
    exact blankBetween_blockComment hends hfound hstart h
  · rw [hp] at hfirst h ⊢
    rcases blankBetween_lineComments hfound hfirst with hle | ⟨last, hblank, hle, hle'⟩
    · rwa [Nat.max_eq_left hle] at h
    · exact hblank.trans (h.mono (Nat.max_le.mpr ⟨hle, hle'⟩) (Nat.le_refl _))

/-- A definition below a variable with a comment of its own, which stands below another comment. -/
def belowVariable : Entity where
  document := { uri := "file:///p/a.cpp", text := "// comment\nint x; // trailing\nvoid f() \x7b\x7d\n", opening := 0 }
  node := ⟨⟨"f", "f", [], .function, ⟨⟨2, 0⟩, ⟨2, 11⟩⟩, ⟨⟨2, 5⟩, ⟨2, 6⟩⟩, []⟩, []⟩

/-- The variable is taken for a part of the comment. -/
theorem leadingComment_is_blank_iff_belowVariable :
    Lexeme.CutAt belowVariable.document.text (belowVariable.document.offsetAt belowVariable.leadingCommentStart) ∧
    Lexeme.CutAt belowVariable.document.text (belowVariable.document.offsetAt belowVariable.trueStart) ∧
    ¬ BlankBetween (Mask.comments belowVariable.document.text false)
      (belowVariable.document.offsetAt belowVariable.leadingCommentStart)
      (belowVariable.document.offsetAt belowVariable.trueStart) := by
  have hfirst : Lexeme.CutAt belowVariable.document.text
      (belowVariable.document.offsetAt belowVariable.leadingCommentStart) := by decide +kernel
  have hstart : Lexeme.CutAt belowVariable.document.text (belowVariable.document.offsetAt belowVariable.trueStart) := by
    decide +kernel
  refine ⟨hfirst, hstart, fun hblank => ?_⟩
  have hline := (belowVariable.leadingComment_is_blank_iff.2 hfirst hstart).mp hblank
  rw [blankBetween_iff] at hline
  exact absurd hline (by decide +kernel)

end Entity

end CppScaffold
