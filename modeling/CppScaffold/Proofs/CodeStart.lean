import CppScaffold.Proofs.CommentMasking

/-!
# Where code begins

The comments and blanks at the start of a text are read as such whatever follows, as long as a line break ends a line
comment (`scan_inert_append`). So what is written before the first code is read as it is written.
-/

namespace CppScaffold

open Text List Mask

namespace Lexeme

/-! ## Texts that open nothing -/

/-- A comment, or a character that begins no comment and no literal. -/
def isInert : Lexeme → Bool
  | .plain c => c != '/' && c != '"' && c != '\''
  | .token kind _ => kind.isComment

/-- The text holds no literals, and begins no comment or literal that it does not close. -/
def Inert (x : Text) : Prop := ∀ l ∈ scan x, l.isInert

/-- The second text can follow the first: it begins no raw string with its last character, and ends a line comment. -/
structure Joins (x z : Text) : Prop where
  raw : x.getLast? = some 'R' → z.head? ≠ some '"'
  comment : EndsInComment x → ∀ c, z.head? = some c → isBreak c

variable {c : Char} {x z rest : Text} {l : Lexeme} {kind : TokenKind}

lemma isInert_plain : (plain c).isInert ↔ c ≠ '/' ∧ c ≠ '"' ∧ c ≠ '\'' := by
  simp [isInert, and_assoc]

lemma Joins.of_suffix {x' : Text} (h : Joins x z) (hsuffix : x' <:+ x)
    (hends : EndsInComment x' → EndsInComment x) : Joins x' z where
  raw hlast := h.raw (by
    obtain ⟨u, rfl⟩ := hsuffix
    rw [getLast?_append, hlast]
    rfl)
  comment hx := h.comment (hends hx)

lemma Inert.tail {rest' : Text} (h : Inert (c :: rest))
    (hscan : scan (c :: rest) = l :: scan rest') : Inert rest' := fun l' hl' =>
  h l' (hscan ▸ mem_cons_of_mem _ hl')

lemma Inert.head {rest' : Text} (h : Inert (c :: rest))
    (hscan : scan (c :: rest) = l :: scan rest') : l.isInert :=
  h l (hscan ▸ mem_cons_self)

lemma Inert.head_ne_quote (h : Inert x) : x.head? ≠ some '"' := by
  cases x with
  | nil => simp
  | cons c rest =>
    rintro ⟨⟩
    cases htoken : tokenAt '"' rest with
    | none => exact (isInert_plain.mp (h.head (scan_plain htoken))).2.1 rfl
    | some token =>
      obtain ⟨kind, n⟩ := token
      have hkind : kind.isComment := h.head (scan_token htoken)
      cases tokenAt_eq_some_iff.mp htoken
      cases hkind

lemma tokenAt_eq_none_of_inert (hinert : Inert (c :: rest)) (hnone : tokenAt c rest = none)
    (hz : Joins (c :: rest) z) : tokenAt c (rest ++ z) = none := by
  obtain ⟨hslash, hdouble, hsingle⟩ := isInert_plain.mp (hinert.head (scan_plain hnone))
  refine tokenAt_eq_none hslash hdouble hsingle ?_
  rintro rfl
  cases rest with
  | nil => exact hz.raw rfl
  | cons d rest => exact (hinert.tail (scan_plain hnone)).head_ne_quote

lemma tokenAt_comment_append {n : Nat} (h : tokenAt c rest = some (kind, n)) (hkind : kind.isComment)
    (hz : Joins (c :: rest) z) : tokenAt c (rest ++ z) = some (kind, n) := by
  by_cases hline : kind = .lineComment → n < rest.length
  · exact tokenAt_append h z hline
  obtain ⟨rfl, hlength⟩ := Classical.not_imp.mp hline
  have hscan := scan_token h
  rw [drop_eq_nil_of_le (Nat.le_of_not_lt hlength)] at hscan
  -- the comment reaches to the end of the first text, so the second one begins with a break
  have hbreak := hz.comment ⟨_, by rw [hscan]; rfl⟩
  cases tokenAt_eq_some_iff.mp h with
  | line more =>
    have hmore : more.takeWhile (!isBreak ·) = more := by
      refine (takeWhile_sublist _).eq_of_length_le ?_
      simp only [length_cons] at hlength
      omega
    rw [hmore]
    refine tokenAt_line (fun d hd => ?_) hbreak
    rw [← hmore] at hd
    simpa using mem_takeWhile_imp hd

lemma scan_inert_append (hx : Inert x) (hz : Joins x z) : scan (x ++ z) = scan x ++ scan z := by
  induction x using scan_induction with
  | nil => rfl
  | plain c rest hnone ih =>
    have hscan := scan_plain hnone
    have htail := ih (hx.tail hscan) (hz.of_suffix (suffix_cons ..) fun h => h.cons hscan)
    rw [cons_append, scan_plain (tokenAt_eq_none_of_inert hx hnone hz), hscan, htail, cons_append]
  | token c rest kind n htoken ih =>
    have hscan := scan_token htoken
    have hn := (tokenAt_bounds htoken).2
    have htail := ih (hx.tail hscan) (hz.of_suffix ((drop_suffix ..).trans (suffix_cons ..))
      fun h => h.cons hscan)
    rw [cons_append, scan_token (tokenAt_comment_append htoken (hx.head hscan) hz),
      take_append_of_le_length hn, drop_append_of_le_length hn, hscan, htail, cons_append]

lemma scan_of_unmarked (h : Unmarked x) : scan x = x.map .plain := by
  simpa [scan, scanFrom] using scan_plain_append h (y := []) (by simp)

lemma inert_of_unmarked (h : Unmarked x) : Inert x := by
  intro l hl
  rw [scan_of_unmarked h] at hl
  obtain ⟨c, hc, rfl⟩ := mem_map.mp hl
  exact isInert_plain.mpr (h c hc)

lemma not_endsInComment_of_unmarked (h : Unmarked x) : ¬ EndsInComment x := by
  rintro ⟨w, hw⟩
  have hmem := mem_of_getLast? hw
  rw [scan_of_unmarked h] at hmem
  obtain ⟨c, _, hc⟩ := mem_map.mp hmem
  cases hc

/-! ## Masking piece by piece -/

lemma joins_maskedForm {z' : Text} (h : Joins x z) (hz : MaskedForm z z') : Joins x z' where
  raw hlast hquote := by
    rw [head?_eq_getElem?] at hquote
    have hsame := hz.getElem?_of_visible hquote (by decide)
    rw [← head?_eq_getElem?] at hsame
    exact h.raw hlast hsame
  comment hends := hz.isBreak_head (h.comment hends)

lemma maskedLexemes_true (l : Lexeme) :
    ∃ l', maskedLexemes true l = [l'] ∧ l'.isInert = l.isInert ∧
      ∀ w', l' = .token .lineComment w' → ∃ w, l = .token .lineComment w := by
  cases l with
  | plain c => exact ⟨.plain c, rfl, rfl, fun w' h => by cases h⟩
  | token kind w =>
    refine ⟨_, if_neg (by simp), rfl, fun w' h => ?_⟩
    obtain ⟨rfl, _⟩ := token.inj h
    exact ⟨w, rfl⟩

lemma Inert.comments (h : Inert x) : Inert (comments x true) := by
  intro l hl
  rw [scan_comments] at hl
  obtain ⟨l₀, hl₀, hl⟩ := mem_flatMap.mp hl
  obtain ⟨l', hl', hinert, _⟩ := maskedLexemes_true l₀
  rw [hl', mem_singleton] at hl
  rw [hl, hinert]
  exact h l₀ hl₀

lemma EndsInComment.of_comments (h : EndsInComment (comments x true)) : EndsInComment x := by
  obtain ⟨w, hw⟩ := h
  rw [scan_comments] at hw
  rcases eq_nil_or_concat' (scan x) with hnil | ⟨l, last, hlast⟩
  · rw [hnil] at hw
    cases hw
  · obtain ⟨l', hl', _, hline⟩ := maskedLexemes_true last
    rw [hlast, flatMap_append, flatMap_singleton, hl', getLast?_concat] at hw
    obtain ⟨w', rfl⟩ := hline w (Option.some.inj hw)
    exact ⟨w', by rw [hlast, getLast?_concat]⟩

lemma Joins.comments (h : Joins x z) : Joins (comments x true) z where
  raw hlast := h.raw (by
    have hform := maskedForm_comments x true
    rw [getLast?_eq_getElem?, hform.length_eq] at hlast
    rw [getLast?_eq_getElem?]
    exact hform.getElem?_of_visible hlast (by decide))
  comment hends := h.comment hends.of_comments

/-- A mask that leaves comments alone leaves a text alone that holds no literals. -/
lemma replaceTokens_inert_append {chosen : TokenKind → Option Bool}
    (hchosen : ∀ kind, kind.isComment → chosen kind = none) (hx : Inert x) (hz : Joins x z) (f : Text → Text) :
    replaceTokens chosen f (x ++ z) = x ++ replaceTokens chosen f z := by
  rw [replaceTokens, scan_inert_append hx hz, flatMap_append]
  refine congrArg (· ++ replaceTokens chosen f z) ?_
  conv_rhs => rw [← flatMap_written_scan x]
  refine flatMap_congr fun l hl => ?_
  cases l with
  | plain c => rfl
  | token kind w =>
    have hkind : kind.isComment := hx _ hl
    simp only [hchosen kind hkind, written]

/-! ## The comments and blanks at the start -/

def isLeading : Lexeme → Bool
  | .plain c => isBlank c
  | .token kind _ => kind.isComment

def Leads (x : Text) : Prop := ∀ l ∈ scan x, l.isLeading

lemma Leads.inert (h : Leads x) : Inert x := by
  intro l hl
  have hleading := h l hl
  cases l with
  | plain c =>
    refine isInert_plain.mpr ⟨?_, ?_, ?_⟩ <;> rintro rfl <;> cases hleading
  | token kind w => exact hleading

/-- Every text falls into what stands before its code and the rest. -/
lemma exists_leads_append (t : Text) :
    ∃ x y, t = x ++ y ∧ scan t = scan x ++ scan y ∧ Leads x ∧
      ∀ l, (scan y).head? = some l → l.isLeading = false := by
  have hsplit : scan t = (scan t).takeWhile isLeading ++ (scan t).dropWhile isLeading :=
    takeWhile_append_dropWhile.symm
  have ht : ((scan t).takeWhile isLeading).flatMap written ++ ((scan t).dropWhile isLeading).flatMap written = t := by
    rw [← flatMap_append, ← hsplit, flatMap_written_scan]
  obtain ⟨hx, hy⟩ := scan_append_inv ((congrArg scan ht).trans hsplit) rfl
  refine ⟨_, _, ht.symm, by rw [hx, hy, ← hsplit], fun l hl => ?_, fun l hl => ?_⟩
  · rw [hx] at hl
    exact mem_takeWhile_imp hl
  · rw [hy] at hl
    have := head?_dropWhile_not isLeading (scan t)
    rw [hl] at this
    simpa using this

lemma isBlank_of_leads (h : Leads x) : ∀ c ∈ comments x false, isBlank c := by
  intro c hc
  rw [comments_eq] at hc
  obtain ⟨l, hl, hc⟩ := mem_flatMap.mp hc
  have hleading := h l hl
  cases l with
  | plain d =>
    obtain rfl := mem_singleton.mp hc
    exact hleading
  | token kind w =>
    rw [veiled_comment hleading] at hc
    exact isBlank_of_mem_all hc

/-- Where comments are masked, code begins with a character that is visible there. -/
lemma comments_of_code {y : Text} (hl : (scan y).head? = some l) (hcode : l.isLeading = false) :
    ∃ c rest rest', y = c :: rest ∧ comments y false = c :: rest' ∧ isBlank c = false := by
  cases y with
  | nil => cases hl
  | cons c rest =>
    cases htoken : tokenAt c rest with
    | none =>
      rw [scan_plain htoken] at hl
      obtain rfl := Option.some.inj hl
      exact ⟨c, rest, _, rfl, comments_plain htoken false, hcode⟩
    | some token =>
      obtain ⟨kind, n⟩ := token
      rw [scan_token htoken] at hl
      obtain rfl := Option.some.inj hl
      have hkind : kind.isComment = false := hcode
      refine ⟨c, rest, rest.take n ++ comments (rest.drop n) false, rfl, ?_, ?_⟩
      · rw [comments_token htoken, veiled_literal (by simp [hkind])]
        rfl
      · cases tokenAt_eq_some_iff.mp htoken <;> rfl

lemma mem_comments_of_leads (h : Leads x) (hc : c ∈ comments x true) : c = '/' ∨ c = '*' ∨ isBlank c := by
  rw [comments_eq] at hc
  obtain ⟨l, hl, hc⟩ := mem_flatMap.mp hc
  have hleading := h l hl
  cases l with
  | plain d =>
    obtain rfl := mem_singleton.mp hc
    exact .inr (.inr hleading)
  | token kind w =>
    rcases comment_of_mem hl hleading with ⟨body, rfl, rfl, _⟩ | ⟨inner, rfl, rfl⟩
    · rw [veiled_line] at hc
      simp only [mem_cons] at hc
      rcases hc with hc | hc | hc
      exacts [.inl hc, .inl hc, .inr (.inr (isBlank_of_mem_all hc))]
    · rw [veiled_block] at hc
      simp only [mem_cons, mem_append, not_mem_nil, or_false] at hc
      rcases hc with hc | hc | hc | hc | hc
      exacts [.inl hc, .inr (.inl hc), .inr (.inr (isBlank_of_mem_all hc)), .inr (.inl hc), .inl hc]

/-- A text without code that ends with a letter ends with a line comment. -/
lemma endsInComment_of_leads (h : Leads x) (hlast : x.getLast? = some 'R') : EndsInComment x := by
  rcases eq_nil_or_concat' (scan x) with hnil | ⟨ls, l, hls⟩
  · rw [← flatMap_written_scan x, hnil] at hlast
    cases hlast
  · have hl : l ∈ scan x := hls ▸ mem_append_right _ mem_cons_self
    rw [← flatMap_written_scan x, hls, flatMap_append, flatMap_singleton] at hlast
    have hleading := h l hl
    cases l with
    | plain c =>
      rw [written, getLast?_concat] at hlast
      obtain rfl := Option.some.inj hlast
      cases hleading
    | token kind w =>
      rcases comment_of_mem hl hleading with ⟨_, rfl, _⟩ | ⟨inner, rfl, rfl⟩
      · exact ⟨w, by rw [hls, getLast?_concat]⟩
      · rw [written, getLast?_append_of_ne_nil _ (by simp), ← cons_append, ← cons_append,
          getLast?_append_of_ne_nil _ (by simp)] at hlast
        cases hlast

lemma isBreak_of_endsInComment {y : Text} (hcut : scan (x ++ y) = scan x ++ scan y) (h : EndsInComment x) :
    ∀ c, y.head? = some c → isBreak c := by
  obtain ⟨w, hw⟩ := h
  obtain ⟨ls, hls⟩ := getLast?_eq_some_iff.mp hw
  have hx : x = ls.flatMap written ++ w := by
    rw [← flatMap_written_scan x, hls, flatMap_append, flatMap_singleton]
    rfl
  rw [hls, append_assoc, hx, append_assoc] at hcut
  have hscan := (scan_append_inv hcut rfl).2
  cases hwy : w ++ y with
  | nil =>
    rw [hwy] at hscan
    cases hscan
  | cons c rest =>
    rw [hwy] at hscan
    cases htoken : tokenAt c rest with
    | none =>
      rw [scan_plain htoken] at hscan
      cases (cons_eq_cons.mp hscan).1
    | some token =>
      obtain ⟨kind, n⟩ := token
      rw [scan_token htoken] at hscan
      obtain ⟨rfl, hwritten⟩ := token.inj (cons_eq_cons.mp hscan).1
      -- the comment is all of `w`, so the rest is `y`
      have hrest : rest.drop n = y := by
        have hall : c :: rest.take n ++ rest.drop n = w ++ y := by
          rw [cons_append, take_append_drop, hwy]
        rw [hwritten] at hall
        exact append_cancel_left hall
      rw [← hrest]
      rcases comment_cases htoken rfl with ⟨_, _, _, _, hbreak⟩ | ⟨_, hkind, _⟩
      · exact hbreak
      · cases hkind

lemma Leads.joins (h : Leads x) (hz : EndsInComment x → ∀ c, z.head? = some c → isBreak c) :
    Joins x z where
  raw hlast hquote := absurd (hz (endsInComment_of_leads h hlast) _ hquote) (by decide)
  comment := hz

/-- A comment does not begin before blanks and end in them. -/
lemma tokenAt_append_blank {r : Text} (hr : ∀ c ∈ r, isBlank c) (hnone : tokenAt c rest = none)
    (hkind : kind.isComment) (n : Nat) : tokenAt c (rest ++ r) ≠ some (kind, n) := by
  intro h
  have hn := (tokenAt_bounds h).2
  rcases comment_cases h hkind with ⟨body, rfl, hwritten, _, _⟩ | ⟨inner, rfl, hwritten⟩
  · obtain ⟨rfl, htake⟩ := cons_eq_cons.mp hwritten
    cases rest with
    | nil => exact absurd (hr '/' (mem_of_mem_take (htake ▸ mem_cons_self))) (by decide)
    | cons d rest =>
      cases n with
      | zero => cases htake
      | succ n =>
        obtain rfl := (cons_eq_cons.mp htake).1
        cases hnone
  · by_cases hle : n ≤ rest.length
    · rw [tokenAt_of_append h hle] at hnone
      cases hnone
    · -- then the last slash of the comment is one of the blanks
      have htake := (cons_eq_cons.mp hwritten).2
      have hlast : (r.take (n - rest.length)).getLast? = some '/' := by
        rw [length_append] at hn
        rw [take_append, take_of_length_le (by omega)] at htake
        have hne : r.take (n - rest.length) ≠ [] := by
          rw [← length_pos_iff, length_take]
          omega
        rw [← getLast?_append_of_ne_nil rest hne, htake, ← cons_append, getLast?_append_of_ne_nil _ (by simp)]
        rfl
      exact absurd (hr '/' (mem_of_mem_take (mem_of_getLast? hlast))) (by decide)

lemma leads_of_append_blank {r : Text} (hr : ∀ c ∈ r, isBlank c) (h : Leads (x ++ r)) : Leads x := by
  induction x using scan_induction with
  | nil => exact forall_mem_nil _
  | plain c rest hnone ih =>
    have hnone' : tokenAt c (rest ++ r) = none := by
      cases htoken : tokenAt c (rest ++ r) with
      | none => rfl
      | some token =>
        obtain ⟨kind, n⟩ := token
        have hkind := h (.token kind _) (by rw [cons_append, scan_token htoken]; exact mem_cons_self)
        exact absurd htoken (tokenAt_append_blank hr hnone hkind n)
    rw [Leads, cons_append, scan_plain hnone'] at h
    obtain ⟨hc, hrest⟩ := forall_mem_cons.mp h
    rw [Leads, scan_plain hnone]
    exact forall_mem_cons.mpr ⟨hc, ih hrest⟩
  | token c rest kind n htoken ih =>
    rw [Leads, scan_token htoken]
    by_cases hline : kind = .lineComment → n < rest.length
    · have htoken' := tokenAt_append htoken r hline
      have hn := (tokenAt_bounds htoken).2
      rw [Leads, cons_append, scan_token htoken', drop_append_of_le_length hn] at h
      obtain ⟨hkind, hrest⟩ := forall_mem_cons.mp h
      exact forall_mem_cons.mpr ⟨hkind, ih hrest⟩
    · obtain ⟨rfl, hlength⟩ := Classical.not_imp.mp hline
      rw [drop_eq_nil_of_le (Nat.le_of_not_lt hlength)]
      exact forall_mem_cons.mpr ⟨rfl, forall_mem_nil _⟩

end Lexeme

end CppScaffold
