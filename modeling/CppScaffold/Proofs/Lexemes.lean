import CppScaffold.Proofs.Replacements

/-!
# Cutting source text between lexemes

A text can be cut where a lexeme ends (`scan_append_inv`). Two texts are read one after the other unless the second
closes a comment or literal of the first (`scan_append`).
-/

namespace CppScaffold

open Text List Mask

namespace Lexeme

/-! ## Literals and comments in a longer text -/

variable {q c : Char} {x y t rest rest' w s v : Text} {n : Nat} {kind : TokenKind} {l : Lexeme}

lemma quotedLength_append (hq : q ≠ '\\') (h : quotedLength q x = some n) (y : Text) :
    quotedLength q (x ++ y) = some n := by
  obtain ⟨b, rest, rfl, hb, rfl⟩ := (quotedLength_eq_some_iff hq).mp h
  exact (quotedLength_eq_some_iff hq).mpr ⟨b, rest ++ y, by simp, hb, rfl⟩

lemma quotedLength_of_append (hq : q ≠ '\\')
    (h : quotedLength q (x ++ y) = some n) (hle : n ≤ x.length) : quotedLength q x = some n := by
  obtain ⟨b, rest, heq, hb, rfl⟩ := (quotedLength_eq_some_iff hq).mp h
  obtain ⟨a, rfl⟩ : b ++ [q] <+: x :=
    prefix_of_prefix_length_le ⟨rest, by rw [heq, append_assoc]; rfl⟩ (prefix_append x y) (by simpa using hle)
  exact (quotedLength_eq_some_iff hq).mpr ⟨b, a, by simp, hb, rfl⟩

lemma getElem?_of_quotedLength (hq : q ≠ '\\') (h : quotedLength q x = some n) : x[n - 1]? = some q := by
  obtain ⟨b, rest, rfl, _, rfl⟩ := (quotedLength_eq_some_iff hq).mp h
  simp

lemma rawLength_append (h : rawLength x = some n) (y : Text) : rawLength (x ++ y) = some n := by
  obtain ⟨d, rest, i, rfl, hd, hlength, hi, rfl⟩ := rawLength_eq_some_iff.mp h
  exact rawLength_eq_some_iff.mpr ⟨d, rest ++ y, i, by simp, hd, hlength, find?_append hi (by simp) y, rfl⟩

lemma rawLength_of_append (h : rawLength (x ++ y) = some n) (hle : n ≤ x.length) : rawLength x = some n := by
  obtain ⟨d, rest, i, heq, hd, hlength, hi, rfl⟩ := rawLength_eq_some_iff.mp h
  rcases append_eq_append_iff.mp heq with ⟨a, rfl, _⟩ | ⟨a, rfl, ha⟩
  · simp only [length_append] at hle
    omega
  · cases a with
    | nil =>
      rw [append_nil] at hle
      omega
    | cons e rest' =>
      obtain ⟨rfl, rfl⟩ := cons_eq_cons.mp ha
      simp only [length_append, length_cons] at hle
      refine rawLength_eq_some_iff.mpr ⟨d, rest', i, rfl, hd, hlength, find?_of_append hi ?_, rfl⟩
      simp
      omega

lemma getElem?_of_rawLength (h : rawLength x = some n) : x[n - 1]? = some '"' := by
  obtain ⟨d, rest, i, rfl, hd, hlength, hi, rfl⟩ := rawLength_eq_some_iff.mp h
  obtain ⟨hclosing, _⟩ := find?_eq_some_iff.mp hi
  have hlast := getElem?_of_prefix_drop hclosing (i := d.length + 1) (by simp)
  rw [getElem?_append_right (by omega),
    show d.length + 1 + i + (d.length + 2) - 1 - d.length = i + (d.length + 1) + 1 by omega, getElem?_cons_succ, hlast]
  simp

lemma exists_cons_of_append {α : Type} {x y t : List α} {d : α} (h : x ++ y = d :: t) (hpos : 0 < x.length) :
    ∃ x', x = d :: x' ∧ t = x' ++ y := by
  cases x with
  | nil => simp at hpos
  | cons e x =>
    obtain ⟨rfl, rfl⟩ := cons_eq_cons.mp h
    exact ⟨x, rfl, rfl⟩

lemma tokenAt_of_append (h : tokenAt c (x ++ y) = some (kind, n))
    (hle : n ≤ x.length) : tokenAt c x = some (kind, n) := by
  rw [tokenAt_eq_some_iff] at h ⊢
  generalize ht : x ++ y = t at h
  cases h with
  | line more =>
    obtain ⟨x, rfl, rfl⟩ := exists_cons_of_append ht (by omega)
    have hsame : ((x ++ y).takeWhile (!isBreak ·)).length = (x.takeWhile (!isBreak ·)).length := by
      rw [takeWhile_append] at hle ⊢
      split
      next hall =>
        rw [if_pos hall] at hle
        simp only [length_append, length_cons] at hle ⊢
        omega
      next => rfl
    rw [hsame]
    exact .line x
  | block hi =>
    obtain ⟨x, rfl, rfl⟩ := exists_cons_of_append ht (by omega)
    refine .block (find?_of_append hi ?_)
    simp only [length_cons, length_nil] at hle ⊢
    omega
  | raw hn =>
    obtain ⟨x, rfl, rfl⟩ := exists_cons_of_append ht (by omega)
    refine .raw (rawLength_of_append hn ?_)
    simp only [length_cons] at hle
    omega
  | string hn =>
    subst ht
    exact .string (quotedLength_of_append (by decide) hn hle)
  | char hn =>
    subst ht
    exact .char (quotedLength_of_append (by decide) hn hle)

/-- A token stays one if the text goes on; only a line comment may get longer. -/
lemma tokenAt_append (h : tokenAt c x = some (kind, n)) (y : Text)
    (hline : kind = .lineComment → n < x.length) : tokenAt c (x ++ y) = some (kind, n) := by
  rw [tokenAt_eq_some_iff] at h ⊢
  cases h with
  | line more =>
    have hsame : ((more ++ y).takeWhile (!isBreak ·)).length = (more.takeWhile (!isBreak ·)).length := by
      have := hline rfl
      rw [length_cons] at this
      rw [takeWhile_append, if_neg (by omega)]
    rw [← hsame]
    exact .line (more ++ y)
  | block hi => exact .block (find?_append hi (by simp) y)
  | raw hn => exact .raw (rawLength_append hn y)
  | string hn => exact .string (quotedLength_append (by decide) hn y)
  | char hn => exact .char (quotedLength_append (by decide) hn y)

lemma tokenAt_eq_none_of_append (h : tokenAt c (x ++ y) = none) : tokenAt c x = none := by
  cases hx : tokenAt c x with
  | none => rfl
  | some token =>
    obtain ⟨kind, n⟩ := token
    by_cases hline : kind = .lineComment
    · subst hline
      cases tokenAt_eq_some_iff.mp hx
      simp [tokenAt] at h
    · rw [tokenAt_append hx y fun hkind => absurd hkind hline] at h
      cases h

/-! ## Reading two texts -/

lemma scanFrom_eq (skip : Nat) (t : Text) : scanFrom skip t = scan (t.drop skip) := by
  induction t generalizing skip with
  | nil => rw [drop_nil]; rfl
  | cons c t ih =>
    cases skip with
    | zero => rfl
    | succ skip => exact ih skip

lemma scan_plain (h : tokenAt c rest = none) : scan (c :: rest) = .plain c :: scan rest := by
  rw [scan, scanFrom, h]
  rfl

lemma scan_token (h : tokenAt c rest = some (kind, n)) :
    scan (c :: rest) = .token kind (c :: rest.take n) :: scan (rest.drop n) := by
  rw [scan, scanFrom, h]
  exact congrArg _ (scanFrom_eq n rest)

@[elab_as_elim] lemma scan_induction {P : Text → Prop} (nil : P [])
    (plain : ∀ c rest, tokenAt c rest = none → P rest → P (c :: rest))
    (token : ∀ c rest kind n, tokenAt c rest = some (kind, n) → P (rest.drop n) → P (c :: rest)) (t : Text) : P t := by
  induction hn : t.length using Nat.strong_induction_on generalizing t with
  | _ n ih =>
    subst hn
    cases t with
    | nil => exact nil
    | cons c rest =>
      cases htoken : tokenAt c rest with
      | none => exact plain c rest htoken (ih _ (by simp) rest rfl)
      | some token' =>
        obtain ⟨kind, n⟩ := token'
        exact token c rest kind n htoken (ih _ (by rw [length_drop, length_cons]; omega) _ rfl)

lemma tokenAt_eq_none (hslash : c ≠ '/') (hdouble : c ≠ '"') (hsingle : c ≠ '\'')
    (hraw : c = 'R' → rest.head? ≠ some '"') : tokenAt c rest = none := by
  refine Option.eq_none_iff_forall_ne_some.mpr fun ⟨kind, n⟩ htoken => ?_
  cases tokenAt_eq_some_iff.mp htoken with
  | line | block => exact hslash rfl
  | raw => exact hraw rfl rfl
  | string => exact hdouble rfl
  | char => exact hsingle rfl

/-- No character of the text begins a comment or a literal. -/
def Unmarked (x : Text) : Prop := ∀ c ∈ x, c ≠ '/' ∧ c ≠ '"' ∧ c ≠ '\''

lemma unmarked_of_isBlank (h : ∀ c ∈ x, isBlank c) : Unmarked x := by
  intro c hc
  have hblank := h c hc
  refine ⟨?_, ?_, ?_⟩ <;> rintro rfl <;> exact absurd hblank (by decide)

lemma scan_plain_append (hx : Unmarked x) (hy : 'R' ∈ x → y.head? ≠ some '"') :
    scan (x ++ y) = x.map .plain ++ scan y := by
  induction x with
  | nil => rfl
  | cons c x ih =>
    obtain ⟨hslash, hdouble, hsingle⟩ := hx c mem_cons_self
    have hnone : tokenAt c (x ++ y) = none := by
      refine tokenAt_eq_none hslash hdouble hsingle ?_
      rintro rfl
      cases x with
      | nil => exact hy mem_cons_self
      | cons d x => exact fun hquote => (hx d (by simp)).2.1 (Option.some.inj hquote)
    rw [cons_append, scan_plain hnone,
      ih (fun d hd => hx d (mem_cons_of_mem c hd)) fun hmem => hy (mem_cons_of_mem c hmem)]
    rfl

lemma scan_blank_append (hx : ∀ c ∈ x, isBlank c) (y : Text) : scan (x ++ y) = x.map .plain ++ scan y :=
  scan_plain_append (unmarked_of_isBlank hx) fun hmem => absurd (hx _ hmem) (by decide)

lemma tokenAt_line (hx : ∀ c ∈ x, isBreak c = false) (hy : ∀ c, y.head? = some c → isBreak c) :
    tokenAt '/' ('/' :: (x ++ y)) = some (.lineComment, 1 + x.length) := by
  have hline : (x ++ y).takeWhile (!isBreak ·) = x := by
    rw [takeWhile_append_of_pos (fun c hc => by simp [hx c hc])]
    cases y with
    | nil => simp
    | cons c y => simp [hy c rfl]
  have hread := TokenRead.line (x ++ y)
  rw [hline] at hread
  exact tokenAt_eq_some_iff.mpr hread

lemma scan_line_append (hx : ∀ c ∈ x, isBreak c = false) (hy : ∀ c, y.head? = some c → isBreak c) :
    scan ('/' :: '/' :: (x ++ y)) = .token .lineComment ('/' :: '/' :: x) :: scan y := by
  rw [scan_token (tokenAt_line hx hy), Nat.add_comm, take_succ_cons, drop_succ_cons, take_left, drop_left]

lemma scan_block_append (h : find? ['*', '/'] (x ++ ['*', '/']) = some x.length) (y : Text) :
    scan ('/' :: '*' :: (x ++ ['*', '/'] ++ y)) = .token .blockComment ('/' :: '*' :: (x ++ ['*', '/'])) :: scan y := by
  have hlength : ('*' :: (x ++ ['*', '/'])).length = 1 + x.length + 2 := by
    simp only [length_cons, length_append, length_nil]
    omega
  rw [scan_token (tokenAt_eq_some_iff.mpr (.block (find?_append h (by simp) y))), ← cons_append, take_left' hlength,
    drop_left' hlength]

/-- A text that is cut between two lexemes is read as before. -/
lemma scan_append_inv {l₁ l₂ : List Lexeme} (h : scan (x ++ y) = l₁ ++ l₂)
    (hx : l₁.flatMap written = x) : scan x = l₁ ∧ scan y = l₂ := by
  induction l₁ generalizing x with
  | nil =>
    obtain rfl : x = [] := hx.symm
    exact ⟨rfl, h⟩
  | cons l l₁ ih =>
    cases hxy : x ++ y with
    | nil =>
      rw [hxy] at h
      cases h
    | cons c r =>
      rw [hxy] at h
      cases htoken : tokenAt c r with
      | none =>
        rw [scan_plain htoken] at h
        obtain ⟨rfl, hrest⟩ := cons_eq_cons.mp h
        subst hx
        obtain ⟨_, rfl⟩ := cons_eq_cons.mp hxy
        obtain ⟨hscan, hy⟩ := ih hrest rfl
        exact ⟨(scan_plain (tokenAt_eq_none_of_append htoken)).trans (by rw [hscan]), hy⟩
      | some token =>
        obtain ⟨kind, n⟩ := token
        rw [scan_token htoken] at h
        obtain ⟨rfl, hrest⟩ := cons_eq_cons.mp h
        subst hx
        have hle := (tokenAt_bounds htoken).2
        have hr : r.take n ++ l₁.flatMap written ++ y = r := (cons_eq_cons.mp hxy).2
        have hdrop : r.drop n = l₁.flatMap written ++ y := by
          have heq : r.take n ++ r.drop n = r.take n ++ (l₁.flatMap written ++ y) := by
            rw [take_append_drop, ← append_assoc, hr]
          exact append_cancel_left heq
        obtain ⟨hscan, hy⟩ := ih (hdrop ▸ hrest) rfl
        have hlength : (r.take n).length = n := length_take_of_le hle
        have htoken' : tokenAt c (r.take n ++ l₁.flatMap written) = some (kind, n) := by
          refine tokenAt_of_append (hr.symm ▸ htoken) ?_
          rw [length_append]
          omega
        refine ⟨(scan_token htoken').trans ?_, hy⟩
        rw [take_left' hlength, drop_left' hlength, hscan]

lemma tokenAt_of_scan {l₁ l₂ : List Lexeme} (h : scan t = l₁ ++ .plain c :: l₂) :
    tokenAt c (l₂.flatMap written) = none ∧ scan (l₂.flatMap written) = l₂ := by
  have ht : t = l₁.flatMap written ++ (c :: l₂.flatMap written) := by
    rw [← flatMap_written_scan t, h, flatMap_append]
    rfl
  have hscan := (scan_append_inv (ht ▸ h) rfl).2
  cases htoken : tokenAt c (l₂.flatMap written) with
  | none =>
    rw [scan_plain htoken] at hscan
    exact ⟨rfl, (cons_eq_cons.mp hscan).2⟩
  | some token =>
    rw [scan_token htoken] at hscan
    cases (cons_eq_cons.mp hscan).1

/-- Whether a text begins like a raw string literal after its first character, up to the parenthesis. -/
def isRawStart : Text → Bool
  | '"' :: more =>
    decide ((more.takeWhile isDelimiterChar).length ≤ 16)
      && (more.drop (more.takeWhile isDelimiterChar).length).head? == some '('
  | _ => false

lemma isRawStart_iff : isRawStart t ↔
    ∃ d rest, t = '"' :: (d ++ '(' :: rest) ∧ (∀ c ∈ d, isDelimiterChar c) ∧ d.length ≤ 16 := by
  constructor
  · intro h
    unfold isRawStart at h
    split at h
    next more =>
      simp only [Bool.and_eq_true, decide_eq_true_eq, beq_iff_eq] at h
      obtain ⟨rest, hrest⟩ := head?_eq_some_iff.mp h.2
      refine ⟨more.takeWhile isDelimiterChar, rest, ?_, fun c hc => mem_takeWhile_imp hc, h.1⟩
      rw [← hrest, drop_length_takeWhile, takeWhile_append_dropWhile]
    next => cases h
  · rintro ⟨d, rest, rfl, hd, hlength⟩
    have htake := takeWhile_append_cons hd (e := '(') rfl rest
    simp [isRawStart, htake, hlength]

lemma isRawStart_append (h : isRawStart x) (y : Text) : isRawStart (x ++ y) := by
  obtain ⟨d, rest, rfl, hd, hlength⟩ := isRawStart_iff.mp h
  exact isRawStart_iff.mpr ⟨d, rest ++ y, by simp, hd, hlength⟩

/-- A literal with the quote `q` is begun and not closed. -/
def OpensQuote (q : Char) (x : Text) : Prop :=
  .plain q ∈ scan x ∨
    (q = '"' ∧ ∃ l₁ l₂, scan x = l₁ ++ .plain 'R' :: l₂ ∧ isRawStart (l₂.flatMap written))

/-- A block comment is begun and not closed. -/
def OpensComment (x : Text) : Prop := [.plain '/', .plain '*'] <:+: scan x

def EndsInComment (x : Text) : Prop := ∃ w, (scan x).getLast? = some (.token .lineComment w)

/-- The characters of which two can begin a token or end a comment. -/
def isMark (c : Char) : Bool := c == '/' || c == '*' || c == '"'

/-- Nothing that is begun and not closed in the first text is closed in the second one. -/
structure ScanApart (x y : Text) : Prop where
  quote : ∀ q, q = '"' ∨ q = '\'' → OpensQuote q x → q ∉ y
  comment : OpensComment x → ¬ ['*', '/'] <:+: y

/-- A raw string literal that goes on is open before or behind its opening parenthesis. -/
lemma notMem_or_isRawStart {d : Text} (h : x ++ y = d ++ '(' :: rest) (hd : ∀ c ∈ d, isDelimiterChar c)
    (hlength : d.length ≤ 16) : '"' ∉ x ∨ isRawStart ('"' :: x) := by
  have hnot : ∀ {x}, x <+: d → '"' ∉ x := fun hx hmem => absurd (hd _ (hx.subset hmem)) (by decide)
  rcases append_eq_append_iff.mp h with ⟨a, rfl, _⟩ | ⟨_ | ⟨e, a⟩, rfl, ha⟩
  · exact .inl (hnot (prefix_append ..))
  · exact .inl (hnot (by simp))
  · obtain ⟨rfl, _⟩ := cons_eq_cons.mp ha
    exact .inr (isRawStart_iff.mpr ⟨d, a, rfl, hd, hlength⟩)

lemma OpensQuote.cons (h : scan (c :: rest) = l :: scan rest')
    (hq : OpensQuote q rest') : OpensQuote q (c :: rest) := by
  rcases hq with hq | ⟨rfl, l₁, l₂, hscan, hraw⟩
  · exact .inl (by rw [h]; exact mem_cons_of_mem _ hq)
  · exact .inr ⟨rfl, l :: l₁, l₂, by rw [h, hscan, cons_append], hraw⟩

lemma OpensComment.cons (h : scan (c :: rest) = l :: scan rest')
    (hc : OpensComment rest') : OpensComment (c :: rest) := by
  rw [OpensComment, h]
  exact hc.trans (suffix_cons ..).isInfix

/-- A quote that begins no literal and is not followed by another one. -/
lemma plain_quote_of_notMem (hq : q = '"' ∨ q = '\'') (h : q ∉ x) :
    scan (q :: x) = .plain q :: scan x := by
  refine scan_plain ?_
  have hnone : quotedLength q x = none := by
    cases hn : quotedLength q x with
    | none => rfl
    | some n => exact absurd (mem_of_getElem? (getElem?_of_quotedLength (by rcases hq with rfl | rfl <;> decide) hn)) h
  rcases hq with rfl | rfl <;> simp [tokenAt, hnone]

/-- A character that begins no token in the first text begins none if the second one follows. -/
lemma tokenAt_eq_none_append (h : tokenAt c x = none) (hapart : ScanApart (c :: x) y)
    (hloose : Loose isMark (c :: x) y) : tokenAt c (x ++ y) = none := by
  by_contra hsome
  obtain ⟨⟨kind, n⟩, hsome⟩ := Option.ne_none_iff_exists'.mp hsome
  have hgt : x.length < n := by
    by_contra hle
    rw [tokenAt_of_append hsome (by omega)] at h
    cases h
  have hscan := scan_plain h
  have hmem : ∀ q, (x ++ y)[n - 1]? = some q → q ∈ y := by
    intro q hget
    rw [getElem?_append_right (by omega)] at hget
    exact mem_of_getElem? hget
  have hread := tokenAt_eq_some_iff.mp hsome
  generalize ht : x ++ y = t at hread
  cases hread with
  | line more =>
    cases x with
    | nil => exact hloose.absurd rfl rfl (by rw [show y = _ from ht]; rfl) rfl
    | cons d x =>
      obtain ⟨rfl, _⟩ := cons_eq_cons.mp ht
      simp [tokenAt] at h
  | @block more i hi =>
    cases x with
    | nil => exact hloose.absurd rfl rfl (by rw [show y = _ from ht]; rfl) rfl
    | cons d x =>
      obtain ⟨x, ⟨rfl, rfl⟩, rfl⟩ := exists_cons_of_append ht (by simp)
      have hstar : scan ('*' :: x) = .plain '*' :: scan x := scan_plain (by simp [tokenAt])
      have hclosing : ['*', '/'] <:+: x ++ y := by
        by_contra hnot
        rw [find?_eq_none_iff.mpr hnot] at hi
        cases hi
      rcases infix_append_pair hclosing with hx | hy | ⟨hx, hy⟩
      · refine find?_eq_none_iff.mp ?_ hx
        simpa [tokenAt] using h
      · exact hapart.comment ⟨[], scan x, by rw [hscan]; rfl⟩ hy
      · exact hloose.absurd (c := '*') (by simp [getLast?_cons, hx]) rfl hy rfl
  | @raw more m hn =>
    cases x with
    | nil => exact hloose.absurd rfl rfl (by rw [show y = _ from ht]; rfl) rfl
    | cons d x =>
      obtain ⟨x, ⟨rfl, rfl⟩, rfl⟩ := exists_cons_of_append ht (by simp)
      have hpos := (rawLength_bounds hn).1
      have hy : '"' ∈ y := by
        refine hmem _ ?_
        rw [cons_append, show 1 + m - 1 = m - 1 + 1 by omega, getElem?_cons_succ, getElem?_of_rawLength hn]
      refine hapart.quote '"' (.inl rfl) ?_ hy
      obtain ⟨d, rest, i, heq, hd, hlength, _, _⟩ := rawLength_eq_some_iff.mp hn
      rcases notMem_or_isRawStart heq hd hlength with hnot | hraw
      · exact .inl (by rw [hscan, plain_quote_of_notMem (.inl rfl) hnot]; simp)
      · exact .inr ⟨rfl, [], _, hscan, by rwa [flatMap_written_scan]⟩
  | string hn | char hn =>
    subst ht
    exact hapart.quote _ (by simp) (.inl (by rw [hscan]; simp)) (hmem _ (getElem?_of_quotedLength (by decide) hn))

lemma EndsInComment.cons (h : scan (c :: rest) = l :: scan rest')
    (hends : EndsInComment rest') : EndsInComment (c :: rest) := by
  obtain ⟨w, hw⟩ := hends
  exact ⟨w, by rw [h, getLast?_cons, hw]; rfl⟩

lemma ScanApart.of_cons (h : scan (c :: rest) = l :: scan rest') (hapart : ScanApart (c :: rest) y) :
    ScanApart rest' y :=
  ⟨fun q hq hopen => hapart.quote q hq (hopen.cons h), fun hopen => hapart.comment (hopen.cons h)⟩

lemma scan_append (hapart : ScanApart x y)
    (hloose : Loose isMark x y) (hends : ¬ EndsInComment x) :
    scan (x ++ y) = scan x ++ scan y := by
  induction x using scan_induction with
  | nil => rfl
  | plain c rest hnone ih =>
    have hscan := scan_plain hnone
    have htail := ih (hapart.of_cons hscan) (hloose.of_suffix (suffix_cons c rest)) fun h => hends (h.cons hscan)
    rw [cons_append, scan_plain (tokenAt_eq_none_append hnone hapart hloose), hscan, htail, cons_append]
  | token c rest kind n htoken ih =>
    have hscan := scan_token htoken
    have htail := ih (hapart.of_cons hscan) (hloose.of_suffix ((drop_suffix n rest).trans (suffix_cons c rest))) fun h => hends (h.cons hscan)
    have hle := (tokenAt_bounds htoken).2
    have htoken' : tokenAt c (rest ++ y) = some (kind, n) := by
      refine tokenAt_append htoken y ?_
      rintro rfl
      by_contra hlt
      rw [drop_eq_nil_of_le (by omega)] at hscan
      exact hends ⟨_, by rw [hscan]; rfl⟩
    rw [cons_append, scan_token htoken', hscan, take_append_of_le_length hle, drop_append_of_le_length hle,
      htail, cons_append]

/-! ## Masked lexemes -/

/-- What is left of a lexeme when comments and literals are masked. -/
def shown : Lexeme → Text
  | .plain c => [c]
  | .token kind w =>
    match chooseAll kind with
    | some keep => replaceInside kind keep all w
    | none => w

lemma replaceTokens_eq (t : Text) : replaceTokens chooseAll all t = (scan t).flatMap shown := rfl

lemma tokenRead_of_mem (h : .token kind w ∈ scan t) :
    ∃ c rest n, TokenRead c rest kind n ∧ n ≤ rest.length ∧ w = c :: rest.take n := by
  induction t using scan_induction with
  | nil => cases h
  | plain c rest hnone ih =>
    rw [scan_plain hnone] at h
    exact ih (by simpa using h)
  | token c rest kind' n htoken ih =>
    rw [scan_token htoken] at h
    rcases mem_cons.mp h with heq | hmem
    · cases heq
      exact ⟨c, rest, n, tokenAt_eq_some_iff.mp htoken, (tokenAt_bounds htoken).2, rfl⟩
    · exact ih hmem

/-- A masked literal: only its quotes are visible, and the letter before them. -/
def IsHollow (s : Text) : Prop :=
  ∃ head inner q, (q = '"' ∨ q = '\'') ∧ (head = [q] ∨ head = ['R', q]) ∧ (∀ c ∈ inner, isBlank c) ∧
    s = head ++ inner ++ [q]

lemma isHollow_mask {k : Nat} (hq : q = '"' ∨ q = '\'') (hlast : w[w.length - 1]? = some q)
    (hhead : w.take k = [q] ∨ w.take k = ['R', q]) :
    IsHollow (w.take k ++ Mask.all (between w k (w.length - 1)) ++ w.drop (w.length - 1)) := by
  obtain ⟨hlt, hget⟩ := List.getElem?_eq_some_iff.mp hlast
  refine ⟨w.take k, Mask.all (between w k (w.length - 1)), q, hq, hhead, fun c hc => Mask.isBlank_of_mem_all hc, ?_⟩
  rw [drop_eq_getElem_cons hlt, hget, drop_eq_nil_of_le (by omega)]

lemma shown_comment (h : kind = .lineComment ∨ kind = .blockComment) (w : Text) :
    shown (.token kind w) = Mask.all w := by
  rcases h with rfl | rfl <;> simp [shown, Mask.chooseAll, Mask.replaceInside, between]

lemma shown_token (h : .token kind w ∈ scan t) :
    (∀ c ∈ shown (.token kind w), isBlank c) ∨ IsHollow (shown (.token kind w)) := by
  obtain ⟨c, rest, n, hread, hle, rfl⟩ := tokenRead_of_mem h
  have hlast : ∀ q, 0 < n → rest[n - 1]? = some q → (c :: rest.take n)[(c :: rest.take n).length - 1]? = some q := by
    intro q hpos hq
    rw [length_cons, length_take_of_le hle, Nat.add_sub_cancel, show n = n - 1 + 1 by omega,
      getElem?_cons_succ, getElem?_take_of_lt (by omega), hq]
  cases hread with
  | line more | block hi =>
    left
    intro c hc
    rw [shown_comment (by tauto)] at hc
    exact Mask.isBlank_of_mem_all hc
  | @raw more m hn =>
    right
    have hpos := (Mask.rawLength_bounds hn).1
    refine isHollow_mask (k := 2) (.inl rfl) (hlast '"' (by omega) ?_) (.inr ?_)
    · rw [show 1 + m - 1 = m - 1 + 1 by omega, getElem?_cons_succ, getElem?_of_rawLength hn]
    · rw [Nat.add_comm]
      rfl
  | string hn | char hn =>
    right
    have hpos := (Mask.quotedLength_bounds (by decide) hn).1
    exact isHollow_mask (k := 1) (by simp) (hlast _ hpos (getElem?_of_quotedLength (by decide) hn)) (.inl rfl)

lemma mem_isHollow (h : IsHollow s) (hc : c ∈ s) :
    isBlank c ∨ c = '"' ∨ c = '\'' ∨ c = 'R' := by
  obtain ⟨head, inner, q, hq, hhead, hinner, rfl⟩ := h
  simp only [mem_append, mem_singleton] at hc
  rcases hc with (hc | hc) | rfl
  · have hhead' : c = 'R' ∨ c = q := by rcases hhead with rfl | rfl <;> simp_all
    rcases hhead' with rfl | rfl <;> tauto
  · exact .inl (hinner c hc)
  · tauto

/-- Behind its first character nothing is visible of a masked literal but quotes. -/
lemma mem_tail_isHollow {u : Text} (h : IsHollow (u ++ v)) (hu : u ≠ []) (hc : c ∈ v) :
    isBlank c ∨ c = '"' ∨ c = '\'' := by
  obtain ⟨head, inner, q, hq, hhead, hinner, heq⟩ := h
  obtain ⟨d, u, rfl⟩ := exists_cons_of_ne_nil hu
  have hmem : c ∈ (head ++ inner ++ [q]).tail := by
    rw [← heq, cons_append]
    exact mem_append_right u hc
  rcases hhead with rfl | rfl
  · simp only [cons_append, nil_append, tail_cons, mem_append, mem_singleton] at hmem
    rcases hmem with hc | rfl
    · exact .inl (hinner c hc)
    · exact .inr hq
  · simp only [cons_append, nil_append, tail_cons, mem_cons, mem_append, not_mem_nil, or_false] at hmem
    rcases hmem with rfl | hc | rfl
    · exact .inr hq
    · exact .inl (hinner c hc)
    · exact .inr hq

/-- Each part of a masked literal shows a quote or the letter before it. -/
lemma exists_mem_isHollow {u : Text} (h : IsHollow (u ++ v)) :
    (u ≠ [] → ∃ c ∈ u, c = '"' ∨ c = '\'' ∨ c = 'R') ∧ (v ≠ [] → ∃ c ∈ v, c = '"' ∨ c = '\'') := by
  obtain ⟨head, inner, q, hq, hhead, hinner, heq⟩ := h
  refine ⟨fun hu => ?_, fun hv => ?_⟩
  · obtain ⟨d, u, rfl⟩ := exists_cons_of_ne_nil hu
    refine ⟨d, by simp, ?_⟩
    rcases hhead with rfl | rfl <;> obtain ⟨rfl, _⟩ := cons_eq_cons.mp heq <;> tauto
  · rcases eq_nil_or_concat' v with rfl | ⟨v, d, rfl⟩
    · exact absurd rfl hv
    · rw [← append_assoc] at heq
      obtain ⟨_, rfl⟩ := append_inj' heq rfl |>.imp_right singleton_inj.mp
      exact ⟨d, by simp, hq⟩

/-- The two parts of a masked text are those of a text that is cut between two lexemes. -/
def CutBetween (t a b : Text) : Prop :=
  ∃ x y, t = x ++ y ∧ replaceTokens chooseAll all x = a ∧ replaceTokens chooseAll all y = b ∧
    scan (x ++ y) = scan x ++ scan y

/-- A masked text falls into two parts between two lexemes or inside of a token. -/
lemma cut_or_straddling {a b : Text} (h : replaceTokens chooseAll all t = a ++ b) : CutBetween t a b ∨
    ∃ kind w a' u v b', .token kind w ∈ scan t ∧ shown (.token kind w) = u ++ v ∧ u ≠ [] ∧ v ≠ [] ∧ a = a' ++ u ∧
      b = v ++ b' := by
  have hcut : ∀ l₁ l₂, scan t = l₁ ++ l₂ → l₁.flatMap shown = a → l₂.flatMap shown = b → CutBetween t a b := by
    intro l₁ l₂ hscan ha hb
    have ht : t = l₁.flatMap written ++ l₂.flatMap written := by
      rw [← flatMap_append, ← hscan, flatMap_written_scan]
    obtain ⟨hx, hy⟩ := scan_append_inv (ht ▸ hscan) rfl
    exact ⟨_, _, ht, by rw [replaceTokens_eq, hx, ha], by rw [replaceTokens_eq, hy, hb], by rw [← ht, hx, hy, hscan]⟩
  rw [replaceTokens_eq] at h
  rcases flatten_eq_append_iff.mp h with ⟨m₁, m₂, hm, rfl, rfl⟩ | ⟨m₁, u, c, v, m₂, hm, rfl, rfl⟩
  · obtain ⟨l₁, l₂, hscan, rfl, rfl⟩ := map_eq_append_iff.mp hm
    exact .inl (hcut l₁ l₂ hscan flatMap_def flatMap_def)
  · obtain ⟨l₁, l₂, hscan, rfl, hm₂⟩ := map_eq_append_iff.mp hm
    obtain ⟨l, l₂, rfl, hl, rfl⟩ := map_eq_cons_iff.mp hm₂
    cases u with
    | nil =>
      refine .inl (hcut l₁ (l :: l₂) hscan (by simp [flatMap_def]) ?_)
      rw [flatMap_cons, hl]
      rfl
    | cons d u =>
      cases l with
      | plain e => simp [shown] at hl
      | token kind w =>
        refine .inr ⟨kind, w, _, d :: u, c :: v, _, ?_, hl, by simp, by simp, rfl, rfl⟩
        rw [hscan]
        simp

/-! ## Comments and literals as a layer -/

/-- Whether a character that begins no literal leaves it at that: its quote does not follow. -/
def isQuiet (c : Char) (more : Text) : Bool :=
  (!(c == '"' || c == '\'') || !more.contains c) && (!(c == 'R' && isRawStart more) || !(more.drop 1).contains '"')

/-- Whether what is begun and is no literal stays open. -/
def settled : List Lexeme → Bool
  | [] => true
  | .plain c :: rest => isQuiet c (rest.flatMap written) && settled rest
  | .token _ _ :: rest => settled rest

lemma isQuiet_iff {more : Text} : isQuiet c more ↔
    (c = '"' ∨ c = '\'' → c ∉ more) ∧ (c = 'R' → isRawStart more → '"' ∉ more.drop 1) := by
  cases hraw : isRawStart more with
  | true | false => simp [isQuiet, hraw, or_iff_not_imp_left]

lemma forall_plain_cons {d : Lexeme} {l : List Lexeme} {P : Char → List Lexeme → Prop} :
    (∀ l₁ c l₂, d :: l = l₁ ++ .plain c :: l₂ → P c l₂) ↔
      (∀ c, d = .plain c → P c l) ∧ ∀ l₁ c l₂, l = l₁ ++ .plain c :: l₂ → P c l₂ := by
  refine ⟨fun h => ⟨fun c hc => h [] c l (by rw [hc]; rfl), fun l₁ c l₂ heq => h (d :: l₁) c l₂ (by rw [heq]; rfl)⟩, ?_⟩
  rintro ⟨hfirst, hrest⟩ (_ | ⟨e, l₁⟩) c l₂ heq
  · obtain ⟨hd, rfl⟩ := cons_eq_cons.mp heq
    exact hfirst c hd
  · exact hrest l₁ c l₂ (cons_eq_cons.mp heq).2

lemma settled_iff {l : List Lexeme} :
    settled l ↔ ∀ l₁ c l₂, l = l₁ ++ .plain c :: l₂ → isQuiet c (l₂.flatMap written) := by
  induction l with
  | nil => simp [settled]
  | cons d l ih =>
    rw [forall_plain_cons (P := fun c l₂ => isQuiet c (l₂.flatMap written)), ← ih]
    cases d <;> simp [settled]

lemma length_pos_of_isRawStart (h : isRawStart x) : 0 < x.length := by
  obtain ⟨d, rest, rfl, _⟩ := isRawStart_iff.mp h
  simp

lemma mem_of_plain_mem (h : .plain c ∈ scan t) : c ∈ t := by
  rw [← flatMap_written_scan t]
  exact mem_flatMap.mpr ⟨_, h, by simp [written]⟩

lemma settled_append {l l' : List Lexeme} (h : settled (l ++ l')) : settled l ∧ settled l' := by
  simp only [settled_iff] at h ⊢
  refine ⟨fun l₁ c l₂ heq => ?_, fun l₁ c l₂ heq => h (l ++ l₁) c l₂ (by rw [heq, append_assoc])⟩
  obtain ⟨hq, hr⟩ := isQuiet_iff.mp (h l₁ c (l₂ ++ l') (by rw [heq, append_assoc, cons_append]))
  rw [flatMap_append] at hq hr
  refine isQuiet_iff.mpr ⟨fun hc hmem => hq hc (mem_append_left _ hmem), fun hc hraw hmem => ?_⟩
  refine hr hc (isRawStart_append hraw _) ?_
  rw [drop_append_of_le_length (length_pos_of_isRawStart hraw)]
  exact mem_append_left _ hmem

lemma steady_of_noBrackets (h : ∀ c ∈ v, c ≠ '[' ∧ c ≠ ']') (y : Text) :
    Steady attributeGroup v y ∧ Steady attributeGroup y v := by
  have hnone : ∀ x y : Text, x ≠ [] → '[' ∉ x → attributeGroup none (x ++ y) = none := by
    intro x y hx hmem
    obtain ⟨c, x, rfl⟩ := exists_cons_of_ne_nil hx
    by_contra hsome
    obtain ⟨n, hn⟩ := Option.ne_none_iff_exists'.mp hsome
    obtain ⟨rest, i, heq, _⟩ := attributeGroup_eq_some_iff.mp hn
    obtain ⟨rfl, _⟩ := cons_eq_cons.mp heq
    exact hmem (by simp)
  refine ⟨?_, ?_⟩
  · rintro x₁ x₂ rfl hne
    have hmem : '[' ∉ x₂ := fun hmem => (h _ (mem_append_right _ hmem)).1 rfl
    rw [hnone x₂ y hne hmem, ← append_nil x₂, hnone x₂ [] hne hmem]
  · refine NoCrossing.steady local_attributeGroup ?_ fun x₁ x₂ n _ hn => attributeGroup_append hn v
    rintro x₁ x₂ n rfl hne hn
    -- an attribute ends with a closing bracket
    obtain ⟨rest, i, heq, hi, _, rfl⟩ := attributeGroup_eq_some_iff.mp hn
    obtain ⟨hclosing, _⟩ := find?_eq_some_iff.mp hi
    have hlast := getElem?_of_prefix_drop hclosing (i := 1) (by simp)
    by_contra hlt
    have hget : (x₂ ++ v)[i + 3]? = some ']' := by
      rw [heq, getElem?_cons_succ, getElem?_cons_succ, hlast]
      rfl
    rw [getElem?_append_right (by omega)] at hget
    exact (h _ (mem_of_getElem? hget)).2 rfl

lemma attributes_of_noBrackets (h : ∀ c ∈ v, c ≠ '[' ∧ c ≠ ']') (keep : Bool) : attributes v keep = v := by
  have happend := attributes_append (fun hmem => (h _ hmem).1 rfl) [] keep
  rw [append_nil] at happend
  exact happend.trans (append_nil v)

lemma IsHollow.noBrackets (h : IsHollow s) (hc : c ∈ s) : c ≠ '[' ∧ c ≠ ']' := by
  rcases mem_isHollow h hc with hblank | rfl | rfl | rfl
  · refine ⟨?_, ?_⟩ <;> rintro rfl <;> exact absurd hblank (by decide)
  all_goals decide

/-- A part of a masked literal stays visible next to a gap. -/
lemma mem_attributes (h : ∀ c ∈ s, c ≠ '[' ∧ c ≠ ']') (hc : c ∈ s) :
    c ∈ attributes (s ++ y) false ∧ c ∈ attributes (y ++ s) false := by
  obtain ⟨hleft, hright⟩ := steady_of_noBrackets h y
  have happend := replaceAll_append (f := maskedAttribute false) local_attributeGroup hleft
  have happend' := replaceAll_append (f := maskedAttribute false) local_attributeGroup hright
  rw [← attributes_eq, ← attributes_eq, ← attributes_eq, attributes_of_noBrackets h false] at happend happend'
  rw [happend, happend']
  exact ⟨mem_append_left _ hc, mem_append_right _ hc⟩

lemma scanApart_of_settled (hcut : scan (x ++ y) = scan x ++ scan y)
    (h : settled (scan (x ++ y))) : ScanApart x y := by
  refine ⟨?_, ?_⟩
  · have hquiet : ∀ l₁ c l₂, scan x = l₁ ++ .plain c :: l₂ → isQuiet c (l₂.flatMap written ++ y) := by
      intro l₁ c l₂ hscan
      have := settled_iff.mp h l₁ c (l₂ ++ scan y) (by rw [hcut, hscan, append_assoc, cons_append])
      rwa [flatMap_append, flatMap_written_scan] at this
    rintro q hq (hmem | ⟨rfl, l₁, l₂, hscan, hraw⟩) hy
    · obtain ⟨l₁, l₂, hscan⟩ := append_of_mem hmem
      exact (isQuiet_iff.mp (hquiet l₁ q l₂ hscan)).1 hq (mem_append_right _ hy)
    · refine (isQuiet_iff.mp (hquiet l₁ 'R' l₂ hscan)).2 rfl (isRawStart_append hraw y) ?_
      rw [drop_append_of_le_length (length_pos_of_isRawStart hraw)]
      exact mem_append_right _ hy
  · rintro ⟨l₁, l₂, hscan⟩ hy
    have hslash : scan (x ++ y) = l₁ ++ .plain '/' :: .plain '*' :: (l₂ ++ scan y) := by
      rw [hcut, ← hscan]
      simp
    have hnone := (tokenAt_of_scan hslash).1
    rw [flatMap_cons, flatMap_append, flatMap_written_scan] at hnone
    have hfind : find? ['*', '/'] (l₂.flatMap written ++ y) = none := by simpa [tokenAt, written] using hnone
    exact find?_eq_none_iff.mp hfind (hy.trans (suffix_append ..).isInfix)

lemma getLast?_of_scan (h : (scan x).getLast? = some (.plain c)) : x.getLast? = some c := by
  obtain ⟨l, hl⟩ := getLast?_eq_some_iff.mp h
  rw [← flatMap_written_scan x, hl, flatMap_append, getLast?_append]
  rfl

lemma head?_of_scan (h : (scan x).head? = some (.plain c)) : x.head? = some c := by
  obtain ⟨l, hl⟩ := head?_eq_some_iff.mp h
  rw [← flatMap_written_scan x, hl]
  rfl

section

variable {x x' : Text} (hcut : scan (x ++ x') = scan x ++ scan x')

include hcut

variable {q : Char}

lemma OpensQuote.append_left (h : OpensQuote q x) : OpensQuote q (x ++ x') := by
  rcases h with h | ⟨rfl, l₁, l₂, hscan, hraw⟩
  · exact .inl (by rw [hcut]; exact mem_append_left _ h)
  · refine .inr ⟨rfl, l₁, l₂ ++ scan x', by rw [hcut, hscan, append_assoc, cons_append], ?_⟩
    rw [flatMap_append]
    exact isRawStart_append hraw _

lemma OpensQuote.append_right (h : OpensQuote q x') : OpensQuote q (x ++ x') := by
  rcases h with h | ⟨rfl, l₁, l₂, hscan, hraw⟩
  · exact .inl (by rw [hcut]; exact mem_append_right _ h)
  · exact .inr ⟨rfl, scan x ++ l₁, l₂, by rw [hcut, hscan, append_assoc], hraw⟩

lemma OpensComment.append_left (h : OpensComment x) : OpensComment (x ++ x') := by
  rw [OpensComment, hcut]
  exact h.trans (prefix_append ..).isInfix

lemma OpensComment.append_right (h : OpensComment x') : OpensComment (x ++ x') := by
  rw [OpensComment, hcut]
  exact h.trans (suffix_append ..).isInfix

lemma opensQuote_or (hloose : Loose isMark x x')
    (h : OpensQuote q (x ++ x')) : OpensQuote q x ∨ OpensQuote q x' := by
  rcases h with h | ⟨rfl, l₁, l₂, hscan, hraw⟩
  · rw [hcut] at h
    exact (mem_append.mp h).imp .inl .inl
  rcases append_eq_append_iff.mp (hcut.symm.trans hscan) with ⟨l, rfl, hl⟩ | ⟨l, hl, heq⟩
  · exact .inr (.inr ⟨rfl, l, l₂, hl, hraw⟩)
  cases l with
  | nil => exact .inr (.inr ⟨rfl, [], l₂, heq.symm, hraw⟩)
  | cons d l =>
    obtain ⟨l, ⟨rfl, rfl⟩, rfl⟩ := exists_cons_of_append heq.symm (by simp)
    left
    rw [flatMap_append, flatMap_written_scan] at hraw
    obtain ⟨d, rest, heq, hd, hlength⟩ := isRawStart_iff.mp hraw
    have hwritten := tokenAt_of_scan hl
    cases hw : l.flatMap written with
    | nil =>
      refine (hloose.absurd (c := 'R') ?_ rfl (d := '"') ?_ rfl).elim
      · rw [← flatMap_written_scan x, hl, flatMap_append, flatMap_cons, hw]
        exact getLast?_concat ..
      · rw [hw] at heq
        rw [show x' = _ from heq]
        rfl
    | cons e w =>
      rw [hw] at heq
      obtain ⟨rfl, hrest⟩ := cons_eq_cons.mp heq
      rcases notMem_or_isRawStart hrest hd hlength with hnot | hraw
      · have hplain := plain_quote_of_notMem (.inl rfl) hnot
        rw [← hw, hwritten.2] at hplain
        exact .inl (by rw [hl, hplain]; simp)
      · exact .inr ⟨rfl, l₁, l, hl, by rwa [hw]⟩

lemma opensComment_or (hloose : Loose isMark x x')
    (h : OpensComment (x ++ x')) : OpensComment x ∨ OpensComment x' := by
  rw [OpensComment, hcut] at h
  rcases infix_append_pair h with h | h | ⟨hlast, hhead⟩
  · exact .inl h
  · exact .inr h
  · exact (hloose.absurd (getLast?_of_scan hlast) rfl (head?_of_scan hhead) rfl).elim

end

end Lexeme

namespace Mask

open Lexeme

/-- The comments and literals as a layer. A gap may hold comments and attributes. -/
def Layer.tokens (gap : Char → Bool) (hgap : ∀ c, c = '"' ∨ c = '\'' ∨ c = 'R' → gap c = false) : Layer where
  mask := replaceTokens chooseAll all
  special := isMark
  stands c := !isBlank c && !(c == '"' || c == '\'')
  Cut x y := scan (x ++ y) = scan x ++ scan y
  Apart := ScanApart
  Swallows := EndsInComment
  Fine t := settled (scan t)
  Gap g := ∀ c ∈ Mask.attributes g false, gap c
  maskedForm := maskedForm_replaceTokens chooseAll
  special_visible c h := by
    simp only [isMark, Bool.or_eq_true, beq_iff_eq] at h
    rcases h with (rfl | rfl) | rfl <;> decide
  stands_visible := by simp +contextual
  mask_append h := by simp [replaceTokens_eq, h]
  fine_of_cut hfine hcut := settled_append (hcut ▸ hfine)
  apart_of_cut hfine hcut := scanApart_of_settled hcut hfine
  cut_of_apart := scan_append
  apart_of_append_left := by
    intro x x' y hcut hapart
    exact ⟨⟨fun q hq h => hapart.quote q hq (h.append_left hcut), fun h => hapart.comment (h.append_left hcut)⟩,
      ⟨fun q hq h => hapart.quote q hq (h.append_right hcut), fun h => hapart.comment (h.append_right hcut)⟩⟩
  apart_of_append_right := by
    intro x y y' _ hapart
    exact ⟨⟨fun q hq h hmem => hapart.quote q hq h (mem_append_left _ hmem),
        fun h hin => hapart.comment h (hin.trans (prefix_append ..).isInfix)⟩,
      ⟨fun q hq h hmem => hapart.quote q hq h (mem_append_right _ hmem),
        fun h hin => hapart.comment h (hin.trans (suffix_append ..).isInfix)⟩⟩
  apart_append_left := by
    intro x x' y hcut hloose hx hx'
    exact ⟨fun q hq h => (opensQuote_or hcut hloose h).elim (hx.quote q hq) (hx'.quote q hq),
      fun h => (opensComment_or hcut hloose h).elim hx.comment hx'.comment⟩
  apart_append_right := by
    intro x y y' _ hloose hy hy'
    refine ⟨fun q hq h hmem => (mem_append.mp hmem).elim (hy.quote q hq h) (hy'.quote q hq h), fun h hin => ?_⟩
    rcases infix_append_pair hin with hin | hin | ⟨hlast, hhead⟩
    · exact hy.comment h hin
    · exact hy'.comment h hin
    · exact hloose.absurd hlast rfl hhead rfl
  apart_separator := by
    intro s hs x
    have hnot : ∀ c, isSeparator c = false → c ∉ s := fun c hc hmem => by simp [hs c hmem] at hc
    refine ⟨⟨?_, fun _ hin => hnot '/' rfl (hin.subset (by simp))⟩, ⟨?_, ?_⟩⟩
    · rintro q (rfl | rfl) _ <;> exact hnot _ rfl
    · rintro q hq (hmem | ⟨rfl, l₁, l₂, hscan, _⟩)
      · rcases hq with rfl | rfl <;> exact absurd (mem_of_plain_mem hmem) (hnot _ rfl)
      · exact absurd (mem_of_plain_mem (c := 'R') (by rw [hscan]; simp)) (hnot _ rfl)
    · intro h
      exact absurd (mem_of_plain_mem (h.subset (by simp))) (hnot '/' rfl)
  swallows_append := by
    rintro x y hcut hy ⟨w, hw⟩
    refine ⟨w, ?_⟩
    have hne : scan y ≠ [] := by
      intro h
      have := flatMap_written_scan y
      rw [h] at this
      exact hy this.symm
    rw [hcut, getLast?_append] at hw
    obtain ⟨l, hl⟩ := Option.ne_none_iff_exists'.mp (mt getLast?_eq_none_iff.mp hne)
    rw [hl] at hw ⊢
    exact hw
  not_swallows_of_visible := by
    rintro x c hc hv ⟨w, hw⟩
    obtain ⟨l, hl⟩ := getLast?_eq_some_iff.mp hw
    obtain ⟨d, rest, n, _, _, rfl⟩ := tokenRead_of_mem (mem_of_getLast? hw)
    rw [replaceTokens_eq, hl, flatMap_append, flatMap_singleton, shown_comment (.inl rfl),
      getLast?_append_of_ne_nil _ (by simp [all])] at hc
    rw [isBlank_of_mem_all (mem_of_getLast? hc)] at hv
    cases hv
  not_swallows_separator := by
    rintro s hs ⟨w, hw⟩
    have hmem := mem_of_getLast? hw
    obtain ⟨d, rest, n, hread, _, rfl⟩ := tokenRead_of_mem hmem
    cases hread
    have hslash : '/' ∈ s := by
      rw [← flatMap_written_scan s]
      exact mem_flatMap.mpr ⟨_, hmem, mem_cons_self ..⟩
    exact absurd (hs _ hslash) (by decide)
  cut_at := by
    intro t a b _ hmask hseam
    rcases cut_or_straddling hmask with hcut | ⟨kind, w, a', u, v, b', hmem, hshown, hu, hne, ha, hb⟩
    · exact hcut
    -- a token that is cut shows a quote or the letter of a raw literal on each side, and no other visible character
    exfalso
    rcases shown_token hmem with hblank | hhollow
    · rw [hshown] at hblank
      rcases hseam.visible (by simp +contextual) with hhead | hlast
      · obtain ⟨c, hc⟩ := Option.isSome_iff_exists.mp (isSome_head?.mpr hne)
        have hv := hhead c (by rw [hb, head?_append_of_ne_nil _ hne, hc])
        simp [hblank c (mem_append_right u (mem_of_mem_head? hc))] at hv
      · obtain ⟨c, hc⟩ := Option.ne_none_iff_exists'.mp (mt getLast?_eq_none_iff.mp hu)
        have hv := hlast c (by rw [ha, getLast?_append_of_ne_nil _ hu, hc])
        simp [hblank c (mem_append_left v (mem_of_getLast? hc))] at hv
    · rw [hshown] at hhollow
      cases hseam with
      | before a b hstands =>
        obtain ⟨c, v, rfl⟩ := exists_cons_of_ne_nil hne
        obtain ⟨rfl, _⟩ := cons_eq_cons.mp hb
        have := mem_tail_isHollow hhollow hu (mem_cons_self ..)
        simp_all
      | after a b hstands hword =>
        have hlast := congrArg List.getLast? ha
        rw [getLast?_concat, getLast?_append_of_ne_nil _ hu] at hlast
        rcases mem_isHollow hhollow (mem_append_left v (mem_of_getLast? hlast.symm)) with h | rfl | rfl | rfl
        any_goals simp_all
        exact absurd hword (by decide)
      | ahead hgaps hlast =>
        obtain ⟨q, hq, hquote⟩ := (exists_mem_isHollow hhollow).2 hne
        have hshow := (mem_attributes (y := b') (fun d hd => hhollow.noBrackets (mem_append_right u hd)) hq).1
        have := hgaps q (hb ▸ hshow)
        rw [hgap q (by tauto)] at this
        cases this
      | behind hgaps hhead =>
        obtain ⟨q, hq, hletter⟩ := (exists_mem_isHollow hhollow).1 hu
        have hshow := (mem_attributes (y := a') (fun d hd => hhollow.noBrackets (mem_append_left v hd)) hq).2
        have := hgaps q (ha ▸ hshow)
        rw [hgap q hletter] at this
        cases this

end Mask

end CppScaffold
