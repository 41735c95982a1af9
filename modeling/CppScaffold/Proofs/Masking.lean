import CppScaffold.Lexical.Mask
import CppScaffold.Proofs.Lines
import CppScaffold.Proofs.Search
import Mathlib.Data.List.Forall2
import Mathlib.Data.List.TakeWhile

/-!
# Masked texts keep the layout

Masking keeps the length of a text and its line breaks, so offsets and the table of lines are those of the text itself.
-/

namespace CppScaffold

open Text List

namespace Lexeme

/-! ## Comments and literals -/

variable {q c : Char} {t rest : Text} {n : Nat} {kind : TokenKind}

lemma quotedLength_cons (hc : c ≠ '\\') (rest : Text) : quotedLength q (c :: rest) =
    if c = q then some 1 else if isBreak c then none else (quotedLength q rest).map (· + 1) := by
  cases rest <;> simp [quotedLength, hc]

/-- The inside of a literal. A backslash takes the next character along. -/
inductive Quoted (q : Char) : Text → Prop where
  | nil : Quoted q []
  | escape (d : Char) {b : Text} (h : Quoted q b) : Quoted q ('\\' :: d :: b)
  | cons {c : Char} {b : Text} (hq : c ≠ q) (hback : c ≠ '\\') (hbreak : ¬ isBreak c) (h : Quoted q b) :
      Quoted q (c :: b)

lemma quotedLength_eq_some_iff (hq : q ≠ '\\') :
    quotedLength q t = some n ↔ ∃ b rest, t = b ++ q :: rest ∧ Quoted q b ∧ n = b.length + 1 := by
  constructor
  · intro h
    fun_induction quotedLength q t generalizing n with
    | case1 => cases h
    | case2 d rest ih =>
      obtain ⟨k, hk, rfl⟩ := Option.map_eq_some_iff.mp h
      obtain ⟨b, rest, rfl, hb, rfl⟩ := ih hk
      exact ⟨'\\' :: d :: b, rest, rfl, .escape d hb, rfl⟩
    | case3 c rest _ hc =>
      cases h
      exact ⟨[], rest, by rw [beq_iff_eq.mp hc]; rfl, .nil, rfl⟩
    | case4 => cases h
    | case5 c rest _ hc hstop ih =>
      obtain ⟨k, hk, rfl⟩ := Option.map_eq_some_iff.mp h
      obtain ⟨b, rest, rfl, hb, rfl⟩ := ih hk
      simp only [Bool.or_eq_true, beq_iff_eq, not_or] at hc hstop
      exact ⟨c :: b, rest, rfl, .cons hc hstop.1 hstop.2 hb, rfl⟩
  · rintro ⟨b, rest, rfl, hb, rfl⟩
    induction hb with
    | nil => rw [nil_append, quotedLength_cons hq, if_pos rfl]; rfl
    | escape d _ ih => simp [quotedLength, ih]
    | cons hne hback hbreak _ ih =>
      rw [cons_append, quotedLength_cons hback, if_neg hne, if_neg hbreak, ih]
      rfl

lemma rawLength_eq_some_iff : rawLength t = some n ↔
    ∃ d rest i, t = d ++ '(' :: rest ∧ (∀ c ∈ d, isDelimiterChar c) ∧ d.length ≤ 16 ∧
      find? (')' :: d ++ ['"']) rest = some i ∧ n = d.length + 1 + i + (d.length + 2) := by
  constructor
  · intro h
    rw [rawLength] at h
    split_ifs at h with hopen
    simp only [Bool.and_eq_true, decide_eq_true_eq, beq_iff_eq] at hopen
    obtain ⟨i, hi, rfl⟩ := Option.map_eq_some_iff.mp h
    obtain ⟨rest, hrest⟩ := head?_eq_some_iff.mp hopen.2
    refine ⟨t.takeWhile isDelimiterChar, rest, i, ?_, fun c hc => mem_takeWhile_imp hc, hopen.1, ?_, ?_⟩
    · rw [← hrest, drop_length_takeWhile, takeWhile_append_dropWhile]
    · rwa [hrest] at hi
    · simp
  · rintro ⟨d, rest, i, rfl, hd, hlength, hi, rfl⟩
    have htake := takeWhile_append_cons hd (e := '(') rfl rest
    simpa [rawLength, htake, hlength] using hi

/-- The comment or literal that begins with a character. -/
inductive TokenRead : Char → Text → TokenKind → Nat → Prop where
  | line (more : Text) : TokenRead '/' ('/' :: more) .lineComment (1 + (more.takeWhile (!isBreak ·)).length)
  | block {more : Text} {i : Nat} (h : find? ['*', '/'] more = some i) :
      TokenRead '/' ('*' :: more) .blockComment (1 + i + 2)
  | raw {more : Text} {n : Nat} (h : rawLength more = some n) : TokenRead 'R' ('"' :: more) .rawString (1 + n)
  | string {more : Text} {n : Nat} (h : quotedLength '"' more = some n) : TokenRead '"' more .string n
  | char {more : Text} {n : Nat} (h : quotedLength '\'' more = some n) : TokenRead '\'' more .char n

lemma tokenAt_eq_some_iff : tokenAt c rest = some (kind, n) ↔ TokenRead c rest kind n := by
  constructor
  · intro h
    unfold tokenAt at h
    split at h
    · cases h
      exact .line _
    · obtain ⟨i, hi, ⟨⟩⟩ := Option.map_eq_some_iff.mp h
      exact .block hi
    · obtain ⟨i, hi, ⟨⟩⟩ := Option.map_eq_some_iff.mp h
      exact .raw hi
    · obtain ⟨i, hi, ⟨⟩⟩ := Option.map_eq_some_iff.mp h
      exact .string hi
    · obtain ⟨i, hi, ⟨⟩⟩ := Option.map_eq_some_iff.mp h
      exact .char hi
    · cases h
  · rintro (_ | h | h | h | h)
    · rfl
    all_goals simp [tokenAt, h]

end Lexeme

namespace Mask

open Lexeme

/-- How a character may look in a masked text: it is itself, or a space if it is no line break. -/
def MaskedAs (c m : Char) : Prop := m = c ∨ (m = ' ' ∧ isBreak c = false)

/-- The text `m` comes from `t` by masking some characters, and none of them belongs to a line break. -/
structure MaskedForm (t m : Text) : Prop where
  /-- No character is lost or added. -/
  length_eq : m.length = t.length
  /-- Each character stays as it is, or is a space in the place of one that is no line break. -/
  char_at : ∀ (i : Nat) (h : i < t.length), m[i]? = some t[i] ∨ (m[i]? = some ' ' ∧ isBreak t[i] = false)
  /-- Line breaks stay where they are, and there are no new ones. -/
  break_at : ∀ (i : Nat) (c : Char), isBreak c → (m[i]? = some c ↔ t[i]? = some c)
  lineStarts_eq : ∀ offset : Nat, lineStartsFrom offset m = lineStartsFrom offset t

variable {c left right : Char} {t : Text} {n : Nat} {kind : TokenKind}

lemma MaskedAs.eq_of_isBreak {m : Char} (h : MaskedAs c m) (hb : isBreak m) : m = c := by
  rcases h with rfl | ⟨rfl, _⟩
  · rfl
  · exact absurd hb (by decide)

lemma MaskedAs.isBreak_eq {m : Char} (h : MaskedAs c m) : isBreak m = isBreak c := by
  rcases h with rfl | ⟨rfl, hc⟩
  · rfl
  · rw [hc]
    decide

lemma MaskedAs.trans {m u : Char} (h : MaskedAs c m) (h' : MaskedAs m u) : MaskedAs c u := by
  rcases h' with rfl | ⟨rfl, hm⟩
  · exact h
  · exact .inr ⟨rfl, by rw [← h.isBreak_eq, hm]⟩

lemma lineStartsFrom_eq_of_forall₂ {m : Text} (h : List.Forall₂ MaskedAs t m) (offset : Nat) :
    lineStartsFrom offset m = lineStartsFrom offset t := by
  fun_induction lineStartsFrom offset t generalizing m with
  | case1 =>
    cases h
    rw [lineStartsFrom]
  | case2 offset rest ih =>
    obtain _ | ⟨hc, _ | ⟨hc', hrest⟩⟩ := h
    have hr := hc.eq_of_isBreak (hc.isBreak_eq.trans rfl)
    have hn := hc'.eq_of_isBreak (hc'.isBreak_eq.trans rfl)
    rw [hr, hn, lineStartsFrom_crlf, ih hrest]
  | case3 offset c rest hshort hbreak ih =>
    obtain _ | ⟨hc, hrest⟩ := h
    have heq := hc.eq_of_isBreak (hc.isBreak_eq.trans hbreak)
    rw [heq, lineStartsFrom_cons, if_pos hbreak, ih hrest]
    -- a line feed after the carriage return would be one in the text as well
    rintro rfl hhead
    obtain ⟨more, rfl⟩ := head?_eq_some_iff.mp hhead
    obtain _ | ⟨hc', _⟩ := hrest
    exact hshort _ rfl (by rw [← hc'.eq_of_isBreak rfl])
  | case4 offset c rest hshort hbreak ih =>
    obtain _ | ⟨hc, hrest⟩ := h
    have hbreak' := fun hb => hbreak (hc.isBreak_eq.symm.trans hb)
    rw [lineStartsFrom_cons, if_neg hbreak', ih hrest]
    rintro rfl
    exact absurd rfl hbreak'

/-- The masked forms of a text are those that agree with it character by character. -/
lemma maskedForm_iff_forall₂ {m : Text} : MaskedForm t m ↔ List.Forall₂ MaskedAs t m := by
  constructor
  · intro h
    refine forall₂_iff_get.mpr ⟨h.length_eq.symm, fun i hi hi' => ?_⟩
    have hc := h.char_at i hi
    simpa [MaskedAs, getElem?_eq_getElem hi'] using hc
  · intro h
    obtain ⟨hlen, hget⟩ := forall₂_iff_get.mp h
    have hchar : ∀ (i : Nat) (hi : i < t.length), m[i]? = some t[i] ∨ (m[i]? = some ' ' ∧ isBreak t[i] = false) := by
      intro i hi
      have hi' : i < m.length := hlen ▸ hi
      simpa [MaskedAs, getElem?_eq_getElem hi'] using hget i hi hi'
    refine ⟨hlen.symm, hchar, fun i c hc => ?_, lineStartsFrom_eq_of_forall₂ h⟩
    by_cases hi : i < t.length
    · rw [getElem?_eq_getElem hi]
      rcases hchar i hi with hm | ⟨hm, hb⟩
      · rw [hm]
      · rw [hm]
        constructor
        · intro h1
          rw [← Option.some.inj h1] at hc
          exact absurd hc (by decide)
        · intro h1
          rw [Option.some.inj h1, hc] at hb
          cases hb
    · simp [getElem?_eq_none (Nat.le_of_not_lt hi), getElem?_eq_none (hlen ▸ Nat.le_of_not_lt hi)]

namespace MaskedForm

lemma refl (t : Text) : MaskedForm t t :=
  maskedForm_iff_forall₂.mpr (forall₂_same.mpr fun _ _ => Or.inl rfl)

variable {t m : Text}

lemma trans {u : Text} (h1 : MaskedForm t m) (h2 : MaskedForm m u) : MaskedForm t u := by
  obtain ⟨hlength, hget⟩ := forall₂_iff_get.mp (maskedForm_iff_forall₂.mp h1)
  obtain ⟨hlength', hget'⟩ := forall₂_iff_get.mp (maskedForm_iff_forall₂.mp h2)
  refine maskedForm_iff_forall₂.mpr (forall₂_iff_get.mpr ⟨hlength.trans hlength', fun i hi hi' => ?_⟩)
  exact (hget i hi (hlength ▸ hi)).trans (hget' i (hlength ▸ hi) hi')

lemma append {t' m' : Text} (h : MaskedForm t m) (h' : MaskedForm t' m') :
    MaskedForm (t ++ t') (m ++ m') :=
  maskedForm_iff_forall₂.mpr
    (rel_append (maskedForm_iff_forall₂.mp h) (maskedForm_iff_forall₂.mp h'))

lemma cons (c : Char) (h : MaskedForm t m) : MaskedForm (c :: t) (c :: m) :=
  append (refl [c]) h

lemma flatMap {α : Type} {f g : α → Text} {l : List α} (h : ∀ a ∈ l, MaskedForm (f a) (g a)) :
    MaskedForm (l.flatMap f) (l.flatMap g) := by
  induction l with
  | nil => exact refl []
  | cons a l ih =>
    obtain ⟨ha, h⟩ := forall_mem_cons.mp h
    exact append ha (ih h)

lemma set_space {i : Nat} {c : Char} (hc : t[i]? = some c) (hb : isBreak c = false) : MaskedForm t (t.set i ' ') := by
  obtain ⟨hi, rfl⟩ := List.getElem?_eq_some_iff.mp hc
  have hcons : t.drop i = t[i] :: t.drop (i + 1) := drop_eq_getElem_cons hi
  have hmid : MaskedForm (t.drop i) (' ' :: t.drop (i + 1)) := by
    rw [hcons]
    exact maskedForm_iff_forall₂.mpr
      (.cons (Or.inr ⟨rfl, hb⟩) (maskedForm_iff_forall₂.mp (refl _)))
  have h := append (refl (t.take i)) hmid
  rw [set_eq_take_append_cons_drop, if_pos hi]
  rwa [take_append_drop] at h

end MaskedForm

lemma maskedForm_all (t : Text) : MaskedForm t (all t) := by
  refine maskedForm_iff_forall₂.mpr (forall₂_map_right_iff.mpr (forall₂_same.mpr fun c _ => ?_))
  by_cases hb : isBreak c <;> simp [MaskedAs, maskChar, hb]

@[simp] lemma maskChar_maskChar (c : Char) : maskChar (maskChar c) = maskChar c := by
  by_cases hc : isBreak c <;> simp [maskChar, hc]

@[simp] lemma all_all (t : Text) : all (all t) = all t := by
  rw [all, all, map_map]
  exact map_congr_left fun c _ => maskChar_maskChar c

lemma maskedForm_mask_between_append {a b : Nat} (h : a ≤ b) {m : Text} (hm : MaskedForm (t.drop b) m) :
    MaskedForm t (t.take a ++ all (between t a b) ++ m) := by
  have hparts := ((MaskedForm.refl (t.take a)).append (maskedForm_all (between t a b))).append hm
  rwa [take_append_between_append_drop t h] at hparts

lemma maskedForm_mask_between (t : Text) {a b : Nat} (h : a ≤ b) :
    MaskedForm t (t.take a ++ all (between t a b) ++ t.drop b) :=
  maskedForm_mask_between_append h (.refl _)

/-! ## Comments and literals -/

lemma quotedLength_bounds {q : Char} (hq : q ≠ '\\') (h : quotedLength q t = some n) : 1 ≤ n ∧ n ≤ t.length := by
  obtain ⟨b, rest, rfl, _, rfl⟩ := (quotedLength_eq_some_iff hq).mp h
  simp

lemma rawLength_bounds (h : rawLength t = some n) : 2 ≤ n ∧ n ≤ t.length := by
  obtain ⟨d, rest, i, rfl, _, _, hi, rfl⟩ := rawLength_eq_some_iff.mp h
  have hfound := add_length_le_of_find? hi (by simp)
  simp only [length_append, length_cons, length_nil] at hfound ⊢
  omega

lemma tokenAt_bounds {rest : Text} (h : tokenAt c rest = some (kind, n)) :
    (enclosing kind).1 + (enclosing kind).2 ≤ n + 1 ∧ n ≤ rest.length := by
  cases tokenAt_eq_some_iff.mp h with
  | line more =>
    have hle := (takeWhile_sublist (fun c => !isBreak c) (l := more)).length_le
    simp only [enclosing, length_cons]
    omega
  | block hi =>
    have hfound := add_length_le_of_find? hi (by simp)
    simp only [enclosing, length_cons, length_nil] at hfound ⊢
    omega
  | raw hn =>
    have hraw := rawLength_bounds hn
    simp only [enclosing, length_cons]
    omega
  | string hn | char hn =>
    have hquoted := quotedLength_bounds (by decide) hn
    simp only [enclosing]
    omega

lemma flatMap_written_scanFrom (skip : Nat) (t : Text) : (scanFrom skip t).flatMap written = t.drop skip := by
  induction t generalizing skip with
  | nil => simp [scanFrom]
  | cons c rest ih =>
    cases skip with
    | succ skip => simp [scanFrom, ih]
    | zero =>
      rw [scanFrom]
      split
      · next kind n _ => simp [ih, written]
      · simp [ih, written]

lemma flatMap_written_scan (t : Text) : (scan t).flatMap written = t := by
  rw [scan, flatMap_written_scanFrom, drop_zero]

lemma enclosing_le_of_mem_scanFrom {skip : Nat} {w : Text}
    (h : .token kind w ∈ scanFrom skip t) : (enclosing kind).1 + (enclosing kind).2 ≤ w.length := by
  induction t generalizing skip with
  | nil => simp [scanFrom] at h
  | cons c rest ih =>
    cases skip with
    | succ skip => exact ih h
    | zero =>
      rw [scanFrom] at h
      split at h
      · next k n htoken =>
        rcases mem_cons.mp h with heq | hmem
        · cases heq
          have hb := tokenAt_bounds htoken
          simp only [length_cons, length_take]
          omega
        · exact ih hmem
      · rcases mem_cons.mp h with heq | hmem
        · cases heq
        · exact ih hmem

lemma maskedForm_replaceInside (keep : Bool) (h : (enclosing kind).1 + (enclosing kind).2 ≤ t.length) :
    MaskedForm t (replaceInside kind keep all t) := by
  cases keep with
  | false => simpa [replaceInside] using maskedForm_mask_between t (Nat.zero_le t.length)
  | true =>
    have hle : (enclosing kind).1 ≤ t.length - (enclosing kind).2 := by omega
    exact maskedForm_mask_between t hle

lemma maskedForm_replaceTokens (chosen : TokenKind → Option Bool) (t : Text) :
    MaskedForm t (replaceTokens chosen all t) := by
  have hpieces : MaskedForm ((scan t).flatMap written) (replaceTokens chosen all t) := by
    refine MaskedForm.flatMap fun l hl => ?_
    cases l with
    | plain c => exact .refl _
    | token kind w =>
      simp only [written]
      split
      · exact maskedForm_replaceInside _ (enclosing_le_of_mem_scanFrom hl)
      · exact .refl _
  rwa [flatMap_written_scan] at hpieces

/-! ## Attributes and comparison operators -/

/-- Replacing what a recogniser accepts masks a text if it masks each accepted part. -/
lemma maskedForm_replaceAllFrom {r : Recognizer} {f : Text → Text}
    (h : ∀ prev t n, r prev t = some (n + 1) → MaskedForm (t.take (n + 1)) (f (t.take (n + 1))))
    (prev : Option Char) (skip : Nat) (t : Text) : MaskedForm (t.drop skip) (replaceAllFrom r f prev skip t) := by
  induction t generalizing prev skip with
  | nil => simpa [replaceAllFrom] using MaskedForm.refl []
  | cons c rest ih =>
    cases skip with
    | succ skip => exact ih _ _
    | zero =>
      rw [replaceAllFrom]
      split
      · next n hr =>
        have happend := (h _ _ _ hr).append (ih (some c) n)
        simpa using happend
      · exact (ih (some c) 0).cons c

lemma maskedForm_attributes (t : Text) (keep : Bool) : MaskedForm t (attributes t keep) := by
  refine maskedForm_replaceAllFrom (fun prev u n hu => ?_) none 0 t
  cases keep with
  | false => exact maskedForm_all _
  | true =>
    refine maskedForm_mask_between _ ?_
    -- an accepted attribute has its four brackets
    unfold attributeGroup at hu
    split at hu
    · next rest =>
      split at hu
      · next i hi =>
        have hfound := add_length_le_of_find? hi (by simp)
        split_ifs at hu
        cases hu
        simp only [length_take, length_cons, length_nil] at hfound ⊢
        omega
      · cases hu
    · cases hu

lemma maskedForm_comparisons (t : Text) : MaskedForm t (comparisons t) :=
  maskedForm_replaceAllFrom (fun _ _ _ _ => maskedForm_all _) none 0 t

/-! ## Bracketed groups -/

/-- A group opens before it closes. The outermost group that is open began before the current place. -/
lemma lt_of_mem_spans {offset depth start : Nat} {escaped : Bool} (hstart : 0 < depth → start < offset) :
    ∀ s ∈ (groupsFrom left right offset depth start escaped t).spans, s.1 < s.2 := by
  fun_induction groupsFrom left right offset depth start escaped t with
  | case1 => simp
  | case2 _ _ _ _ _ ih | case3 _ _ _ _ _ _ _ _ ih => exact ih fun h => (hstart h).trans (Nat.lt_succ_self _)
  | case4 offset depth start _ _ _ _ _ _ ih =>
    refine ih fun _ => ?_
    split_ifs with hd
    · omega
    · exact (hstart (by omega)).trans (Nat.lt_succ_self _)
  | case5 => simp
  | case6 offset start _ _ _ _ _ _ _ g ih => exact forall_mem_cons.mpr ⟨hstart (by omega), ih (by omega)⟩
  | case7 offset start _ _ _ _ _ _ _ _ ih => exact ih fun _ => (hstart (by omega)).trans (Nat.lt_succ_self _)
  | case8 _ _ _ _ _ _ _ _ _ _ ih => exact ih fun h => (hstart h).trans (Nat.lt_succ_self _)

/-- A delimiter without partner is a delimiter; the rest of `whole` from `offset` on is still to be scanned. -/
lemma char_at_unbalanced {whole : Text} {offset depth start : Nat} {escaped : Bool} (hrest : whole.drop offset = t)
    (hstart : 0 < depth → whole[start]? = some left) {i : Nat}
    (h : (groupsFrom left right offset depth start escaped t).unbalanced = some i) :
    whole[i]? = some left ∨ whole[i]? = some right := by
  have hnext : ∀ {c : Char} {rest : Text} {offset : Nat}, whole.drop offset = c :: rest →
      whole[offset]? = some c ∧ whole.drop (offset + 1) = rest := by
    intro c rest offset hd
    constructor
    · rw [← head?_drop, hd, head?_cons]
    · rw [← drop_drop, hd, drop_succ_cons, drop_zero]
  fun_induction groupsFrom left right offset depth start escaped t with
  | case1 offset depth start =>
    split_ifs at h with hd
    cases h
    exact Or.inl (hstart hd)
  | case2 _ _ _ _ _ ih | case3 _ _ _ _ _ _ _ _ ih => exact ih (hnext hrest).2 hstart h
  | case4 offset depth start _ _ _ _ _ hleft ih =>
    refine ih (hnext hrest).2 (fun _ => ?_) h
    split_ifs with hd
    · rw [(hnext hrest).1, eq_of_beq hleft]
    · exact hstart (by omega)
  | case5 offset _ _ _ _ _ _ _ hright =>
    cases h
    exact Or.inr (by rw [(hnext hrest).1, eq_of_beq hright])
  | case6 _ _ _ _ _ _ _ _ _ _ ih => exact ih (hnext hrest).2 (by omega) h
  | case7 _ _ _ _ _ _ _ _ _ _ ih => exact ih (hnext hrest).2 (fun _ => hstart (by omega)) h
  | case8 _ _ _ _ _ _ _ _ _ _ ih => exact ih (hnext hrest).2 hstart h

/-- Each round of balancing blanks one delimiter, so all of them together mask the text. -/
lemma maskedForm_balance (hleft : isBreak left = false) (hright : isBreak right = false)
    (fuel : Nat) (t : Text) : MaskedForm t (balance left right fuel t) := by
  induction fuel generalizing t with
  | zero => exact .refl t
  | succ fuel ih =>
    rw [balance]
    split
    · exact .refl t
    · next i hi =>
      have hround : MaskedForm t (t.set i ' ') := by
        rcases char_at_unbalanced (drop_zero (l := t)) (by omega) hi with hc | hc
        · exact .set_space hc hleft
        · exact .set_space hc hright
      exact hround.trans (ih _)

lemma maskedForm_maskSpans (keep : Bool) {spans : List (Nat × Nat)} (h : ∀ s ∈ spans, s.1 < s.2)
    (offset : Nat) (t : Text) : MaskedForm t (maskSpans keep offset spans t) := by
  induction spans generalizing offset t with
  | nil => exact .refl t
  | cons s spans ih =>
    obtain ⟨start, stop⟩ := s
    obtain ⟨hlt, h⟩ := forall_mem_cons.mp h
    have hstep : ∀ first last, first ≤ last → MaskedForm t
        (t.take (first - offset) ++ all (between t (first - offset) (last - offset))
          ++ maskSpans keep last spans (t.drop (last - offset))) :=
      fun first last hle => maskedForm_mask_between_append (by omega) (ih h last _)
    cases keep with
    | false => exact hstep start (stop + 1) (by omega)
    | true => exact hstep (start + 1) stop hlt

lemma maskedForm_balanced (hleft : isBreak left = false) (hright : isBreak right = false)
    (t : Text) (keep : Bool) : MaskedForm t (balanced left right t keep) :=
  (maskedForm_balance hleft hright _ t).trans
    (maskedForm_maskSpans keep (lt_of_mem_spans (by omega)) 0 _)

lemma maskedForm_parentheses (t : Text) (keep : Bool) : MaskedForm t (parentheses t keep) :=
  maskedForm_balanced rfl rfl t keep

lemma maskedForm_braces (t : Text) (keep : Bool) : MaskedForm t (braces t keep) :=
  maskedForm_balanced rfl rfl t keep

lemma maskedForm_brackets (t : Text) (keep : Bool) : MaskedForm t (brackets t keep) :=
  maskedForm_balanced rfl rfl t keep

lemma maskedForm_angleBrackets (t : Text) (keep : Bool) : MaskedForm t (angleBrackets t keep) :=
  maskedForm_balanced rfl rfl t keep

lemma maskedForm_nonSource (t : Text) (keepAttributes : Bool) : MaskedForm t (nonSource t keepAttributes) :=
  (maskedForm_replaceTokens chooseAll t).trans (maskedForm_attributes _ keepAttributes)

lemma maskedForm_nestedGroups (t : Text) : MaskedForm t (nestedGroups t) := by
  have hparentheses := maskedForm_parentheses t true
  have hcomparisons := hparentheses.trans (maskedForm_comparisons _)
  have hangles := hcomparisons.trans (maskedForm_angleBrackets _ true)
  have hbraces := hangles.trans (maskedForm_braces _ true)
  exact hbraces.trans (maskedForm_brackets _ true)

/-! ## Parts of masked texts -/

namespace MaskedForm

variable {t m : Text}

lemma take (h : MaskedForm t m) (n : Nat) : MaskedForm (t.take n) (m.take n) :=
  maskedForm_iff_forall₂.mpr (forall₂_take n (maskedForm_iff_forall₂.mp h))

lemma drop (h : MaskedForm t m) (n : Nat) : MaskedForm (t.drop n) (m.drop n) :=
  maskedForm_iff_forall₂.mpr (forall₂_drop n (maskedForm_iff_forall₂.mp h))

lemma extract (h : MaskedForm t m) (s : Span) : MaskedForm (extract t s) (extract m s) :=
  (h.drop s.start).take (s.stop - s.start)

lemma append_inv {m' : Text} (h : MaskedForm t (m ++ m')) :
    ∃ u u', t = u ++ u' ∧ MaskedForm u m ∧ MaskedForm u' m' := by
  refine ⟨t.take m.length, t.drop m.length, (take_append_drop ..).symm, ?_, ?_⟩
  · simpa using h.take m.length
  · simpa using h.drop m.length

lemma getElem?_of_visible (h : MaskedForm t m) {i : Nat} {c : Char} (hc : m[i]? = some c) (hne : c ≠ ' ') :
    t[i]? = some c := by
  have hi : i < t.length := h.length_eq ▸ (List.getElem?_eq_some_iff.mp hc).1
  rcases h.char_at i hi with heq | ⟨heq, _⟩
  · rw [getElem?_eq_getElem hi, ← heq, hc]
  · exact absurd (Option.some.inj (hc.symm.trans heq)) hne

lemma getElem?_of_not_isBlank (h : MaskedForm t m) {i : Nat} {c : Char} (hc : m[i]? = some c)
    (hblank : isBlank c = false) : t[i]? = some c := by
  refine h.getElem?_of_visible hc ?_
  rintro rfl
  exact absurd hblank (by decide)

lemma cons_inv {c : Char} (h : MaskedForm t (c :: m)) (hne : c ≠ ' ') : ∃ u, t = c :: u ∧ MaskedForm u m := by
  obtain ⟨u, rest, rfl, hu, hrest⟩ := h.append_inv (m := [c])
  obtain ⟨d, rfl⟩ := length_eq_one_iff.mp hu.length_eq.symm
  obtain rfl := Option.some.inj (hu.getElem?_of_visible (i := 0) rfl hne)
  exact ⟨rest, rfl, hrest⟩

lemma blank (h : MaskedForm t m) (ht : ∀ c ∈ t, isBlank c) : ∀ c ∈ m, isBlank c := by
  intro c hc
  obtain ⟨i, hi⟩ := mem_iff_getElem?.mp hc
  by_cases hspace : c = ' '
  · rw [hspace]
    decide
  · exact ht c (mem_of_getElem? (h.getElem?_of_visible hi hspace))

lemma prefix_of_visible (h : MaskedForm t m) {w : Text} (hw : w <+: m) (hne : ' ' ∉ w) : w <+: t := by
  refine prefix_iff_getElem?.mpr fun i hi => h.getElem?_of_visible (prefix_iff_getElem?.mp hw i hi) ?_
  intro heq
  exact hne (heq ▸ getElem_mem hi)

end MaskedForm

/-- **All masking functions keep the layout of a text**: the result is as long, differs only by spaces and has the same
line breaks. -/
theorem masking_keeps_layout (t : Text) (keep : Bool) :
    MaskedForm t (all t) ∧ MaskedForm t (comments t keep) ∧ MaskedForm t (rawStrings t keep) ∧
      MaskedForm t (quotes t keep) ∧ MaskedForm t (attributes t keep) ∧ MaskedForm t (nonSource t keep) ∧
      MaskedForm t (parentheses t keep) ∧ MaskedForm t (braces t keep) ∧ MaskedForm t (brackets t keep) ∧
      MaskedForm t (angleBrackets t keep) ∧ MaskedForm t (comparisons t) ∧ MaskedForm t (nestedGroups t) :=
  ⟨maskedForm_all t, maskedForm_replaceTokens _ t, maskedForm_replaceTokens _ t,
    maskedForm_replaceTokens _ t, maskedForm_attributes t keep, maskedForm_nonSource t keep,
    maskedForm_parentheses t keep, maskedForm_braces t keep, maskedForm_brackets t keep,
    maskedForm_angleBrackets t keep, maskedForm_comparisons t, maskedForm_nestedGroups t⟩

end Mask

end CppScaffold
