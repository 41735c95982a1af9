import CppScaffold.CodeAction.Header
import CppScaffold.Proofs.CodeStart
import CppScaffold.Proofs.InsertedBreaks
import CppScaffold.Proofs.Insertions
import CppScaffold.Proofs.TrailingReading
import Mathlib.Data.Bool.AllAny

/-!
# Adding a header guard

A guard is added before the first code and found there again unless it is `#pragma once` behind a comment on its line
(`addHeaderGuard_guards_iff`).
-/

namespace CppScaffold

open Text Action Recognizer List Lexeme Mask

namespace Text

variable {a : Text}

lemma afterLast_append_of_notMem {sep : Char} (h : sep ∉ a) (t : Text) :
    afterLast sep (t ++ a) = afterLast sep t ++ a := by
  have hall : ∀ c ∈ a.reverse, c != sep := by simpa using forall_mem_ne'.mpr h
  rw [afterLast, reverse_append, takeWhile_append_of_pos hall, reverse_append, reverse_reverse]
  rfl

lemma afterLast_append_of_mem {sep : Char} (h : sep ∈ a) (t : Text) :
    afterLast sep (t ++ a) = afterLast sep a := by
  rw [afterLast, afterLast, reverse_append, takeWhile_append, if_neg]
  intro hlength
  have hall := (takeWhile_sublist (· != sep)).eq_of_length hlength
  have hne := mem_takeWhile_imp (hall ▸ mem_reverse.mpr h)
  simp at hne

/-- Only blanks stand in the last line of the text. -/
def blankLine (t : Text) : Bool := isAllBlank (afterLast '\n' t)

lemma blankLine_append_of_mem (h : '\n' ∈ a) (t : Text) : blankLine (t ++ a) = blankLine a := by
  rw [blankLine, afterLast_append_of_mem h, ← blankLine]

lemma blankLine_append_of_notMem (h : '\n' ∉ a) (t : Text) :
    blankLine (t ++ a) = (blankLine t && isAllBlank a) := by
  rw [blankLine, afterLast_append_of_notMem h, isAllBlank, all_append]
  rfl

lemma blankLine_of_blank {i : Text} (hi : isAllBlank i) : blankLine i := by
  rw [blankLine, isAllBlank, afterLast, all_reverse, all_eq_true]
  intro c hc
  exact all_eq_true.mp hi c (mem_reverse.mp ((takeWhile_sublist _).subset hc))

lemma blankLine_append_visible {c : Char} (hc : isBlank c = false) {b : Text} (hb : '\n' ∉ b) (t : Text) :
    blankLine (t ++ c :: b) = false := by
  have hnotMem : '\n' ∉ c :: b := by
    rw [mem_cons, not_or]
    refine ⟨?_, hb⟩
    rintro rfl
    cases hc
  rw [blankLine_append_of_notMem hnotMem, isAllBlank, all_cons, hc, Bool.false_and, Bool.and_false]

/-- A line begins at the start of the text and after a line feed. -/
lemma blankLine_iff {t : Text} : blankLine t ↔
    ∃ u i, t = u ++ i ∧ (u = [] ∨ u.getLast? = some '\n') ∧ isAllBlank i := by
  constructor
  · intro h
    obtain ⟨i, ht, hi⟩ := exists_eq_dropEndWhile_append (· != '\n') t
    have hnotMem : '\n' ∉ i := fun hmem => absurd (hi _ hmem) (by decide)
    refine ⟨_, i, ht, ?_, ?_⟩
    · cases hlast : (dropEndWhile (· != '\n') t).getLast? with
      | none => exact .inl (getLast?_eq_none_iff.mp hlast)
      | some c => exact .inr (congrArg some (by simpa using getLast?_dropEndWhile hlast))
    · rw [ht, blankLine_append_of_notMem hnotMem, Bool.and_eq_true] at h
      exact h.2
  · rintro ⟨u, i, rfl, hu, hi⟩
    by_cases hmem : '\n' ∈ i
    · rw [blankLine_append_of_mem hmem]
      exact blankLine_of_blank hi
    · rw [blankLine_append_of_notMem hmem, hi, Bool.and_true]
      rcases hu with rfl | hu
      · rfl
      · obtain ⟨u, rfl⟩ := getLast?_eq_some_iff.mp hu
        exact blankLine_append_of_mem mem_cons_self u

end Text

namespace TextDocument

/-- Accepts a directive and one word, at the start of a line. -/
def guardLine (keyword : String) (word : Text) : Recognizer :=
  seq [atLineStart, directive keyword, blanks1, exactly word, boundary]

/-- Accepts such a directive behind the mark with which it begins. -/
def guardTail (keyword : String) (word : Text) : Recognizer :=
  andThen blanks (andThen (exactly keyword.toList) (andThen blanks1 (andThen (exactly word) boundary)))

lemma guardLine_eq (keyword : String) (word : Text) : guardLine keyword word =
    andThen atLineStart (andThen blanks (andThen (char (· == '#')) (guardTail keyword word))) := by
  rw [guardLine, directive, guardTail]
  simp only [seq, andThen_assoc]

variable {keyword : String} {word : Text}

lemma isSome_guardLine {prev : Option Char} {t : Text} :
    (guardLine keyword word prev t).isSome ↔ (prev = none ∨ prev = some '\n') ∧
      ∃ i b, t = i ++ '#' :: b ∧ isAllBlank i ∧ (guardTail keyword word (some '#') b).isSome := by
  simp only [guardLine_eq, blanks, isSome_atLineStart_andThen, isSome_char_andThen, isSome_many_andThen, isAllBlank,
    all_eq_true]
  refine and_congr_right fun _ => ?_
  constructor
  · rintro ⟨i, _, rfl, hi, -, _, b, rfl, hmark, hb⟩
    obtain rfl := beq_iff_eq.mp hmark
    exact ⟨i, b, rfl, hi, hb⟩
  · rintro ⟨i, b, rfl, hi, hb⟩
    refine ⟨i, _, rfl, hi, ?_, '#', b, rfl, rfl, hb⟩
    rintro c ⟨⟩
    rfl

lemma isSome_search_guardLine {m : Text} : (search? (guardLine keyword word) m).isSome ↔
    ∃ a b, m = a ++ '#' :: b ∧ blankLine a ∧ (guardTail keyword word (some '#') b).isSome := by
  constructor
  · intro h
    obtain ⟨s, hs⟩ := Option.isSome_iff_exists.mp h
    obtain ⟨-, hle, hs, -⟩ := search?_eq_some_iff.mp hs
    obtain ⟨hprev, i, b, hdrop, hi, hb⟩ := isSome_guardLine.mp (Option.isSome_iff_exists.mpr ⟨_, hs⟩)
    refine ⟨m.take s.start ++ i, b, ?_, blankLine_iff.mpr ⟨_, i, rfl, ?_, hi⟩, hb⟩
    · rw [append_assoc, ← hdrop, take_append_drop]
    · rw [← getLast?_take_of_le hle] at hprev
      exact hprev.imp_left getLast?_eq_none_iff.mp
  · rintro ⟨a, b, rfl, ha, hb⟩
    obtain ⟨u, i, rfl, hu, hi⟩ := blankLine_iff.mp ha
    by_contra hnone
    have hno := (Trailing.search?_eq_none_iff.mp (Option.not_isSome_iff_eq_none.mp hnone)) u.length (by simp)
    rw [← getLast?_take_of_le (by simp), append_assoc, take_left, drop_left] at hno
    have hyes := isSome_guardLine.mpr ⟨hu.imp_left getLast?_eq_none_iff.mpr, i, b, rfl, hi, hb⟩
    rw [hno] at hyes
    cases hyes

/-! ## The text in which guards are looked for -/

def guardText (t : Text) : Text := quotes (rawStrings (comments t true) true) true

variable {x : Text}

lemma guardText_append {z : Text} (hx : Inert x) (hz : Joins x z) :
    guardText (x ++ z) = comments x true ++ guardText z := by
  have hcomments := joins_maskedForm hz.comments (maskedForm_comments z true)
  have hraw := joins_maskedForm hcomments (maskedForm_replaceTokens (chooseRawStrings true) _)
  rw [guardText, comments_append (scan_inert_append hx hz), rawStrings,
    replaceTokens_inert_append (by rintro ⟨⟩ <;> intro h <;> cases h <;> rfl) hx.comments hcomments, quotes,
    replaceTokens_inert_append (by rintro ⟨⟩ <;> intro h <;> cases h <;> rfl) hx.comments hraw]
  rfl

lemma head?_replaceTokens {chosen : TokenKind → Option Bool} (hkeep : ∀ kind, chosen kind ≠ some false)
    (f : Text → Text) (t : Text) : (replaceTokens chosen f t).head? = t.head? := by
  cases t with
  | nil => rfl
  | cons c rest =>
    cases htoken : tokenAt c rest with
    | none =>
      rw [replaceTokens, scan_plain htoken]
      rfl
    | some token =>
      obtain ⟨kind, n⟩ := token
      rw [replaceTokens, scan_token htoken, flatMap_cons]
      cases hchosen : chosen kind with
      | none =>
        simp only [hchosen]
        rfl
      | some keep =>
        simp only [hchosen]
        cases keep with
        | false => exact absurd hchosen (hkeep kind)
        | true => cases kind <;> rfl

lemma head?_guardText (y : Text) : (guardText y).head? = y.head? := by
  rw [guardText, quotes, head?_replaceTokens (by rintro ⟨⟩ <;> simp [chooseQuotes]), rawStrings,
    head?_replaceTokens (by rintro ⟨⟩ <;> simp [chooseRawStrings]), comments,
    head?_replaceTokens (by rintro ⟨⟩ <;> simp [chooseComments])]

/-- A guard, after the mark with which its directive begins. -/
def GivesGuard (name b : Text) : Prop :=
  (guardTail "define" name (some '#') b).isSome ∨ (guardTail "pragma" "once" (some '#') b).isSome

section Name

variable {d : TextDocument} {settings : Settings} {name : Text}

lemma isWordChar_guardName (h : d.guardName settings = .ok name) : ∀ c ∈ name, isWordChar c := by
  obtain ⟨fileName, -, h⟩ := exists_ok_of_bind h
  obtain ⟨format, -, ⟨⟩⟩ := exists_ok_of_bind h
  intro c hc
  obtain ⟨e, -, rfl⟩ := mem_map.mp hc
  split
  next he => exact he
  next => decide

lemma afterGuard?_eq_none_iff (h : d.guardName settings = .ok name) : d.afterGuard? settings = .ok none ↔
    ∀ a b, guardText d.text = a ++ '#' :: b → blankLine a → ¬ GivesGuard name b := by
  have hdefine : (search? (definitionOf name) (guardText d.text)).isSome ↔ _ := isSome_search_guardLine
  have hpragma : (search? pragmaOnce (guardText d.text)).isSome ↔ _ := isSome_search_guardLine
  have heq : d.afterGuard? settings = .ok none ↔ ¬ ((search? (definitionOf name) (guardText d.text)).isSome ∨
      (search? pragmaOnce (guardText d.text)).isSome) := by
    rw [afterGuard?, h]
    change Except.ok (Option.map _ _) = Except.ok none ↔ _
    rw [Except.ok.injEq, ← guardText]
    cases search? (definitionOf name) (guardText d.text) with
    | none => simp
    | some s => simp
  rw [heq, hdefine, hpragma]
  simp only [← exists_or, ← and_or_left, not_exists, not_and, GivesGuard]

lemma matchStart_guard {t : Text} :
    ((matchStart? (definitionOf name) t).isSome ∨ (matchStart? pragmaOnce t).isSome) ↔
      ∃ i b, t = i ++ '#' :: b ∧ isAllBlank i ∧ GivesGuard name b := by
  have hdefine : (matchStart? (definitionOf name) t).isSome ↔ _ := isSome_guardLine
  have hpragma : (matchStart? pragmaOnce t).isSome ↔ _ := isSome_guardLine
  rw [hdefine, hpragma]
  simp only [true_or, true_and, ← exists_or, ← and_or_left, GivesGuard]

end Name

/-! ## Before the first code -/

/-- A comment is visible in its last line, whether or not it is masked. -/
lemma exists_mark {w : Text} {kind : TokenKind} (h : .token kind w ∈ scan x) (hkind : kind.isComment) :
    ∃ a b a' b', w = a ++ '/' :: b ∧ veiled true (.token kind w) = a' ++ '/' :: b' ∧ '\n' ∉ b ∧ '\n' ∉ b' := by
  rcases comment_of_mem h hkind with ⟨body, rfl, rfl, hbody⟩ | ⟨inner, rfl, rfl⟩
  · have hfeed : '\n' ∉ body := fun hmem => absurd (hbody _ hmem) (by decide)
    refine ⟨['/'], body, ['/'], Mask.all body, rfl, veiled_line body, hfeed, fun hmem => ?_⟩
    obtain ⟨c, hc, hmask⟩ := mem_map.mp hmem
    rw [Mask.maskChar, if_neg (by simp [hbody c hc])] at hmask
    cases hmask
  · refine ⟨'/' :: '*' :: (inner ++ ['*']), [], '/' :: '*' :: (Mask.all inner ++ ['*']), [], by simp, ?_, by simp, by simp⟩
    rw [veiled_block]
    simp

lemma blankLine_comments (h : Leads x) : blankLine (comments x true) = blankLine x := by
  conv_rhs => rw [← flatMap_written_scan x]
  suffices hall : ∀ ls : List Lexeme, (∀ l ∈ ls, l ∈ scan x) →
      blankLine (ls.flatMap (veiled true)) = blankLine (ls.flatMap written) from hall _ fun l hl => hl
  intro ls hmem
  induction ls using reverseRecOn with
  | nil => rfl
  | append_singleton ls l ih =>
    have ih := ih fun l hl => hmem l (mem_append_left _ hl)
    have hl := hmem l (by simp)
    have hleading := h l hl
    rw [flatMap_append, flatMap_append, flatMap_singleton, flatMap_singleton]
    cases l with
    | plain c =>
      rw [veiled, written]
      by_cases hc : '\n' ∈ [c]
      · rw [blankLine_append_of_mem hc, blankLine_append_of_mem hc]
      · rw [blankLine_append_of_notMem hc, blankLine_append_of_notMem hc, ih]
    | token kind w =>
      obtain ⟨a, b, a', b', hw, hveiled, hb, hb'⟩ := exists_mark hl hleading
      rw [written, hveiled, hw, ← append_assoc, ← append_assoc,
        blankLine_append_visible rfl hb, blankLine_append_visible rfl hb']

lemma exists_append_of_notMem {c : Char} {y a b : Text} (hx : c ∉ x) (h : x ++ y = a ++ c :: b) :
    ∃ a', a = x ++ a' ∧ y = a' ++ c :: b := by
  rcases append_eq_append_iff.mp h with ⟨a', ha, hy⟩ | ⟨x', hx', hb⟩
  · exact ⟨a', ha, hy⟩
  · cases x' with
    | nil => exact ⟨[], by simpa using hx'.symm, by simpa using hb.symm⟩
    | cons e x' =>
      obtain ⟨rfl, _⟩ := cons_eq_cons.mp hb
      exact absurd (hx' ▸ by simp) hx

/-- A directive that is put before code on a line that begins otherwise is no guard. -/
lemma givesGuard_of_insert {name u v rest a b : Text} (hu : '#' ∉ u) (hline : blankLine u = false)
    (hrest : '#' ∉ rest) (hv : ∀ c, v.head? = some c → isBlank c = false)
    (hold : ∀ a b, u ++ v = a ++ '#' :: b → blankLine a → ¬ GivesGuard name b)
    (hnew : u ++ '#' :: (rest ++ v) = a ++ '#' :: b) (ha : blankLine a) (hb : GivesGuard name b) : v = '#' :: b := by
  obtain ⟨a₁, rfl, h₁⟩ := exists_append_of_notMem hu hnew
  cases a₁ with
  | nil =>
    rw [append_nil, hline] at ha
    cases ha
  | cons e a₁ =>
    obtain ⟨rfl, htail⟩ := cons_eq_cons.mp h₁
    obtain ⟨a₂, rfl, h₂⟩ := exists_append_of_notMem hrest htail
    by_cases hmem : '\n' ∈ a₂
    · -- the directive is on a line of its own in the old text, too
      rw [← cons_append, ← append_assoc, blankLine_append_of_mem hmem, ← blankLine_append_of_mem hmem u] at ha
      exact absurd hb (hold _ b (by rw [h₂, append_assoc]) ha)
    · rw [← cons_append, ← append_assoc, blankLine_append_of_notMem hmem, Bool.and_eq_true] at ha
      cases a₂ with
      | nil => exact h₂
      | cons e a₂ =>
        rw [h₂] at hv
        have he := all_eq_true.mp ha.2 e mem_cons_self
        rw [hv e rfl] at he
        cases he

variable {d : TextDocument}

lemma search?_visible {c : Char} {rest : Text} (hx : ∀ e ∈ x, isBlank e) (hc : isBlank c = false) :
    search? (char (!isBlank ·)) (x ++ c :: rest) = some ⟨x.length, x.length + 1⟩ := by
  refine search?_eq_some_iff.mpr ⟨by simp, by simp, ?_, fun j hj => ?_⟩
  · rw [drop_left]
    simp [char, hc]
  · have hj : j < x.length := hj
    rw [drop_append_of_le_length hj.le, drop_eq_getElem_cons hj, cons_append, char]
    rw [hx _ (getElem_mem hj)]
    rfl

lemma search?_blank (hx : ∀ e ∈ x, isBlank e) : search? (char (!isBlank ·)) x = none := by
  refine Trailing.search?_eq_none_iff.mpr fun j hj => ?_
  cases hdrop : x.drop j with
  | nil => rfl
  | cons c rest => simp [char, hx c (mem_of_mem_drop (hdrop ▸ mem_cons_self))]

/-- The place of a guard divides a text into what stands before the code and the rest; without code, the last blanks
are the rest. -/
structure DividedAt (d : TextDocument) (p : Placement) (x y : Text) : Prop where
  text : d.text = x ++ y
  leads : Leads x
  offset : d.offsetAt p.position = x.length
  le_end : p.position ≤ d.endPosition
  before : p.before → scan d.text = scan x ++ scan y ∧ ∃ c, y.head? = some c ∧ isBlank c = false
  after : p.before = false → p.after = !x.isEmpty
  exclusive : p.before → p.after = false

lemma exists_dividedAt (d : TextDocument) : ∃ x y, DividedAt d d.afterHeaderComment x y := by
  obtain ⟨x, y, htext, hscan, hx, hcode⟩ := exists_leads_append d.text
  have hmasked : comments d.text false = comments x false ++ comments y false := by
    rw [htext, comments_append (by rw [← htext, hscan])]
  cases hl : (scan y).head? with
  | some l =>
    obtain ⟨c, rest, rest', rfl, hrest, hc⟩ := comments_of_code hl (hcode l hl)
    have hplace : d.afterHeaderComment = { position := d.positionAt x.length, before := true } := by
      rw [afterHeaderComment, hmasked, hrest, search?_visible (isBlank_of_leads hx) hc]
      simp [(maskedForm_comments x false).length_eq]
    have hle : x.length ≤ d.text.length := by simp [htext]
    have hinside : ¬ InsideBreak d.text x.length :=
      (not_insideBreak_of_visible (c := c) (by rw [htext]; simp) hc).1
    rw [hplace]
    exact ⟨x, c :: rest, htext, hx, by rw [d.offsetAt_positionAt hle, if_neg hinside],
      d.positionAt_mono hle (Nat.le_refl _), fun _ => ⟨hscan, c, rfl, hc⟩, (fun h => absurd h (by simp)), fun _ => rfl⟩
  | none =>
    have hy : y = [] := by
      rw [← flatMap_written_scan y, head?_eq_none_iff.mp hl]
      rfl
    rw [hy, append_nil] at htext
    obtain ⟨r, hr, hblank⟩ := exists_eq_dropEndWhile_append isBlank d.text
    have hplace : d.afterHeaderComment =
        { position := d.positionAt (trimEnd d.text).length, after := (trimEnd d.text).length != 0 } := by
      rw [afterHeaderComment, htext, search?_blank (isBlank_of_leads hx)]
    have hle := length_trimEnd_le d.text
    have hinside : ¬ InsideBreak d.text (trimEnd d.text).length := by
      rcases eq_nil_or_concat' (trimEnd d.text) with hnil | ⟨v, c, hv⟩
      · rw [hnil]
        exact not_false
      · have hc : isBlank c = false := getLast?_dropEndWhile (hv ▸ getLast?_concat)
        rw [hv, length_append]
        refine (not_insideBreak_of_visible ?_ hc).2
        rw [hr, ← trimEnd, hv]
        simp
    rw [hplace]
    refine ⟨trimEnd d.text, r, hr, ?_, by rw [d.offsetAt_positionAt hle, if_neg hinside],
      d.positionAt_mono hle (Nat.le_refl _), (fun h => absurd h (by simp)), fun _ => ?_, fun h => absurd h (by simp)⟩
    · refine leads_of_append_blank hblank ?_
      rw [trimEnd, ← hr, htext]
      exact hx
    · cases trimEnd d.text <;> rfl

end TextDocument

namespace CodeAction

open TextDocument

variable {w : Workspace} {s : ActionState} {uri name path : Text} {d : TextDocument}

/-- The line breaks that go before a guard. -/
def guardLead (d : TextDocument) : Text := if d.afterHeaderComment.after then d.eol ++ d.eol else []

/-- The line break that goes after the opening lines of a guard. -/
def guardTrail (d : TextDocument) : Text := if d.afterHeaderComment.before then d.eol else []

/-- The opening lines of a guard, with the line breaks around them. -/
def guardLines (d : TextDocument) (style : GuardStyle) (name : Text) : Text :=
  guardLead d ++ guardOpening style name d.eol ++ guardTrail d

/-- What a guard adds to the end of a document. -/
def guardClosing (d : TextDocument) (style : GuardStyle) (name : Text) : Text :=
  if style = .pragmaOnce then []
  else (if endsLine d.text then d.eol else d.eol ++ d.eol) ++ ("#endif // " ++ name ++ d.eol)

def guardEdit (d : TextDocument) (style : GuardStyle) (uri name : Text) : WorkspaceEdit :=
  let edit := WorkspaceEdit.insert {} uri d.afterHeaderComment.position (guardLines d style name)
  if style = .pragmaOnce then edit else edit.insert uri d.endPosition (guardClosing d style name)

lemma guardLines_eq (d : TextDocument) (style : GuardStyle) (name : Text) :
    (if d.afterHeaderComment.after then d.eol ++ d.eol ++ guardOpening style name d.eol
      else if d.afterHeaderComment.before then guardOpening style name d.eol ++ d.eol
      else guardOpening style name d.eol) = guardLines d style name := by
  obtain ⟨x, y, h⟩ := exists_dividedAt d
  rw [guardLines, guardLead, guardTrail]
  cases hbefore : d.afterHeaderComment.before with
  | true => simp [h.exclusive hbefore]
  | false => cases d.afterHeaderComment.after <;> simp

section Execute

variable (hread : w.source.read uri = .ok d) (hpath : d.path = .ok path)
  (hheader : w.settings.isHeaderExtension (Path.extension path) = .ok true)

include hread

lemma execute_openDocument (s : ActionState) :
    (openDocument uri).execute w s = (.ok ⟨d, s.openings⟩, { s with openings := s.openings + 1 }) := by
  simp only [openDocument, execute_bind, execute_source, execute_lift, hread, execute_get, execute_modify, execute_pure]

include hpath hheader

lemma execute_addHeaderGuard (hname : d.guardName w.settings = .ok name) (hnone : d.afterGuard? w.settings = .ok none) :
    ∃ s', (addHeaderGuard uri).execute w s = (.ok (guardEdit d w.settings.guardStyle uri name), s') := by
  refine ⟨{ s with openings := s.openings + 1 }, ?_⟩
  simp only [addHeaderGuard, execute_bind, execute_openDocument hread, execute_settings, isHeader, execute_lift, hpath,
    hheader, hnone, hname, Bool.not_true, Bool.false_eq_true, if_false, Option.isSome_none, guardLines_eq]
  rw [guardEdit, guardClosing]
  split
  · rfl
  · rfl

lemma addHeaderGuard_refused {p : Position} (hguard : d.afterGuard? w.settings = .ok (some p)) :
    ((addHeaderGuard uri).execute w s).1 = .error (.action .guardExists) := by
  simp only [addHeaderGuard, execute_bind, execute_openDocument hread, execute_settings, isHeader, execute_lift, hpath,
    hheader, hguard, Bool.not_true, Bool.false_eq_true, if_false, Option.isSome_some, if_true, execute_refuse]

lemma addHeaderGuard_refused_iff (hname : d.guardName w.settings = .ok name) :
    ((addHeaderGuard uri).execute w s).1 = .error (.action .guardExists) ↔ d.afterGuard? w.settings ≠ .ok none := by
  obtain ⟨found, hfound⟩ : ∃ found, d.afterGuard? w.settings = .ok found := by
    rw [afterGuard?, hname]
    exact ⟨_, rfl⟩
  cases found with
  | none =>
    obtain ⟨s', hrun⟩ := execute_addHeaderGuard hread hpath hheader (s := s) hname hfound
    simp [hrun, hfound]
  | some p => simp [addHeaderGuard_refused hread hpath hheader hfound, hfound]

end Execute

/-! ## The lines of a guard -/

section Lines

variable {eol : Text} (heol : eol = ['\n'] ∨ eol = ['\r', '\n'])

include heol

lemma getLast?_append_eol (t : Text) : (t ++ eol).getLast? = some '\n' := by
  rcases heol with rfl | rfl
  · exact getLast?_concat
  · rw [getLast?_append_of_ne_nil _ (by simp)]
    rfl

lemma isBreak_of_mem_eol {c : Char} (hc : c ∈ eol) : isBreak c := by
  rcases heol with rfl | rfl
  · obtain rfl := mem_singleton.mp hc
    rfl
  · rcases mem_pair.mp hc with rfl | rfl <;> rfl

lemma isSome_guardTail {keyword : String} {word : Text}
    (hkeyword : keyword.toList ≠ [] ∧ ∀ c ∈ keyword.toList, isWordChar c)
    (hword : word ≠ [] ∧ ∀ c ∈ word, isWordChar c) (rest : Text) :
    (guardTail keyword word (some '#') (keyword.toList ++ ([' '] ++ (word ++ (eol ++ rest))))).isSome := by
  have hhead : ∀ w x : Text, (w ≠ [] ∧ ∀ c ∈ w, isWordChar c) → ∀ c, (w ++ x).head? = some c → isBlank c = false := by
    intro w x hw c hc
    rw [head?_append_of_ne_nil _ hw.1] at hc
    exact isBlank_of_isWordChar (hw.2 c (mem_of_head? hc))
  simp only [guardTail, blanks, blanks1, isSome_exactly_andThen, isSome_many_andThen, isSome_some1_andThen]
  refine ⟨[], _, rfl, by simp, hhead _ _ hkeyword, _, rfl, ⟨' ', rfl, rfl⟩, [' '], _, rfl, by simp; decide,
    hhead _ _ hword, _, rfl, (isSome_boundary_of_word hword.2 hword.1).mpr ?_⟩
  rcases heol with rfl | rfl
  · rfl
  · rfl

omit heol

lemma exists_guardOpening (style : GuardStyle) (name eol : Text) : ∃ t, guardOpening style name eol = t ++ eol := by
  cases style with
  | pragmaOnce => exact ⟨_, rfl⟩
  | define => exact ⟨_, rfl⟩
  | both => exact ⟨_, (append_assoc ..).symm⟩

lemma guardOpening_pragmaOnce (name eol : Text) :
    guardOpening .pragmaOnce name eol = '#' :: ("pragma" ++ ([' '] ++ ("once" ++ eol))) := rfl

/-- All styles but one define the name, on a line of its own. -/
lemma exists_definition {style : GuardStyle} (hstyle : style ≠ .pragmaOnce) (name eol : Text) :
    ∃ t, guardOpening style name eol = t ++ eol ++ '#' :: ("define" ++ ([' '] ++ (name ++ eol))) := by
  change ∃ t, guardOpening style name eol = t ++ eol ++ ("#define " ++ (name ++ eol))
  have hassoc : ∀ t u : Text, t ++ u ++ name ++ eol = t ++ (u ++ (name ++ eol)) := by simp
  cases style with
  | pragmaOnce => exact absurd rfl hstyle
  | define => exact ⟨_, hassoc ("#ifndef " ++ name ++ eol) _⟩
  | both =>
    refine ⟨"#pragma once" ++ eol ++ ("#ifndef " ++ name), ?_⟩
    rw [append_assoc _ _ eol, append_assoc _ _ ("#define ".toList ++ _), ← hassoc]
    rfl

include heol

lemma unmarked_guardOpening (style : GuardStyle) {name : Text} (hname : ∀ c ∈ name, isWordChar c) :
    Unmarked (guardOpening style name eol) := by
  have heol : Unmarked eol := unmarked_of_isBlank fun c hc => isBlank_of_isBreak (isBreak_of_mem_eol heol hc)
  have hname : Unmarked name := by
    intro c hc
    have hword := hname c hc
    refine ⟨?_, ?_, ?_⟩ <;> rintro rfl <;> revert hword <;> decide
  have hpragma : Unmarked ("#pragma once" ++ eol) :=
    forall_mem_append.mpr ⟨all_iff_forall_prop.mp rfl, heol⟩
  have hline : ∀ t : Text, Unmarked t → Unmarked (t ++ name ++ eol) := fun t ht =>
    forall_mem_append.mpr ⟨forall_mem_append.mpr ⟨ht, hname⟩, heol⟩
  have hdefine := hline _ (forall_mem_append.mpr ⟨hline "#ifndef " (all_iff_forall_prop.mp rfl),
    (all_iff_forall_prop.mp rfl : Unmarked ("#define "))⟩)
  cases style with
  | pragmaOnce => exact hpragma
  | define => exact hdefine
  | both => exact forall_mem_append.mpr ⟨hpragma, hdefine⟩

end Lines

lemma text_guardEdit {x y : Text} (h : DividedAt d d.afterHeaderComment x y) (style : GuardStyle) (uri name : Text) :
    (d.applyEdits ((guardEdit d style uri name).editsOf uri)).text =
      x ++ (guardLines d style name ++ (y ++ guardClosing d style name)) := by
  have htake : d.text.take x.length = x := by rw [h.text, take_left]
  have hdrop : d.text.drop x.length = y := by rw [h.text, drop_left]
  have hnil : ({} : WorkspaceEdit).editsOf uri = [] := rfl
  rw [guardEdit]
  split
  next hstyle =>
    rw [WorkspaceEdit.insert, WorkspaceEdit.editsOf_replace, hnil, nil_append, applyEdits_insertion, h.offset, htake,
      hdrop, guardClosing, if_pos hstyle, append_nil]
  next =>
    rw [WorkspaceEdit.insert, WorkspaceEdit.editsOf_replace, WorkspaceEdit.insert, WorkspaceEdit.editsOf_replace, hnil,
      nil_append, singleton_append, d.applyEdits_insertion_end h.le_end, h.offset, htake, hdrop]

/-! ## Reading the new text -/

lemma isBreak_of_mem_gaps {c : Char} (hc : c ∈ guardLead d ++ guardTrail d) : isBreak c := by
  refine isBreak_of_mem_eol d.eol_cases ?_
  simp only [guardLead, guardTrail, mem_append, mem_ite_nil_right, or_self] at hc
  exact hc.elim And.right And.right

lemma getLast?_guardLines (style : GuardStyle) (name : Text) : (guardLines d style name).getLast? = some '\n' := by
  rw [guardLines, guardTrail]
  split
  · exact getLast?_append_eol d.eol_cases _
  · obtain ⟨t, ht⟩ := exists_guardOpening style name d.eol
    rw [append_nil, ht, ← append_assoc]
    exact getLast?_append_eol d.eol_cases _

section Reading

variable {x y : Text} (h : DividedAt d d.afterHeaderComment x y) (hname : ∀ c ∈ name, isWordChar c = true)
  (style : GuardStyle) (z : Text)

include hname

lemma unmarked_guardLines : Unmarked (guardLines d style name) := by
  have hgaps : Unmarked (guardLead d ++ guardTrail d) :=
    unmarked_of_isBlank fun c hc => isBlank_of_isBreak (isBreak_of_mem_gaps hc)
  have hgaps := forall_mem_append.mp hgaps
  exact forall_mem_append.mpr
    ⟨forall_mem_append.mpr ⟨hgaps.1, unmarked_guardOpening d.eol_cases style hname⟩, hgaps.2⟩

lemma joins_after_guard : Joins (guardLines d style name) z where
  raw hlast := by
    rw [getLast?_guardLines] at hlast
    cases hlast
  comment hends := absurd hends (not_endsInComment_of_unmarked (unmarked_guardLines hname style))

omit hname
include h

lemma joins_guard : Joins x (guardLines d style name ++ z) := by
  refine h.leads.joins fun hends c hc => ?_
  cases hbefore : d.afterHeaderComment.before with
  | true =>
    obtain ⟨hscan, e, he, hvisible⟩ := h.before hbefore
    rw [h.text] at hscan
    have hbreak := isBlank_of_isBreak (isBreak_of_endsInComment hscan hends e he)
    rw [hvisible] at hbreak
    cases hbreak
  | false =>
    have hafter := h.after hbefore
    cases x with
    | nil =>
      obtain ⟨w, hw⟩ := hends
      cases hw
    | cons e x =>
      rw [guardLines, guardLead, hafter] at hc
      rcases d.eol_cases with heol | heol
      · rw [heol] at hc
        cases hc
        rfl
      · rw [heol] at hc
        cases hc
        rfl

include hname

lemma scan_guarded : scan (x ++ (guardLines d style name ++ z)) =
    scan x ++ ((guardLines d style name).map .plain ++ scan z) := by
  rw [scan_inert_append h.leads.inert (joins_guard h style z),
    scan_inert_append (inert_of_unmarked (unmarked_guardLines hname style)) (joins_after_guard hname style z),
    scan_of_unmarked (unmarked_guardLines hname style)]

lemma guardText_guarded : guardText (x ++ (guardLines d style name ++ z)) =
    comments x true ++ (guardLines d style name ++ guardText z) := by
  have hplain : comments (guardLines d style name) true = guardLines d style name := by
    rw [comments_eq, scan_of_unmarked (unmarked_guardLines hname style), flatMap_veiled_plain]
  rw [guardText_append h.leads.inert (joins_guard h style z),
    guardText_append (inert_of_unmarked (unmarked_guardLines hname style)) (joins_after_guard hname style z), hplain]

omit hname

/-- A guard is not found if it is `#pragma once` behind a comment on the same line and the code after it is no guard.
-/
def Overlooked (style : GuardStyle) (name before code : Text) : Prop :=
  style = .pragmaOnce ∧ blankLine before = false ∧ matchStart? (definitionOf name) (guardText code) = none ∧
    matchStart? pragmaOnce (guardText code) = none

lemma blankLine_lead : blankLine (comments x true ++ guardLead d) = blankLine (x ++ guardLead d) := by
  rw [guardLead]
  split
  · have hfeed : '\n' ∈ d.eol ++ d.eol := mem_of_getLast? (getLast?_append_eol d.eol_cases _)
    rw [blankLine_append_of_mem hfeed, blankLine_append_of_mem hfeed]
  · rw [append_nil, append_nil, blankLine_comments h.leads]

/-- Where the guard does not begin a line, code follows on the same line. -/
lemma before_of_blankLine (hline : blankLine (x ++ guardLead d) = false) :
    guardLead d = [] ∧ d.afterHeaderComment.before := by
  have hafter : d.afterHeaderComment.after = false := by
    by_contra hafter
    rw [guardLead, if_pos (by simpa using hafter),
      blankLine_append_of_mem (mem_of_getLast? (getLast?_append_eol d.eol_cases _))] at hline
    rcases d.eol_cases with heol | heol <;> rw [heol] at hline <;> cases hline
  have hlead : guardLead d = [] := by rw [guardLead, hafter, if_neg (by decide)]
  refine ⟨hlead, ?_⟩
  by_contra hbefore
  have hempty := h.after (by simpa using hbefore)
  rw [hafter] at hempty
  cases x with
  | nil =>
    rw [hlead] at hline
    cases hline
  | cons c x => cases hempty

lemma not_givesGuard_of_overlooked (hmissed : Overlooked style name (x ++ guardLead d) y)
    (hold : ∀ a b, guardText d.text = a ++ '#' :: b → blankLine a → ¬ GivesGuard name b) {a b : Text}
    (hnew : comments x true ++ (guardLines d style name ++ guardText (y ++ guardClosing d style name)) = a ++ '#' :: b)
    (ha : blankLine a) : ¬ GivesGuard name b := by
  obtain ⟨rfl, hline, hdefine, hpragma⟩ := hmissed
  obtain ⟨hlead, hbefore⟩ := before_of_blankLine h hline
  obtain ⟨hscan, c, hc, hvisible⟩ := h.before hbefore
  rw [h.text] at hscan
  rw [h.text, guardText_append h.leads.inert (h.leads.joins (isBreak_of_endsInComment hscan))] at hold
  have hrest : '#' ∉ "pragma" ++ ([' '] ++ ("once" ++ d.eol)) ++ d.eol := by
    rcases d.eol_cases with heol | heol <;> rw [heol] <;> decide
  have hmark : '#' ∉ comments x true := fun hmem => by
    rcases mem_comments_of_leads h.leads hmem with hc | hc | hc <;> revert hc <;> decide
  have hcode : ∀ e, (guardText y).head? = some e → isBlank e = false := by
    rw [head?_guardText, hc]
    rintro e ⟨⟩
    exact hvisible
  rw [hlead, append_nil, ← blankLine_comments h.leads] at hline
  rw [guardLines, hlead, guardTrail, hbefore, if_pos rfl, guardClosing, if_pos rfl, append_nil, nil_append,
    guardOpening_pragmaOnce, cons_append, cons_append] at hnew
  intro hb
  have hy := givesGuard_of_insert hmark hline hrest hcode hold hnew ha hb
  rcases matchStart_guard.mpr ⟨[], b, hy, rfl, hb⟩ with hsome | hsome
  · rw [hdefine] at hsome
    cases hsome
  · rw [hpragma] at hsome
    cases hsome

variable (hne : name ≠ [])

include hname hne

lemma exists_guard (hfound : ¬ Overlooked style name (x ++ guardLead d) y) :
    ∃ a b, comments x true ++ (guardLines d style name ++ guardText (y ++ guardClosing d style name)) = a ++ '#' :: b ∧
      blankLine a ∧ GivesGuard name b := by
  by_cases hstyle : style = .pragmaOnce
  · by_cases hline : blankLine (x ++ guardLead d)
    · refine ⟨comments x true ++ guardLead d, "pragma" ++ ([' '] ++ ("once" ++ (d.eol ++ (guardTrail d ++
        guardText (y ++ guardClosing d style name))))), ?_, by rw [blankLine_lead h, hline],
        .inr (isSome_guardTail d.eol_cases ⟨by decide, all_eq_true.mp rfl⟩
          ⟨by decide, all_eq_true.mp rfl⟩ _)⟩
      rw [guardLines, hstyle, guardOpening_pragmaOnce]
      simp
    · obtain ⟨i, b, hy, hi, hb⟩ := matchStart_guard.mp <| by
        by_contra hnone
        rw [not_or, Option.not_isSome_iff_eq_none, Option.not_isSome_iff_eq_none] at hnone
        exact hfound ⟨hstyle, by simpa using hline, hnone⟩
      refine ⟨comments x true ++ guardLines d style name ++ i, b, ?_, blankLine_iff.mpr ⟨_, i, rfl, .inr ?_, hi⟩, hb⟩
      · rw [guardClosing, if_pos hstyle, append_nil, hy]
        simp
      · rw [getLast?_append, getLast?_guardLines]
        rfl
  · obtain ⟨t, ht⟩ := exists_definition hstyle name d.eol
    refine ⟨comments x true ++ (guardLead d ++ t ++ d.eol), "define" ++ ([' '] ++ (name ++ (d.eol ++ (guardTrail d ++
      guardText (y ++ guardClosing d style name))))), ?_, ?_,
      .inl (isSome_guardTail d.eol_cases ⟨by decide, all_eq_true.mp rfl⟩ ⟨hne, hname⟩ _)⟩
    · rw [guardLines, ht]
      simp
    · rw [blankLine_append_of_mem (mem_of_getLast? (getLast?_append_eol d.eol_cases _))]
      exact blankLine_iff.mpr ⟨_, [], (append_nil _).symm, .inr (getLast?_append_eol d.eol_cases _), rfl⟩

end Reading

/-- The new document has the guard before the first code, as code and not as part of a comment. -/
structure GuardAdded (style : GuardStyle) (name : Text) (d d' : TextDocument) (x gap y : Text) : Prop where
  old_text : d.text = x ++ y
  no_code : ∀ c ∈ comments x false, isBlank c
  new_text : ∃ gap' closing, (∀ c ∈ gap ++ gap', isBreak c) ∧
    d'.text = x ++ ((gap ++ guardOpening style name d.eol ++ gap') ++ (y ++ closing)) ∧
    scan d'.text = scan x ++ ((gap ++ guardOpening style name d.eol ++ gap').map .plain ++
      scan (y ++ closing))
  kept : d.text.Sublist d'.text

/-- **A guard takes effect unless it is overlooked.** It is put before the first code and nothing is lost. It is found
again, and a second one refused, if and only if it is not overlooked. -/
theorem addHeaderGuard_guards_iff (hread : w.source.read uri = .ok d) (hpath : d.path = .ok path)
    (hheader : w.settings.isHeaderExtension (Path.extension path) = .ok true)
    (hname : d.guardName w.settings = .ok name) (hne : name ≠ []) (hnone : d.afterGuard? w.settings = .ok none) :
    ∃ edit s', (addHeaderGuard uri).execute w s = (.ok edit, s') ∧ ∃ x gap y,
      let d' := d.applyEdits (edit.editsOf uri)
      GuardAdded w.settings.guardStyle name d d' x gap y ∧
      (d'.afterGuard? w.settings = .ok none ↔ Overlooked w.settings.guardStyle name (x ++ gap) y) ∧
      ∀ w' s₁, w'.settings = w.settings → w'.source.read uri = .ok d' →
        (((addHeaderGuard uri).execute w' s₁).1 = .error (.action .guardExists) ↔
          ¬ Overlooked w.settings.guardStyle name (x ++ gap) y) := by
  obtain ⟨s', hrun⟩ := execute_addHeaderGuard hread hpath hheader (s := s) hname hnone
  obtain ⟨x, y, h⟩ := exists_dividedAt d
  refine ⟨_, s', hrun, x, guardLead d, y, ?_⟩
  have hword := isWordChar_guardName hname
  have htext := text_guardEdit h w.settings.guardStyle uri name
  generalize hd' : d.applyEdits ((guardEdit d w.settings.guardStyle uri name).editsOf uri) = d' at htext ⊢
  have hname' : d'.guardName w.settings = .ok name := by rwa [← hd']
  have hpath' : d'.path = .ok path := by rwa [← hd']
  have hfound : d'.afterGuard? w.settings = .ok none ↔ Overlooked w.settings.guardStyle name (x ++ guardLead d) y := by
    rw [afterGuard?_eq_none_iff hname', htext, guardText_guarded h hword]
    refine ⟨fun hno => ?_, fun hmissed a b =>
      not_givesGuard_of_overlooked h _ hmissed ((afterGuard?_eq_none_iff hname).mp hnone)⟩
    by_contra hmissed
    obtain ⟨a, b, htext, ha, hb⟩ := exists_guard h hword _ hne hmissed
    exact hno a b htext ha hb
  refine ⟨⟨h.text, Lexeme.isBlank_of_leads h.leads, ⟨guardTrail d, guardClosing d _ name, fun c => isBreak_of_mem_gaps,
    htext, ?_⟩, ?_⟩, hfound, fun w' s₁ hsettings hread' => ?_⟩
  · rw [htext, scan_guarded h hword]
    rfl
  · rw [h.text, htext]
    exact (Sublist.refl x).append ((sublist_append_left y _).trans (sublist_append_right _ _))
  · rw [← hsettings] at hheader hname' hfound
    rw [addHeaderGuard_refused_iff hread' hpath' hheader hname', ne_eq, hfound, hsettings]

/-- A header with a comment before the code on the first line. -/
def commentedHeader : TextDocument := ⟨"file:///p/a.h", "/* c */ int x;\n", 0⟩

def commentedWorkspace (style : Text) : Workspace where
  source := .bare fun _ => .ok commentedHeader
  settings := ⟨[(.text "header_guard_style", .str style)]⟩

lemma path_commentedHeader : commentedHeader.path = .ok "/p/a.h" := ok_of_toOption (by decide +kernel)

theorem addHeaderGuard_guards_iff_define :
    let w := commentedWorkspace "define"
    w.source.read commentedHeader.uri = .ok commentedHeader ∧ commentedHeader.path = .ok "/p/a.h" ∧
      w.settings.isHeaderExtension (Path.extension "/p/a.h") = .ok true ∧
      commentedHeader.guardName w.settings = .ok "A_H".toList ∧ "A_H".toList ≠ [] ∧
      commentedHeader.afterGuard? w.settings = .ok none ∧
      ∃ edit s', (addHeaderGuard commentedHeader.uri).execute w {} = (.ok edit, s') ∧
        (commentedHeader.applyEdits (edit.editsOf commentedHeader.uri)).afterGuard? w.settings ≠ .ok none := by
  intro w
  have hheader : w.settings.isHeaderExtension (Path.extension "/p/a.h") = .ok true := ok_of_toOption (by decide +kernel)
  have hname : commentedHeader.guardName w.settings = .ok "A_H" := ok_of_toOption (by decide +kernel)
  have hnone : commentedHeader.afterGuard? w.settings = .ok none := ok_of_toOption (by decide +kernel)
  obtain ⟨edit, s', hrun, x, gap, y, -, hfound, -⟩ :=
    addHeaderGuard_guards_iff (w := w) rfl path_commentedHeader hheader hname (by decide) hnone
  exact ⟨rfl, path_commentedHeader, hheader, hname, by decide, hnone, edit, s', hrun,
    fun h => absurd (hfound.mp h).1 (by decide)⟩

/-- Without a line break before it, `#pragma once` is not found again. -/
theorem pragma_after_comment_not_found :
    let w := commentedWorkspace "pragma_once"
    ∃ edit s', (addHeaderGuard commentedHeader.uri).execute w {} = (.ok edit, s') ∧
      (commentedHeader.applyEdits (edit.editsOf commentedHeader.uri)).afterGuard? w.settings = .ok none := by
  intro w
  have hname : commentedHeader.guardName w.settings = .ok "A_H" := ok_of_toOption (by decide +kernel)
  obtain ⟨s', hrun⟩ := execute_addHeaderGuard (w := w) rfl path_commentedHeader (ok_of_toOption (by decide +kernel))
    (s := {}) hname (ok_of_toOption (by decide +kernel))
  refine ⟨_, s', hrun, ?_⟩
  have hstyle : w.settings.guardStyle = .pragmaOnce := by decide +kernel
  have hplace : commentedHeader.afterHeaderComment = { position := ⟨0, 8⟩, before := true } := by decide +kernel
  have htext : (commentedHeader.applyEdits ((guardEdit commentedHeader .pragmaOnce commentedHeader.uri
      "A_H").editsOf commentedHeader.uri)).text = "/* c */ #pragma once\n\nint x;\n" := by
    decide +kernel
  rw [hstyle]
  change (commentedHeader.withText (commentedHeader.applyEdits _).text).afterGuard? _ = _
  exact ok_of_toOption (by decide +kernel)

end CodeAction

end CppScaffold
