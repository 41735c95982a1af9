import CppScaffold.Proofs.Edits
import Mathlib.Order.Monotone.Basic

/-!
# Short and long line breaks

With long line breaks every offset moves by the number of line breaks before it, and nothing else about a document
changes.
-/

namespace CppScaffold

open List Text

namespace Text

/-- The text with the long line break in the place of every line feed. -/
def toCrlf (t : Text) : Text := t.flatMap fun c => if c = '\n' then ['\r', '\n'] else [c]

/-- Where an offset of a text lies once the text is written with long line breaks. -/
def crlfOffset (t : Text) (o : Nat) : Nat := o + (t.take o).count '\n'

lemma toCrlf_append (t u : Text) : toCrlf (t ++ u) = toCrlf t ++ toCrlf u := flatMap_append

lemma toCrlf_cons_of_ne {c : Char} (h : c ≠ '\n') (t : Text) : toCrlf (c :: t) = c :: toCrlf t := by
  rw [toCrlf, flatMap_cons, if_neg h, singleton_append, toCrlf]

lemma toCrlf_cons_feed (t : Text) : toCrlf ('\n' :: t) = '\r' :: '\n' :: toCrlf t := rfl

lemma length_toCrlf (t : Text) : (toCrlf t).length = t.length + t.count '\n' := by
  induction t with
  | nil => rfl
  | cons c t ih =>
    by_cases hc : c = '\n'
    · subst hc
      rw [toCrlf_cons_feed, length_cons, length_cons, length_cons, count_cons_self]
      omega
    · rw [toCrlf_cons_of_ne hc, length_cons, length_cons, count_cons_of_ne hc]
      omega

variable {t : Text} {a b : Nat}

lemma toCrlf_eq_self (h : '\n' ∉ t) : toCrlf t = t := by
  induction t with
  | nil => rfl
  | cons c t ih =>
    rw [mem_cons, not_or] at h
    rw [toCrlf_cons_of_ne (Ne.symm h.1), ih h.2]

/-! ## Offsets -/

lemma crlfOffset_zero (t : Text) : crlfOffset t 0 = 0 := by simp [crlfOffset]

lemma crlfOffset_length (t : Text) : crlfOffset t t.length = (toCrlf t).length := by
  rw [crlfOffset, take_length, length_toCrlf]

lemma crlfOffset_append_length (t u : Text) : crlfOffset (t ++ u) t.length = t.length + t.count '\n' := by
  rw [crlfOffset, take_left]

lemma strictMono_crlfOffset (t : Text) : StrictMono (crlfOffset t) := by
  intro a b h
  have hcount := (take_sublist_take_left (l := t) (Nat.le_of_lt h)).count_le '\n'
  unfold crlfOffset
  omega

lemma crlfOffset_le_iff : crlfOffset t a ≤ crlfOffset t b ↔ a ≤ b := (strictMono_crlfOffset t).le_iff_le

/-- An offset moves by as much as an earlier one if no line feed lies between the two. -/
lemma crlfOffset_add {n : Nat} (h : '\n' ∉ between t a (a + n)) :
    crlfOffset t (a + n) = crlfOffset t a + n := by
  rw [between, Nat.add_sub_cancel_left] at h
  rw [crlfOffset, crlfOffset, take_add, count_append, count_eq_zero_of_not_mem h]
  omega

lemma crlfOffset_succ (h : t[a]? = some '\n') : crlfOffset t (a + 1) = crlfOffset t a + 2 := by
  rw [crlfOffset, crlfOffset, take_add_one, h]
  simp
  omega

/-! ## Parts of a text -/

lemma drop_toCrlf {o : Nat} (h : o ≤ t.length) : (toCrlf t).drop (crlfOffset t o) = toCrlf (t.drop o) := by
  have hlength : (toCrlf (t.take o)).length = crlfOffset t o := by
    rw [length_toCrlf, crlfOffset, length_take, Nat.min_eq_left h]
  conv_lhs => rw [← take_append_drop o t, toCrlf_append, take_append_drop]
  exact drop_left' hlength

lemma between_toCrlf (ha : a ≤ t.length) (hb : b ≤ t.length) :
    between (toCrlf t) (crlfOffset t a) (crlfOffset t b) = toCrlf (between t a b) := by
  rcases Nat.lt_or_ge b a with hlt | hle
  · have hlt' := strictMono_crlfOffset t hlt
    rw [between, between, Nat.sub_eq_zero_of_le (Nat.le_of_lt hlt), Nat.sub_eq_zero_of_le (Nat.le_of_lt hlt')]
    rfl
  · have hlength : (toCrlf (between t a b)).length = crlfOffset t b - crlfOffset t a := by
      rw [length_toCrlf, crlfOffset, crlfOffset, ← take_append_between t hle, count_append, length_between]
      omega
    rw [between, drop_toCrlf ha, drop_eq_between_append t hle, toCrlf_append]
    exact take_left' hlength

end Text

/-- The starts of lines move as all offsets do. The text is taken behind a part that was already read. -/
lemma lineStartsFrom_toCrlf (read : Text) {t : Text} (h : '\r' ∉ t) :
    lineStartsFrom (crlfOffset (read ++ t) read.length) (toCrlf t) =
      (lineStartsFrom read.length t).map (crlfOffset (read ++ t)) := by
  induction t generalizing read with
  | nil => rfl
  | cons c t ih =>
    rw [mem_cons, not_or] at h
    have hnext := ih (read ++ [c]) h.2
    have hoffset := crlfOffset_append_length (read ++ [c]) t
    rw [append_assoc, singleton_append, length_append, length_singleton] at hnext
    rw [append_assoc, singleton_append, length_append, length_singleton, count_append] at hoffset
    rw [lineStartsFrom_cons read.length fun hr => absurd hr.symm h.1]
    by_cases hc : c = '\n'
    · subst hc
      have htwo : crlfOffset (read ++ '\n' :: t) (read.length + 1) =
          crlfOffset (read ++ '\n' :: t) read.length + 2 := by
        rw [hoffset, crlfOffset_append_length, count_singleton_self]
        omega
      rw [toCrlf_cons_feed, lineStartsFrom_crlf, if_pos (by decide), map_cons, ← hnext, htwo]
    · have hbreak : isBreak c = false := by simp [isBreak, Ne.symm h.1, hc]
      have hone : crlfOffset (read ++ c :: t) (read.length + 1) = crlfOffset (read ++ c :: t) read.length + 1 := by
        rw [hoffset, crlfOffset_append_length, count_cons_of_ne hc, count_nil]
        omega
      rwa [toCrlf_cons_of_ne hc, lineStartsFrom_cons _ fun hr => absurd hr.symm h.1, hbreak, ← hone]

def TextEdit.toCrlf (e : TextEdit) : TextEdit := { e with newText := Text.toCrlf e.newText }

namespace TextDocument

/-- The document written with long line breaks. -/
def toCrlf (d : TextDocument) : TextDocument := { d with text := Text.toCrlf d.text }

variable {d : TextDocument}

/-! ## Lines -/

variable {n o : Nat}

/-- On a line offsets keep their distance from its start. -/
lemma crlfOffset_of_mem_line (hn : n < d.lineCount) (hstart : d.lineStart n ≤ o) (hend : o ≤ d.lineEnd n) :
    crlfOffset d.text o = crlfOffset d.text (d.lineStart n) + (o - d.lineStart n) := by
  obtain ⟨k, rfl⟩ := Nat.exists_eq_add_of_le hstart
  rw [Nat.add_sub_cancel_left]
  exact crlfOffset_add fun hfeed => absurd (d.isBreak_of_mem_between hn (Nat.le_refl _) hend hfeed) (by decide)

/-- An edit with its offsets in the text that is written with long line breaks. -/
def PlacedEdit.toCrlf (t : Text) (e : PlacedEdit) : PlacedEdit :=
  ⟨Text.crlfOffset t e.start, Text.crlfOffset t e.stop, e.index, Text.toCrlf e.newText⟩

lemma PlacedEdit.appliedBefore_toCrlf (t : Text) (a b : PlacedEdit) :
    (a.toCrlf t).appliedBefore (b.toCrlf t) = a.appliedBefore b := by
  rw [Bool.eq_iff_iff, appliedBefore_iff, appliedBefore_iff, Precedes, Precedes]
  simp only [toCrlf, (strictMono_crlfOffset t).lt_iff_lt, (strictMono_crlfOffset t).injective.eq_iff]

lemma substitute_toCrlf {t : Text} {l : List PlacedEdit} (ho : o ≤ t.length)
    (hl : ∀ e ∈ l, e.start ≤ t.length ∧ e.stop ≤ t.length) :
    substitute (Text.toCrlf t) (Text.crlfOffset t o) (l.map (PlacedEdit.toCrlf t)) =
      Text.toCrlf (substitute t o l) := by
  induction l generalizing o with
  | nil => exact Text.drop_toCrlf ho
  | cons e l ih =>
    obtain ⟨⟨hstart, hstop⟩, hl⟩ := forall_mem_cons.mp hl
    rw [map_cons, substitute, substitute, Text.toCrlf_append, Text.toCrlf_append, ← ih hstop hl,
      ← Text.between_toCrlf ho hstart]
    rfl

section

variable (h : '\r' ∉ d.text)

include h

lemma not_insideBreak_of_no_return (o : Nat) : ¬ InsideBreak d.text o := by
  cases o with
  | zero => exact id
  | succ k =>
    rintro ⟨hreturn, -⟩
    exact h (mem_of_getElem? hreturn)

lemma lineStarts_toCrlf : d.toCrlf.lineStarts = d.lineStarts.map (Text.crlfOffset d.text) := by
  have hstarts := lineStartsFrom_toCrlf [] h
  exact congrArg (0 :: ·) hstarts

lemma lineCount_toCrlf : d.toCrlf.lineCount = d.lineCount := by
  rw [lineCount, lineStarts_toCrlf h, length_map, lineCount]

lemma lineStart_toCrlf (hn : n < d.lineCount) :
    d.toCrlf.lineStart n = crlfOffset d.text (d.lineStart n) := by
  rw [lineStart, lineStarts_toCrlf h, getD_eq_getElem?_getD, getElem?_map, d.lineStart_eq_getElem hn,
    getElem?_eq_getElem hn]
  rfl

/-- Without carriage returns a line ends at the line feed before the next line. -/
lemma feed_at_lineEnd (hn : n + 1 < d.lineCount) :
    d.lineEnd n + 1 = d.lineStart (n + 1) ∧ d.text[d.lineEnd n]? = some '\n' := by
  have hbreak := d.breakEndsAt_lineStart (Nat.succ_pos n) hn
  rcases d.lineEnd_cases hn with ⟨hend, -⟩ | ⟨-, hinside⟩
  · refine ⟨hend, ?_⟩
    rw [← hend] at hbreak
    rcases hbreak with hfeed | ⟨hreturn, -⟩
    · exact hfeed
    · exact absurd (mem_of_getElem? hreturn) h
  · exact absurd hinside (not_insideBreak_of_no_return h _)

lemma lineEnd_toCrlf (hn : n < d.lineCount) :
    d.toCrlf.lineEnd n = Text.crlfOffset d.text (d.lineEnd n) := by
  rcases d.lt_or_last hn with hnext | hlast
  · obtain ⟨hend, hfeed⟩ := feed_at_lineEnd h hnext
    have hnext' : n + 1 < d.toCrlf.lineCount := by rwa [lineCount_toCrlf h]
    have hstart := lineStart_toCrlf h hnext
    rw [← hend, Text.crlfOffset_succ hfeed] at hstart
    -- the converted line feed begins with the carriage return before it
    have hinside : InsideBreak d.toCrlf.text (Text.crlfOffset d.text (d.lineEnd n) + 1) := by
      have hdrop := Text.drop_toCrlf (d.lineEnd_le_length hn)
      obtain ⟨hlt, hchar⟩ := List.getElem?_eq_some_iff.mp hfeed
      rw [drop_eq_getElem_cons hlt, hchar] at hdrop
      have hreturn := congrArg (·[0]?) hdrop
      have hnew := congrArg (·[1]?) hdrop
      simp only [getElem?_drop] at hreturn hnew
      exact ⟨hreturn, hnew⟩
    rcases d.toCrlf.lineEnd_cases hnext' with ⟨hend', hnot⟩ | ⟨hend', -⟩
    · have heq : d.toCrlf.lineEnd n = Text.crlfOffset d.text (d.lineEnd n) + 1 := by omega
      rw [heq] at hnot
      exact absurd hinside hnot
    · omega
  · have hlast' : n + 1 = d.toCrlf.lineCount := by rwa [lineCount_toCrlf h]
    rw [d.lineEnd_last hlast, d.toCrlf.lineEnd_last hlast', Text.crlfOffset_length]
    rfl

lemma lineAt_toCrlf (line : Int) : d.toCrlf.lineAt line = d.lineAt line := by
  have hn := d.min_lt_lineCount line.toNat
  have hstart := d.lineStart_le_length hn
  have hend := d.lineEnd_le_length hn
  rw [lineAt, lineCount_toCrlf h]
  simp only [lineStart_toCrlf h hn, lineEnd_toCrlf h hn]
  refine congrArg _ ((Text.between_toCrlf hstart hend).trans (Text.toCrlf_eq_self fun hfeed => ?_))
  exact absurd (d.isBreak_of_mem_between hn (Nat.le_refl _) (Nat.le_refl _) hfeed) (by decide)

/-! ## Positions -/

lemma offsetAt_toCrlf (p : Position) :
    d.toCrlf.offsetAt p = Text.crlfOffset d.text (d.offsetAt p) := by
  have hcount := lineCount_toCrlf h
  rcases d.line_cases p with hneg | hbehind | ⟨n, hn, c, rfl⟩
  · rw [d.offsetAt_of_line_neg hneg, d.toCrlf.offsetAt_of_line_neg hneg, Text.crlfOffset_zero]
  · rw [d.offsetAt_of_lineCount_le hbehind, d.toCrlf.offsetAt_of_lineCount_le (by rwa [hcount]), Text.crlfOffset_length]
    rfl
  · have hn' : n < d.toCrlf.lineCount := by rwa [hcount]
    have hoffset := d.offsetAt_of_line hn c
    have hoffset' := d.toCrlf.offsetAt_of_line hn' c
    have hbounds := d.offsetAt_bounds_of_line hn c
    have hle := d.lineStart_le_lineEnd hn
    have hmoved := crlfOffset_of_mem_line hn hbounds.1 hbounds.2
    have hmovedEnd := crlfOffset_of_mem_line hn hle (Nat.le_refl _)
    rw [lineStart_toCrlf h hn, lineEnd_toCrlf h hn] at hoffset'
    omega

lemma positionAt_toCrlf (ho : o ≤ d.text.length) :
    d.toCrlf.positionAt (crlfOffset d.text o) = d.positionAt o := by
  obtain ⟨n, hn, c, hc, hc', hposition⟩ := d.positionAt_mem ho (not_insideBreak_of_no_return h o)
  have hn' : n < d.toCrlf.lineCount := by rwa [lineCount_toCrlf h]
  have hoffset : d.offsetAt ⟨n, c⟩ = o := by
    rw [← hposition, d.offsetAt_positionAt ho, if_neg (not_insideBreak_of_no_return h o)]
  have hline := crlfOffset_of_mem_line hn (d.lineStart_le_lineEnd hn) (Nat.le_refl _)
  rw [hposition, ← hoffset, ← offsetAt_toCrlf h]
  refine d.toCrlf.positionAt_offsetAt hn' hc ?_
  rw [lineStart_toCrlf h hn, lineEnd_toCrlf h hn]
  omega

lemma getText_toCrlf (r : Range) : d.toCrlf.getText r = Text.toCrlf (d.getText r) := by
  rw [getText, offsetAt_toCrlf h, offsetAt_toCrlf h]
  exact Text.between_toCrlf (d.offsetAt_le_length _) (d.offsetAt_le_length _)

/-! ## Edits -/

lemma placeEdits_toCrlf (edits : List TextEdit) :
    d.toCrlf.placeEdits (edits.map TextEdit.toCrlf) = (d.placeEdits edits).map (PlacedEdit.toCrlf d.text) := by
  rw [placeEdits, placeEdits, zipIdx_map, map_map, map_map]
  refine map_congr_left fun e _ => ?_
  simp [offsetAt_toCrlf h, TextEdit.toCrlf, PlacedEdit.toCrlf]

lemma orderedEdits_toCrlf (edits : List TextEdit) :
    d.toCrlf.orderedEdits (edits.map TextEdit.toCrlf) = (d.orderedEdits edits).map (PlacedEdit.toCrlf d.text) := by
  rw [orderedEdits, placeEdits_toCrlf h]
  exact (map_mergeSort fun a _ b _ => (PlacedEdit.appliedBefore_toCrlf d.text b a).symm).symm

lemma nonOverlapping_toCrlf_iff {edits : List TextEdit} :
    d.toCrlf.NonOverlapping (edits.map TextEdit.toCrlf) ↔ d.NonOverlapping edits := by
  rw [nonOverlapping_iff_ranges, nonOverlapping_iff_ranges, map_map]
  have hranges : (edits.map ((·.range) ∘ TextEdit.toCrlf)) = edits.map (·.range) := rfl
  have hapart : d.toCrlf.Apart = d.Apart := by
    funext r s
    simp only [Apart, offsetAt_toCrlf h, crlfOffset_le_iff]
  simp only [hranges, hapart, offsetAt_toCrlf h, crlfOffset_le_iff]

lemma applyEdits_toCrlf {edits : List TextEdit} (hedits : d.NonOverlapping edits) :
    d.toCrlf.applyEdits (edits.map TextEdit.toCrlf) = (d.applyEdits edits).toCrlf := by
  have hin : ∀ e ∈ d.orderedEdits edits, e.start ≤ d.text.length ∧ e.stop ≤ d.text.length := by
    intro e he
    have he := (d.orderedEdits_perm edits).mem_iff.mp he
    have hle := hedits.start_le_stop e he
    have hstop := d.stop_le_length he
    omega
  have htext : (d.toCrlf.applyEdits (edits.map TextEdit.toCrlf)).text = Text.toCrlf (d.applyEdits edits).text := by
    rw [d.applyEdits_eq_substitute hedits, d.toCrlf.applyEdits_eq_substitute ((nonOverlapping_toCrlf_iff h).mpr hedits),
      orderedEdits_toCrlf h, ← substitute_toCrlf (Nat.zero_le _) hin, Text.crlfOffset_zero]
    rfl
  exact congrArg (mk d.uri · (d.version + 1)) htext

end

/-- **Nothing but offsets depends on the line break.** A document without carriage returns and the same one with long
line breaks have the same lines, corresponding positions and texts, and edits that do not overlap turn the one into the
long form of what they turn the other into. -/
theorem toCrlf_keeps_document (h : '\r' ∉ d.text) :
    d.toCrlf.lineCount = d.lineCount ∧ (∀ line, d.toCrlf.lineAt line = d.lineAt line) ∧
    (∀ p, d.toCrlf.offsetAt p = d.offsetAt p + (d.text.take (d.offsetAt p)).count '\n') ∧
    (∀ o ≤ d.text.length, d.toCrlf.positionAt ↑(o + (d.text.take o).count '\n') = d.positionAt o) ∧
    (∀ r, d.toCrlf.getText r = Text.toCrlf (d.getText r)) ∧
    ∀ edits, d.NonOverlapping edits → d.toCrlf.NonOverlapping (edits.map TextEdit.toCrlf) ∧
      d.toCrlf.applyEdits (edits.map TextEdit.toCrlf) = (d.applyEdits edits).toCrlf := by
  refine ⟨lineCount_toCrlf h, lineAt_toCrlf h, offsetAt_toCrlf h, fun o ho => positionAt_toCrlf h ho,
    getText_toCrlf h, fun edits hedits => ?_⟩
  exact ⟨(nonOverlapping_toCrlf_iff h).mpr hedits, applyEdits_toCrlf h hedits⟩

/-- A line feed that an edit takes away and one that another edit brings in. -/
theorem toCrlf_keeps_document_two_lines :
    let d : TextDocument := { uri := [], text := ['a', '\n', 'b', 'c'] }
    let edits : List TextEdit := [⟨⟨⟨1, 1⟩, ⟨1, 1⟩⟩, ['\n']⟩, ⟨⟨⟨0, 1⟩, ⟨1, 0⟩⟩, [' ']⟩]
    '\r' ∉ d.text ∧ d.NonOverlapping edits ∧ d.toCrlf.text = ['a', '\r', '\n', 'b', 'c'] ∧
      d.toCrlf.applyEdits (edits.map TextEdit.toCrlf) = (d.applyEdits edits).toCrlf ∧
      (d.applyEdits edits).text = ['a', ' ', 'b', '\n', 'c'] := by
  intro d edits
  have hreturn : '\r' ∉ d.text := by decide
  have hedits : d.NonOverlapping edits := d.nonOverlapping_iff.mpr ⟨by decide, by decide⟩
  obtain ⟨-, -, -, -, -, happly⟩ := toCrlf_keeps_document hreturn
  refine ⟨hreturn, hedits, rfl, (happly edits hedits).2, ?_⟩
  have hplaced : d.placeEdits edits = [⟨3, 3, 0, ['\n']⟩, ⟨1, 2, 1, [' ']⟩] := rfl
  rw [applyEdits, hplaced]
  simp [List.mergeSort, List.MergeSort.Internal.splitInTwo, PlacedEdit.appliedBefore, withText, PlacedEdit.apply, d]

end TextDocument

end CppScaffold
