import CppScaffold.CodeAction.Move
import CppScaffold.Proofs.Starts

/-!
# What is removed with a definition

A definition that moves away is removed with the comment before it and a blank line on either side. The code around it
survives if and only if no blank line is taken past code that shares a line with it.
-/

namespace CppScaffold

open Text Position

namespace Range

lemma union_of_before {r s : Range} (hstart : s.start < r.start) (hstop : s.stop ≤ r.stop) :
    r.union s = ⟨s.start, r.stop⟩ := by
  rw [union, Position.min, if_pos hstart, Position.max, if_neg (Position.not_lt_iff.mpr hstop)]

lemma union_of_after {r s : Range} (hstart : r.start ≤ s.start) (hstop : r.stop < s.stop) :
    r.union s = ⟨r.start, s.stop⟩ := by
  rw [union, Position.min, if_neg (Position.not_lt_iff.mpr hstart), Position.max, if_pos hstop]

end Range

namespace TextDocument

variable (d : TextDocument)

lemma offsetAt_lineEnd {n : Nat} (hn : n < d.lineCount) : d.offsetAt (d.lineAt n).range.stop = d.lineEnd n := by
  have hlength := d.length_lineAt hn
  rw [d.lineAt_of_lt hn] at hlength ⊢
  have hoffset := d.offsetAt_of_line hn (between d.text (d.lineStart n) (d.lineEnd n)).length
  have hle := d.lineStart_le_lineEnd hn
  simp only [TextLine.range] at hlength ⊢
  omega

lemma isBlank_lineAt_iff {n : Nat} (hn : n < d.lineCount) :
    (d.lineAt n).isBlank ↔ BlankBetween d.text (d.lineStart n) (d.lineEnd n) := by
  rw [d.lineAt_of_lt hn, TextLine.isBlank, blankBetween_iff]

/-- A range with the blank lines directly before and after it. -/
def widen (range : Range) : Range :=
  let previous := range.start.line - 1
  let range := if previous ≥ 0 && (d.lineAt previous).isBlank then range.union (d.lineAt previous).range else range
  let next := range.stop.line + 1
  if next < d.lineCount && (d.lineAt next).isBlank then range.union (d.lineAt next).range else range

/-- Where a widened range starts. -/
def wideStart (p : Position) : Position :=
  if 0 < p.line ∧ (d.lineAt (p.line - 1)).isBlank then ⟨p.line - 1, 0⟩ else p

/-- Where a widened range stops. -/
def wideStop (p : Position) : Position :=
  if p.line + 1 < d.lineCount ∧ (d.lineAt (p.line + 1)).isBlank then (d.lineAt (p.line + 1)).range.stop else p

/-- What stands before a range on its first line is blank, if the line above is. -/
def FreeBefore (p : Position) : Prop :=
  0 < p.line → (d.lineAt (p.line - 1)).isBlank → isAllBlank (d.getText ⟨⟨p.line, 0⟩, p⟩)

/-- What stands after a range on its last line is blank, if the line below is. -/
def FreeAfter (p : Position) : Prop :=
  p.line + 1 < d.lineCount → (d.lineAt (p.line + 1)).isBlank →
    isAllBlank (d.getText ⟨p, (d.lineAt p.line).range.stop⟩)

variable {d} {start stop : Position}

lemma line_lt_of_offsetAt_lt (h : d.offsetAt start < d.offsetAt stop) : start.line < d.lineCount := by
  by_contra hge
  have hlength := d.offsetAt_of_lineCount_le (p := start) (by omega)
  have hle := d.offsetAt_le_length stop
  omega

lemma nonneg_line_of_offsetAt_lt (h : d.offsetAt start < d.offsetAt stop) : 0 ≤ stop.line := by
  by_contra hneg
  have hzero := d.offsetAt_of_line_neg (p := stop) (by omega)
  omega

lemma widen_start (h : d.offsetAt start < d.offsetAt stop) :
    (if start.line - 1 ≥ 0 && (d.lineAt (start.line - 1)).isBlank then
      (⟨start, stop⟩ : Range).union (d.lineAt (start.line - 1)).range else ⟨start, stop⟩) =
        ⟨d.wideStart start, stop⟩ := by
  rw [wideStart]
  by_cases hblank : 0 < start.line ∧ (d.lineAt (start.line - 1)).isBlank
  · have hline := line_lt_of_offsetAt_lt h
    have hlt := lt_iff.mp (d.lt_of_offsetAt_lt h)
    have hnumber : ((d.lineAt (start.line - 1)).number : Int) = start.line - 1 := by
      simp only [lineAt]
      omega
    rw [if_pos hblank, if_pos (by simpa using ⟨by omega, hblank.2⟩), Range.union_of_before]
    · simp only [TextLine.range, hnumber]
    · simp only [TextLine.range, hnumber, lt_iff]
      omega
    · simp only [TextLine.range, hnumber, le_iff]
      omega
  · rw [if_neg hblank, if_neg]
    simp only [Bool.and_eq_true, decide_eq_true_eq]
    exact fun hboth => hblank ⟨by omega, hboth.2⟩

lemma widen_stop (hle : start ≤ stop) (hnonneg : 0 ≤ stop.line) :
    (if stop.line + 1 < d.lineCount && (d.lineAt (stop.line + 1)).isBlank then
      (⟨start, stop⟩ : Range).union (d.lineAt (stop.line + 1)).range else ⟨start, stop⟩) =
        ⟨start, d.wideStop stop⟩ := by
  rw [wideStop]
  by_cases hblank : stop.line + 1 < d.lineCount ∧ (d.lineAt (stop.line + 1)).isBlank
  · have hnumber : ((d.lineAt (stop.line + 1)).number : Int) = stop.line + 1 := by
      simp only [lineAt]
      omega
    rw [le_iff] at hle
    rw [if_pos hblank, if_pos (by simpa using hblank), Range.union_of_after]
    · simp only [TextLine.range, hnumber, le_iff]
      omega
    · simp only [TextLine.range, hnumber, lt_iff]
      omega
  · rw [if_neg hblank, if_neg (by simpa using hblank)]

/-- A range that is not empty is widened on either side independently. -/
lemma widen_eq (h : d.offsetAt start < d.offsetAt stop) :
    d.widen ⟨start, stop⟩ = ⟨d.wideStart start, d.wideStop stop⟩ := by
  have hlt := lt_iff.mp (d.lt_of_offsetAt_lt h)
  have hle : d.wideStart start ≤ stop := by
    rw [wideStart, le_iff]
    split
    · dsimp only
      omega
    · omega
  rw [widen]
  rw [widen_start h]
  exact widen_stop hle (nonneg_line_of_offsetAt_lt h)

/-- What is removed before a range is blank if and only if the range shares no line with code before it. -/
lemma blankBetween_wideStart (h : start.line < d.lineCount) :
    d.offsetAt (d.wideStart start) ≤ d.offsetAt start ∧
      (BlankBetween d.text (d.offsetAt (d.wideStart start)) (d.offsetAt start) ↔ d.FreeBefore start) := by
  rw [wideStart, FreeBefore]
  by_cases hblank : 0 < start.line ∧ (d.lineAt (start.line - 1)).isBlank
  · obtain ⟨n, hn⟩ : ∃ n : Nat, start.line = n + 1 := ⟨(start.line - 1).toNat, by omega⟩
    have hbefore := d.offsetAt_bounds_of_line (n := n + 1) (by omega) start.character
    rw [show (⟨((n + 1 : Nat) : Int), start.character⟩ : Position) = start by rw [Int.natCast_succ, ← hn]] at hbefore
    have hmid := d.lineStart_le_lineEnd (n := n) (by omega)
    have hbreak := d.lineEnd_lt_lineStart_succ (n := n) (by omega)
    rw [hn, Int.add_sub_cancel] at hblank
    have hfree : isAllBlank (d.getText ⟨⟨(n : Int) + 1, 0⟩, start⟩) ↔
        BlankBetween d.text (d.lineStart (n + 1)) (d.offsetAt start) := by
      rw [blankBetween_iff, getText, ← Int.natCast_succ, d.offsetAt_lineStart]
    rw [hn, Int.add_sub_cancel, if_pos hblank]
    rw [d.offsetAt_lineStart, hfree]
    refine ⟨by omega, fun hall _ _ => hall.mono (by omega) (Nat.le_refl _), fun hall => ?_⟩
    have hlineBlank := (d.isBlank_lineAt_iff (by omega)).mp hblank.2
    exact (hlineBlank.trans (d.blankBetween_lineEnd (by omega))).trans (hall hblank.1 hblank.2)
  · rw [if_neg hblank]
    exact ⟨Nat.le_refl _, fun _ hpos hline => absurd ⟨hpos, hline⟩ hblank, fun _ => .empty _ _⟩

/-- What is removed after a range is blank if and only if the range shares no line with code after it. -/
lemma blankBetween_wideStop (h : 0 ≤ stop.line) :
    d.offsetAt stop ≤ d.offsetAt (d.wideStop stop) ∧
      (BlankBetween d.text (d.offsetAt stop) (d.offsetAt (d.wideStop stop)) ↔ d.FreeAfter stop) := by
  rw [wideStop, FreeAfter]
  by_cases hblank : stop.line + 1 < d.lineCount ∧ (d.lineAt (stop.line + 1)).isBlank
  · obtain ⟨n, hn⟩ : ∃ n : Nat, stop.line = n := ⟨stop.line.toNat, by omega⟩
    have hafter := d.offsetAt_bounds_of_line (n := n) (by omega) stop.character
    rw [show (⟨(n : Int), stop.character⟩ : Position) = stop by rw [← hn]] at hafter
    have hmid := d.lineStart_le_lineEnd (n := n + 1) (by omega)
    have hbreak := d.lineEnd_lt_lineStart_succ (n := n) (by omega)
    have hcast : ((n + 1 : Nat) : Int) = n + 1 := Int.natCast_succ n
    rw [hn, ← hcast] at hblank
    have hfree : isAllBlank (d.getText ⟨stop, (d.lineAt n).range.stop⟩) ↔
        BlankBetween d.text (d.offsetAt stop) (d.lineEnd n) := by
      rw [blankBetween_iff, getText, d.offsetAt_lineEnd (by omega)]
    rw [hn, ← hcast, if_pos hblank]
    rw [d.offsetAt_lineEnd (by omega), hfree]
    refine ⟨by omega, fun hall _ _ => hall.mono (Nat.le_refl _) (by omega), fun hall => ?_⟩
    have hlineBlank := (d.isBlank_lineAt_iff (by omega)).mp hblank.2
    exact ((hall hblank.1 hblank.2).trans (d.blankBetween_lineEnd (by omega))).trans hlineBlank
  · rw [if_neg hblank]
    exact ⟨Nat.le_refl _, fun _ hlt hline => absurd ⟨hlt, hline⟩ hblank, fun _ => .empty _ _⟩

end TextDocument

namespace Entity

variable {e : Entity}

lemma deletionRange_eq : e.deletionRange = e.document.widen ⟨e.leadingCommentStart, e.range.stop⟩ := by
  rw [deletionRange, TextDocument.widen, rangeWithComment]

lemma startOffset_lt_of_isFunctionDefinition (h : e.isFunctionDefinition) : e.startOffset < e.endOffset := by
  by_contra hle
  have htext : e.text = [] := by
    exact List.take_eq_nil_iff.mpr (.inl (by rw [← startOffset, ← endOffset]; omega))
  have hparsable : e.parsableText = [] := by
    refine List.length_eq_zero_iff.mp ?_
    rw [parsableText, htext]
    rfl
  simp only [isFunctionDefinition, endsWithBody, hparsable, Bool.and_eq_true] at h
  exact absurd h.2 (by decide)

lemma leadingCommentStart_lt_of_isFunctionDefinition (h : e.isFunctionDefinition) :
    e.document.offsetAt e.leadingCommentStart < e.document.offsetAt e.range.stop := by
  have hstart := e.document.offsetAt_mono (le_trans e.leadingCommentStart_le e.trueStart_le)
  have hlt := startOffset_lt_of_isFunctionDefinition h
  rw [startOffset, endOffset] at hlt
  omega

/-- The removal of a definition covers it and its comment. It takes no other code along if and only if nothing stands
before it on its first line, where the line above is blank, nor after it on its last line, where the line below is. -/
theorem deletionRange_keeps_code_iff (h : e.isFunctionDefinition = true) :
    (e.document.offsetAt e.deletionRange.start ≤ e.document.offsetAt e.rangeWithComment.start ∧
      e.document.offsetAt e.rangeWithComment.stop ≤ e.document.offsetAt e.deletionRange.stop) ∧
    ((∀ i c, e.document.text[i]? = some c → isBlank c = false →
        e.document.offsetAt e.deletionRange.start ≤ i → i < e.document.offsetAt e.deletionRange.stop →
        e.document.offsetAt e.rangeWithComment.start ≤ i ∧ i < e.document.offsetAt e.rangeWithComment.stop) ↔
      e.document.FreeBefore e.rangeWithComment.start ∧ e.document.FreeAfter e.rangeWithComment.stop) := by
  have hlt := leadingCommentStart_lt_of_isFunctionDefinition h
  obtain ⟨hstart, hbefore⟩ := TextDocument.blankBetween_wideStart (TextDocument.line_lt_of_offsetAt_lt hlt)
  obtain ⟨hstop, hafter⟩ := TextDocument.blankBetween_wideStop (TextDocument.nonneg_line_of_offsetAt_lt hlt)
  rw [deletionRange_eq, TextDocument.widen_eq hlt, rangeWithComment]
  dsimp only
  refine ⟨⟨hstart, hstop⟩, ?_⟩
  rw [← hbefore, ← hafter]
  constructor
  · intro hkept
    refine ⟨fun i c hc hle hlt' => ?_, fun i c hc hle hlt' => ?_⟩
    · by_contra hblank
      have := hkept i c hc (Bool.eq_false_iff.mpr hblank) hle (by omega)
      omega
    · by_contra hblank
      have := hkept i c hc (Bool.eq_false_iff.mpr hblank) (by omega) hlt'
      omega
  · rintro ⟨hbefore, hafter⟩ i c hc hvisible hle hlt'
    refine ⟨?_, ?_⟩
    · by_contra hi
      rw [hbefore i c hc hle (by omega)] at hvisible
      cases hvisible
    · by_contra hi
      rw [hafter i c hc (by omega) hlt'] at hvisible
      cases hvisible

/-- A definition behind another one on the same line, below a blank line. -/
def behindVariable : Entity where
  document := { uri := "file:///p/a.cpp", text := "\nint x; void f() \x7b\x7d\nint y;", opening := 0 }
  node := ⟨⟨"f", "f", [], .function, ⟨⟨1, 7⟩, ⟨1, 18⟩⟩, ⟨⟨1, 12⟩, ⟨1, 13⟩⟩, []⟩, []⟩

theorem deletionRange_keeps_code_iff_behindVariable : behindVariable.isFunctionDefinition = true ∧
    ¬ ∀ i c, behindVariable.document.text[i]? = some c → isBlank c = false →
      behindVariable.document.offsetAt behindVariable.deletionRange.start ≤ i →
      i < behindVariable.document.offsetAt behindVariable.deletionRange.stop →
      behindVariable.document.offsetAt behindVariable.rangeWithComment.start ≤ i ∧
        i < behindVariable.document.offsetAt behindVariable.rangeWithComment.stop := by
  have h : behindVariable.isFunctionDefinition = true := by decide +kernel
  have hstart : behindVariable.rangeWithComment.start = ⟨1, 7⟩ := by decide +kernel
  refine ⟨h, fun hkept => ?_⟩
  have hfree := ((deletionRange_keeps_code_iff h).2.mp hkept).1
  exact absurd (hfree (by decide) (by decide +kernel)) (by decide +kernel)

end Entity

end CppScaffold
