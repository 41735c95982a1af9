import CppScaffold.Proofs.Lines
import CppScaffold.Proofs.Search

/-!
# Positions and offsets

An offset is lost only inside of a long line break; a position is kept exactly if it lies in the document.
-/

namespace CppScaffold

open List Position

namespace Position

variable {p q : Position}

lemma lt_iff : p < q ↔ p.line < q.line ∨ (p.line = q.line ∧ p.character < q.character) :=
  Iff.rfl

lemma le_iff : p ≤ q ↔ p.line < q.line ∨ (p.line = q.line ∧ p.character ≤ q.character) :=
  Iff.rfl

lemma not_lt_iff : ¬ p < q ↔ q ≤ p := by
  rw [lt_iff, le_iff]
  omega

lemma le_of_lt (h : p < q) : p ≤ q := by
  rw [lt_iff] at h
  rw [le_iff]
  omega

lemma le_refl (p : Position) : p ≤ p := .inr ⟨rfl, Int.le_refl _⟩

lemma le_trans {r : Position} (hpq : p ≤ q) (hqr : q ≤ r) : p ≤ r := by
  rw [le_iff] at *
  omega

lemma lt_of_le_of_lt {r : Position} (hpq : p ≤ q) (hqr : q < r) : p < r := by
  rw [le_iff] at hpq
  rw [lt_iff] at *
  omega

lemma le_antisymm (hpq : p ≤ q) (hqp : q ≤ p) : p = q := by
  obtain ⟨line', character'⟩ := q
  rw [le_iff] at *
  dsimp only at *
  rw [mk.injEq]
  omega

lemma le_total (p q : Position) : p ≤ q ∨ q ≤ p := by
  rw [le_iff, le_iff]
  omega

end Position

namespace TextDocument

variable (d : TextDocument)

/-! ## From offsets to positions -/

variable {o n : Nat} {p : Position} {x : Int}

/-- The position of an offset in the document: its line, and how far it lies behind the line's start. -/
lemma positionAt_eq (ho : o ≤ d.text.length) :
    d.positionAt o = ⟨d.lineOf o, (o : Int) - d.lineStart (d.lineOf o)⟩ := by
  have hpos := d.countP_lineStarts_pos o
  have hlast : (d.lineStarts.take (d.lineStarts.countP (· ≤ o))).getLastD 0 = d.lineStart (d.lineOf o) := by
    have hlt := d.lineOf_lt o
    have htake : d.lineStarts.countP (· ≤ o) = d.lineOf o + 1 := by
      rw [lineOf]
      omega
    rw [htake, d.lineStart_eq_getElem hlt, take_succ_eq_append_getElem hlt, getLastD_concat]
  have hmin : min (o : Int).toNat d.text.length = o := by
    omega
  simp only [positionAt, hmin, filter_le_eq_take d.lineStarts_pairwise o, hlast, Position.mk.injEq, and_true]
  have hle := countP_le_length (p := (· ≤ o)) (l := d.lineStarts)
  rw [length_take, lineOf]
  omega

lemma positionAt_strictMono {o' : Nat} (h : o < o') (ho' : o' ≤ d.text.length) :
    d.positionAt o < d.positionAt o' := by
  rw [d.positionAt_eq (Nat.le_trans (Nat.le_of_lt h) ho'), d.positionAt_eq ho', lt_iff]
  have hmono := d.lineOf_mono (Nat.le_of_lt h)
  rcases Nat.lt_or_eq_of_le hmono with hlt | heq
  · exact Or.inl (by simpa using hlt)
  · rw [heq]
    exact Or.inr ⟨rfl, by simpa using h⟩

/-! ## From positions to offsets -/

lemma offsetAt_of_lineCount_le (h : (d.lineCount : Int) ≤ p.line) : d.offsetAt p = d.text.length := by
  rw [offsetAt, if_pos h]

lemma offsetAt_of_line_neg (h : p.line < 0) : d.offsetAt p = 0 := by
  have hge : ¬ p.line ≥ d.lineCount := by omega
  rw [offsetAt, if_neg hge, if_pos h]

lemma offsetAt_of_line (hn : n < d.lineCount) (c : Int) :
    (d.offsetAt ⟨n, c⟩ : Int) = max (d.lineStart n : Int) (min (d.lineStart n + c) (d.lineEnd n)) := by
  have hge : ¬ (n : Int) ≥ d.lineCount := by omega
  have hneg : ¬ (n : Int) < 0 := by omega
  rw [offsetAt, if_neg hge, if_neg hneg]
  simp only [Int.toNat_natCast]
  omega

/-- The three cases of `offsetAt`: before the document, behind it, or on one of its lines. -/
lemma line_cases (p : Position) : p.line < 0 ∨ (d.lineCount : Int) ≤ p.line ∨ ∃ n < d.lineCount, ∃ c, p = ⟨n, c⟩ := by
  by_cases hneg : p.line < 0
  · exact Or.inl hneg
  · by_cases hge : (d.lineCount : Int) ≤ p.line
    · exact Or.inr (Or.inl hge)
    · refine Or.inr (Or.inr ⟨p.line.toNat, by omega, p.character, ?_⟩)
      rw [Int.toNat_of_nonneg (by omega)]

lemma offsetAt_bounds_of_line (hn : n < d.lineCount) (c : Int) :
    d.lineStart n ≤ d.offsetAt ⟨n, c⟩ ∧ d.offsetAt ⟨n, c⟩ ≤ d.lineEnd n := by
  have heq := d.offsetAt_of_line hn c
  have hle := d.lineStart_le_lineEnd hn
  omega

lemma offsetAt_le_length (p : Position) : d.offsetAt p ≤ d.text.length := by
  rcases d.line_cases p with h | h | ⟨n, hn, c, rfl⟩
  · rw [d.offsetAt_of_line_neg h]
    omega
  · exact Nat.le_of_eq (d.offsetAt_of_lineCount_le h)
  · exact Nat.le_trans (d.offsetAt_bounds_of_line hn c).2 (d.lineEnd_le_length hn)

lemma not_insideBreak_offsetAt (p : Position) : ¬ InsideBreak d.text (d.offsetAt p) := by
  rcases d.line_cases p with h | h | ⟨n, hn, c, rfl⟩
  · rw [d.offsetAt_of_line_neg h]
    exact id
  · rw [d.offsetAt_of_lineCount_le h]
    intro hinside
    have hle := hinside.breakEndsAt_succ.le_length
    omega
  · obtain ⟨hstart, hend⟩ := d.offsetAt_bounds_of_line hn c
    exact d.not_insideBreak_of_mem_line hn hstart hend

lemma offsetAt_mono {q : Position} (h : p ≤ q) : d.offsetAt p ≤ d.offsetAt q := by
  rcases d.line_cases p with hp | hp | ⟨m, hm, a, rfl⟩
  · rw [d.offsetAt_of_line_neg hp]
    omega
  · have hq : (d.lineCount : Int) ≤ q.line := by
      rcases le_iff.mp h with h | h
      · omega
      · omega
    exact Nat.le_of_eq ((d.offsetAt_of_lineCount_le hp).trans (d.offsetAt_of_lineCount_le hq).symm)
  · rcases d.line_cases q with hq | hq | ⟨n, hn, b, rfl⟩
    · rcases le_iff.mp h with h | h
      · simp only at h
        omega
      · simp only at h
        omega
    · rw [d.offsetAt_of_lineCount_le hq]
      exact d.offsetAt_le_length _
    · rcases le_iff.mp h with h | ⟨hline, hchar⟩
      · have hmn : m < n := by simpa using h
        have hp := (d.offsetAt_bounds_of_line hm a).2
        have hq := (d.offsetAt_bounds_of_line hn b).1
        have hle := d.lineEnd_le_lineStart hmn hn
        omega
      · obtain rfl : m = n := Int.ofNat_inj.mp hline
        have hp := d.offsetAt_of_line hm a
        have hq := d.offsetAt_of_line hm b
        simp only at hchar
        omega

/-! ## There and back -/

/-- An offset comes back from its position, except that inside of a line break it moves to its start. -/
lemma offsetAt_positionAt (ho : o ≤ d.text.length) :
    d.offsetAt (d.positionAt o) = if InsideBreak d.text o then o - 1 else o := by
  have hn := d.lineOf_lt o
  have hstart := d.lineStart_lineOf_le o
  have hle := d.lineStart_le_lineEnd hn
  have hoff := d.offsetAt_of_line hn ((o : Int) - d.lineStart (d.lineOf o))
  rw [d.positionAt_eq ho]
  rcases d.le_lineEnd_lineOf ho with hend | ⟨hend, hinside⟩
  · rw [if_neg (d.not_insideBreak_of_mem_line hn hstart hend)]
    omega
  · rw [if_pos hinside]
    omega

lemma lineStart_of_le (h : d.lineCount ≤ n) : d.lineStart n = d.text.length := by
  rw [lineStart, getD_eq_getElem?_getD, getElem?_eq_none h, Option.getD_none]

lemma lineStart_le_lineStart {m : Nat} (h : m ≤ n) : d.lineStart m ≤ d.lineStart n := by
  rcases Nat.lt_or_ge n d.lineCount with hn | hn
  · exact d.lineStart_mono h hn
  · rw [d.lineStart_of_le hn]
    rcases Nat.lt_or_ge m d.lineCount with hm | hm
    · exact d.lineStart_le_length hm
    · exact Nat.le_of_eq (d.lineStart_of_le hm)

lemma lineAt_of_lt (hn : n < d.lineCount) : d.lineAt n = ⟨n, Text.between d.text (d.lineStart n) (d.lineEnd n)⟩ := by
  have hmin : min (n : Int).toNat (d.lineCount - 1) = n := by omega
  rw [lineAt, hmin]

lemma length_lineAt (hn : n < d.lineCount) : (d.lineAt n).text.length = d.lineEnd n - d.lineStart n := by
  have hend := d.lineEnd_le_length hn
  rw [d.lineAt_of_lt hn, Text.between, length_take, length_drop]
  omega

lemma isBreak_of_mem_between {a b : Nat} {c : Char} (hn : n < d.lineCount) (ha : d.lineStart n ≤ a)
    (hb : b ≤ d.lineEnd n) (hc : c ∈ Text.between d.text a b) : Text.isBreak c = false := by
  obtain ⟨i, hi, hai, hib⟩ := Text.mem_between hc
  by_contra hbreak
  have hnext : ¬ BreakEndsAt d.text (i + 1) := by
    intro hends
    obtain ⟨m, hm, hms⟩ := d.exists_lineStart_eq hends
    have hmn := d.lineOf_eq hn (o := i + 1) (by omega) (by omega)
    have hmm := d.lineOf_eq hm (o := i + 1) (by omega) (by have := d.lineStart_le_lineEnd hm; omega)
    subst hmm
    rw [hmn] at hms
    omega
  simp only [Text.isBreak, Bool.not_eq_false, Bool.or_eq_true, beq_iff_eq] at hbreak
  rcases hbreak with rfl | rfl
  · by_cases hfeed : d.text[i + 1]? = some '\n'
    · exact d.not_insideBreak_of_mem_line hn (o := i + 1) (by omega) (by omega) ⟨hi, hfeed⟩
    · exact hnext (.inr ⟨hi, hfeed⟩)
  · exact hnext (.inl hi)

lemma positionAt_offsetAt (hn : n < d.lineCount) {c : Int} (hc : 0 ≤ c)
    (hc' : c ≤ (d.lineEnd n : Int) - d.lineStart n) : d.positionAt (d.offsetAt ⟨n, c⟩) = ⟨n, c⟩ := by
  obtain ⟨hstart, hend⟩ := d.offsetAt_bounds_of_line hn c
  have hoff := d.offsetAt_of_line hn c
  rw [d.positionAt_eq (d.offsetAt_le_length _), d.lineOf_eq hn hstart hend, Position.mk.injEq]
  exact ⟨rfl, by omega⟩

lemma positionAt_mem (ho : o ≤ d.text.length) (hinside : ¬ InsideBreak d.text o) :
    ∃ n < d.lineCount, ∃ c : Int, 0 ≤ c ∧ c ≤ (d.lineEnd n : Int) - d.lineStart n ∧ d.positionAt o = ⟨n, c⟩ := by
  have hstart := d.lineStart_lineOf_le o
  have hend : o ≤ d.lineEnd (d.lineOf o) := by
    rcases d.le_lineEnd_lineOf ho with h | ⟨_, h⟩
    · exact h
    · exact absurd h hinside
  exact ⟨d.lineOf o, d.lineOf_lt o, _, by omega, by omega, d.positionAt_eq ho⟩

/-! ## Offsets that are moved to a position

What lies outside of the document or inside of a line break is moved by `positionAt` and `offsetAt`; order
survives the move, and the offset of a position stays where it is. -/

lemma positionAt_eq_positionAt_min (x : Int) : d.positionAt x = d.positionAt (min x.toNat d.text.length : Nat) := by
  rw [positionAt, positionAt, Int.toNat_natCast, Nat.min_assoc, Nat.min_self]

lemma offsetAt_positionAt_mono {y : Int} (h : x ≤ y) : d.offsetAt (d.positionAt x) ≤ d.offsetAt (d.positionAt y) := by
  rw [d.positionAt_eq_positionAt_min x, d.positionAt_eq_positionAt_min y]
  have hle : min x.toNat d.text.length ≤ min y.toNat d.text.length := by omega
  rcases Nat.lt_or_eq_of_le hle with hlt | heq
  · refine d.offsetAt_mono ?_
    have hpos := d.positionAt_strictMono hlt (Nat.min_le_right _ _)
    rw [lt_iff] at hpos
    rw [le_iff]
    omega
  · exact Nat.le_of_eq (by rw [heq])

lemma offsetAt_positionAt_offsetAt (p : Position) : d.offsetAt (d.positionAt (d.offsetAt p)) = d.offsetAt p := by
  rw [d.offsetAt_positionAt (d.offsetAt_le_length p), if_neg (d.not_insideBreak_offsetAt p)]

lemma le_offsetAt_positionAt (h : d.offsetAt p ≤ x) : d.offsetAt p ≤ d.offsetAt (d.positionAt x) := by
  rw [← d.offsetAt_positionAt_offsetAt p]
  exact d.offsetAt_positionAt_mono h

lemma offsetAt_positionAt_le (h : x ≤ d.offsetAt p) : d.offsetAt (d.positionAt x) ≤ d.offsetAt p := by
  rw [← d.offsetAt_positionAt_offsetAt p]
  exact d.offsetAt_positionAt_mono h

lemma offsetAt_zero : d.offsetAt .zero = 0 := by
  have hstart : d.lineStart 0 = 0 := rfl
  have heq : (d.offsetAt .zero : Int) = _ := d.offsetAt_of_line (n := 0) (Nat.succ_pos _) 0
  omega

/-- **Positions and offsets.** Positions increase strictly with offsets, offsets weakly with positions; an offset is
lost only inside of a line break; a position is kept exactly if it names a place on a line. -/
theorem positions_correspond_to_offsets :
    (∀ o o' : Nat, o < o' → o' ≤ d.text.length → d.positionAt o < d.positionAt o') ∧
    (∀ o : Nat, o ≤ d.text.length →
      d.offsetAt (d.positionAt o) = if InsideBreak d.text o then o - 1 else o) ∧
    (∀ p q : Position, p ≤ q → d.offsetAt p ≤ d.offsetAt q) ∧
    (∀ p : Position, d.offsetAt p ≤ d.text.length ∧ ¬ InsideBreak d.text (d.offsetAt p)) ∧
    (∀ p : Position, d.positionAt (d.offsetAt p) = p ↔
      0 ≤ p.line ∧ p.line < d.lineCount ∧ 0 ≤ p.character ∧ p.character ≤ (d.lineAt p.line).text.length) := by
  refine ⟨fun o o' h ho' => d.positionAt_strictMono h ho', fun o ho => d.offsetAt_positionAt ho,
    fun p q h => d.offsetAt_mono h, fun p => ⟨d.offsetAt_le_length p, d.not_insideBreak_offsetAt p⟩, fun p => ?_⟩
  constructor
  · intro h
    obtain ⟨n, hn, c, hc, hc', heq⟩ :=
      d.positionAt_mem (d.offsetAt_le_length p) (d.not_insideBreak_offsetAt p)
    rw [h] at heq
    subst heq
    have hlen := d.length_lineAt hn
    have hle := d.lineStart_le_lineEnd hn
    exact ⟨by simp, by simpa using hn, hc, by simp only; omega⟩
  · rintro ⟨hline, hline', hchar, hchar'⟩
    rcases d.line_cases p with h | h | ⟨n, hn, c, rfl⟩
    · omega
    · omega
    · have hlen := d.length_lineAt hn
      have hle := d.lineStart_le_lineEnd hn
      simp only at hchar hchar'
      exact d.positionAt_offsetAt hn hchar (by omega)

end TextDocument

end CppScaffold
