import CppScaffold.Document.Text
import Mathlib.Data.List.Pairwise
import Mathlib.Tactic.SplitIfs

/-!
# The table of lines

A line begins at the start of the text and wherever a line break ends. So each offset lies on exactly one line or
inside of the break after it.
-/

namespace CppScaffold

open List

/-! ## Line breaks in a text -/

/-- A line break ends at an offset: a line feed stands before it, or a carriage return that no line feed
follows. -/
def BreakEndsAt (t : Text) : Nat → Prop
  | 0 => False
  | k + 1 => t[k]? = some '\n' ∨ (t[k]? = some '\r' ∧ t[k + 1]? ≠ some '\n')

/-- An offset lies strictly between the carriage return and the line feed of one line break. -/
def InsideBreak (t : Text) : Nat → Prop
  | 0 => False
  | k + 1 => t[k]? = some '\r' ∧ t[k + 1]? = some '\n'

instance (t : Text) : DecidablePred (InsideBreak t)
  | 0 => inferInstanceAs (Decidable False)
  | k + 1 => inferInstanceAs (Decidable (t[k]? = some '\r' ∧ t[k + 1]? = some '\n'))

variable {c : Char} {rest t : Text} {k : Nat}

lemma breakEndsAt_cons_one : BreakEndsAt (c :: rest) 1 ↔ c = '\n' ∨ (c = '\r' ∧ rest.head? ≠ some '\n') := by
  simp [BreakEndsAt, head?_eq_getElem?]

lemma breakEndsAt_cons_add_two : BreakEndsAt (c :: rest) (k + 2) ↔ BreakEndsAt rest (k + 1) := by
  simp [BreakEndsAt]

lemma BreakEndsAt.pos (h : BreakEndsAt t k) : 0 < k := by
  cases k with
  | zero => exact h.elim
  | succ k => omega

lemma BreakEndsAt.le_length (h : BreakEndsAt t k) : k ≤ t.length := by
  cases k with
  | zero => omega
  | succ k =>
    rcases h with h | ⟨h, _⟩ <;> exact (List.getElem?_eq_some_iff.mp h).1

/-- No line break reaches around a character that is no blank. -/
lemma not_insideBreak_of_visible {i : Nat} (hc : t[i]? = some c) (hblank : Text.isBlank c = false) :
    ¬ InsideBreak t i ∧ ¬ InsideBreak t (i + 1) := by
  constructor
  · cases i with
    | zero => exact id
    | succ i =>
      rintro ⟨-, hfeed⟩
      obtain rfl := Option.some.inj (hc.symm.trans hfeed)
      cases hblank
  · rintro ⟨hreturn, -⟩
    obtain rfl := Option.some.inj (hc.symm.trans hreturn)
    cases hblank

lemma BreakEndsAt.not_insideBreak (h : BreakEndsAt t k) : ¬ InsideBreak t k := by
  cases k with
  | zero => exact id
  | succ k =>
    rintro ⟨hr, hn⟩
    rcases h with h | ⟨_, h⟩
    · rw [hr] at h
      exact absurd h (by decide)
    · exact h hn

/-- From the inside of a line break it is one character to its end. -/
lemma InsideBreak.breakEndsAt_succ (h : InsideBreak t k) : BreakEndsAt t (k + 1) := by
  cases k with
  | zero => exact h.elim
  | succ k => exact Or.inl h.2

/-! ## The starts of lines -/

lemma lineStartsFrom_crlf (offset : Nat) (rest : Text) :
    lineStartsFrom offset ('\r' :: '\n' :: rest) = (offset + 2) :: lineStartsFrom (offset + 2) rest := by
  rw [lineStartsFrom]

lemma lineStartsFrom_cons (offset : Nat) (h : c = '\r' → rest.head? ≠ some '\n') :
    lineStartsFrom offset (c :: rest) =
      if Text.isBreak c then (offset + 1) :: lineStartsFrom (offset + 1) rest
      else lineStartsFrom (offset + 1) rest := by
  rw [lineStartsFrom]
  rintro more rfl rfl
  exact h rfl rfl

/-- The table lists exactly the offsets at which a line break ends. -/
lemma mem_lineStartsFrom {offset s : Nat} :
    s ∈ lineStartsFrom offset t ↔ ∃ k, s = offset + k ∧ BreakEndsAt t k := by
  -- one more character shifts all later ends by one
  have hsplit : ∀ {offset : Nat} {c : Char} {rest : Text}, (∃ k, s = offset + k ∧ BreakEndsAt (c :: rest) k) ↔
      (s = offset + 1 ∧ BreakEndsAt (c :: rest) 1) ∨ ∃ k, s = offset + 1 + k ∧ BreakEndsAt rest k := by
    intro offset c rest
    constructor
    · rintro ⟨_ | _ | k, rfl, hk⟩
      · exact hk.elim
      · exact Or.inl ⟨rfl, hk⟩
      · exact Or.inr ⟨k + 1, by omega, breakEndsAt_cons_add_two.mp hk⟩
    · rintro (⟨rfl, hk⟩ | ⟨k, rfl, hk⟩)
      · exact ⟨1, rfl, hk⟩
      · obtain ⟨j, rfl⟩ := Nat.exists_eq_add_one.mpr hk.pos
        exact ⟨j + 2, by omega, breakEndsAt_cons_add_two.mpr hk⟩
  fun_induction lineStartsFrom offset t with
  | case1 offset =>
    simp only [not_mem_nil, false_iff, not_exists, not_and]
    rintro k _ hk
    have hle := hk.le_length
    have hpos := hk.pos
    rw [length_nil] at hle
    omega
  | case2 offset rest ih =>
    rw [mem_cons, hsplit, hsplit, breakEndsAt_cons_one, breakEndsAt_cons_one]
    refine (or_congr_right ih).trans ?_
    simp [Nat.add_assoc]
  | case3 offset c rest hcrlf hbreak ih =>
    rw [mem_cons, hsplit, breakEndsAt_cons_one]
    refine (or_congr_right ih).trans ?_
    have hends : c = '\n' ∨ (c = '\r' ∧ rest.head? ≠ some '\n') := by
      rcases Bool.or_eq_true_iff.mp hbreak with hc | hc
      · refine Or.inr ⟨eq_of_beq hc, fun hn => ?_⟩
        obtain ⟨more, rfl⟩ := head?_eq_some_iff.mp hn
        exact hcrlf more (eq_of_beq hc) rfl
      · exact Or.inl (eq_of_beq hc)
    simp [hends]
  | case4 offset c rest hcrlf hbreak ih =>
    rw [hsplit, breakEndsAt_cons_one]
    refine ih.trans ?_
    have hends : ¬ (c = '\n' ∨ (c = '\r' ∧ rest.head? ≠ some '\n')) := by
      rintro (rfl | ⟨rfl, _⟩) <;> exact hbreak rfl
    simp [hends]

lemma lt_of_mem_lineStartsFrom {offset s : Nat} (h : s ∈ lineStartsFrom offset t) : offset < s := by
  obtain ⟨k, rfl, hk⟩ := mem_lineStartsFrom.mp h
  have := hk.pos
  omega

lemma lineStartsFrom_pairwise (offset : Nat) (t : Text) : (lineStartsFrom offset t).Pairwise (· < ·) := by
  fun_induction lineStartsFrom offset t with
  | case1 => exact .nil
  | case2 offset rest ih | case3 offset c rest _ _ ih => exact .cons (fun _ => lt_of_mem_lineStartsFrom) ih
  | case4 offset c rest _ _ ih => exact ih

namespace TextDocument

variable (d : TextDocument)

lemma mem_lineStarts {s : Nat} : s ∈ d.lineStarts ↔ s = 0 ∨ BreakEndsAt d.text s := by
  rw [lineStarts, mem_cons, mem_lineStartsFrom]
  simp

lemma lineStarts_pairwise : d.lineStarts.Pairwise (· < ·) :=
  .cons (fun _ => lt_of_mem_lineStartsFrom) (lineStartsFrom_pairwise 0 d.text)

lemma min_lt_lineCount (n : Nat) : min n (d.lineCount - 1) < d.lineCount := by
  rw [lineCount, lineStarts, length_cons]
  omega

variable {n m o : Nat}

lemma lineStart_eq_getElem (h : n < d.lineCount) : d.lineStart n = d.lineStarts[n] := by
  simp [lineStart, getElem?_eq_getElem h]

lemma lineStart_mem (h : n < d.lineCount) : d.lineStart n ∈ d.lineStarts := by
  rw [d.lineStart_eq_getElem h]
  exact getElem_mem h

lemma lineStart_lt_lineStart (hmn : m < n) (hn : n < d.lineCount) : d.lineStart m < d.lineStart n := by
  rw [d.lineStart_eq_getElem (Nat.lt_trans hmn hn), d.lineStart_eq_getElem hn]
  exact pairwise_iff_getElem.mp d.lineStarts_pairwise m n (Nat.lt_trans hmn hn) hn hmn

lemma lineStart_mono (hmn : m ≤ n) (hn : n < d.lineCount) : d.lineStart m ≤ d.lineStart n := by
  rcases Nat.lt_or_eq_of_le hmn with h | rfl
  · exact Nat.le_of_lt (d.lineStart_lt_lineStart h hn)
  · exact Nat.le_refl _

lemma breakEndsAt_lineStart (hpos : 0 < n) (hn : n < d.lineCount) : BreakEndsAt d.text (d.lineStart n) := by
  have hlt := d.lineStart_lt_lineStart hpos hn
  rcases d.mem_lineStarts.mp (d.lineStart_mem hn) with h | h
  · omega
  · exact h

lemma exists_lineStart_eq {s : Nat} (h : BreakEndsAt d.text s) : ∃ n < d.lineCount, d.lineStart n = s := by
  obtain ⟨n, hn, hs⟩ := getElem_of_mem (d.mem_lineStarts.mpr (Or.inr h))
  exact ⟨n, hn, by rw [d.lineStart_eq_getElem hn, hs]⟩

lemma lineStart_le_length (hn : n < d.lineCount) : d.lineStart n ≤ d.text.length := by
  rcases d.mem_lineStarts.mp (d.lineStart_mem hn) with h | h
  · omega
  · exact h.le_length

lemma not_insideBreak_lineStart (hn : n < d.lineCount) : ¬ InsideBreak d.text (d.lineStart n) := by
  rcases d.mem_lineStarts.mp (d.lineStart_mem hn) with h | h
  · rw [h]
    exact id
  · exact h.not_insideBreak

/-! ## The ends of lines -/

lemma lt_or_last (hn : n < d.lineCount) : n + 1 < d.lineCount ∨ n + 1 = d.lineCount := by
  omega

lemma lineEnd_last (hn : n + 1 = d.lineCount) : d.lineEnd n = d.text.length := by
  have hnone : d.lineStarts[n + 1]? = none := getElem?_eq_none (Nat.le_of_eq hn.symm)
  rw [lineEnd, hnone]

/-- A line that is not the last ends one character before the next, or two if its break is the long one. -/
lemma lineEnd_cases (hn : n + 1 < d.lineCount) :
    (d.lineEnd n + 1 = d.lineStart (n + 1) ∧ ¬ InsideBreak d.text (d.lineEnd n)) ∨
      (d.lineEnd n + 2 = d.lineStart (n + 1) ∧ InsideBreak d.text (d.lineEnd n + 1)) := by
  have hsome : d.lineStarts[n + 1]? = some (d.lineStart (n + 1)) := by
    rw [d.lineStart_eq_getElem hn]
    exact getElem?_eq_getElem hn
  have hends : BreakEndsAt d.text (d.lineStart (n + 1)) := d.breakEndsAt_lineStart (Nat.succ_pos n) hn
  obtain ⟨k, hk⟩ : ∃ k, d.lineStart (n + 1) = k + 1 := Nat.exists_eq_add_one.mpr hends.pos
  rw [hk] at hsome hends ⊢
  rw [lineEnd, hsome]
  rcases hends with hfeed | ⟨hreturn, hnext⟩
  · -- a line feed: the character before it decides
    cases k with
    | zero => exact Or.inl ⟨by simp [hfeed], by simp [hfeed, InsideBreak]⟩
    | succ k =>
      by_cases hlong : d.text[k]? = some '\r'
      · exact Or.inr ⟨by simp [hfeed, hlong], by simp [hfeed, hlong, InsideBreak]⟩
      · exact Or.inl ⟨by simp [hfeed, hlong], by simp [hfeed, hlong, InsideBreak]⟩
  · -- a lone carriage return
    refine Or.inl ⟨by simp [hreturn], ?_⟩
    cases k with
    | zero | succ k => simp [hreturn, InsideBreak]

lemma lineEnd_lt_lineStart_succ (hn : n + 1 < d.lineCount) : d.lineEnd n < d.lineStart (n + 1) := by
  rcases d.lineEnd_cases hn with ⟨h, _⟩ | ⟨h, _⟩ <;> omega

lemma lineEnd_le_length (hn : n < d.lineCount) : d.lineEnd n ≤ d.text.length := by
  rcases d.lt_or_last hn with h | h
  · have hlt := d.lineEnd_lt_lineStart_succ h
    have hle := d.lineStart_le_length h
    omega
  · exact Nat.le_of_eq (d.lineEnd_last h)

lemma lineStart_le_lineEnd (hn : n < d.lineCount) : d.lineStart n ≤ d.lineEnd n := by
  rcases d.lt_or_last hn with h | h
  · have hlt : d.lineStart n < d.lineStart (n + 1) := d.lineStart_lt_lineStart (Nat.lt_succ_self n) h
    rcases d.lineEnd_cases h with ⟨hend, _⟩ | ⟨hend, hinside⟩
    · omega
    · -- the line does not begin inside of the break that ends it
      have hne : d.lineStart n ≠ d.lineEnd n + 1 := fun heq =>
        d.not_insideBreak_lineStart hn (heq ▸ hinside)
      omega
  · rw [d.lineEnd_last h]
    exact d.lineStart_le_length hn

lemma lineEnd_le_lineStart (hmn : m < n) (hn : n < d.lineCount) : d.lineEnd m ≤ d.lineStart n := by
  have hend := d.lineEnd_lt_lineStart_succ (n := m) (by omega)
  have hnext : d.lineStart (m + 1) ≤ d.lineStart n := d.lineStart_mono hmn hn
  omega

/-! ## The line of an offset -/

lemma exists_split_le {l : List Nat} (h : l.Pairwise (· < ·)) (o : Nat) :
    ∃ low high, l = low ++ high ∧ low.length = l.countP (· ≤ o) ∧
      (∀ b ∈ low, b ≤ o) ∧ ∀ b ∈ high, ¬ b ≤ o := by
  induction h with
  | nil => exact ⟨[], [], rfl, rfl, forall_mem_nil _, forall_mem_nil _⟩
  | @cons a l ha _ ih =>
    by_cases hao : a ≤ o
    · obtain ⟨low, high, rfl, hlength, hlow, hhigh⟩ := ih
      refine ⟨a :: low, high, rfl, ?_, forall_mem_cons.mpr ⟨hao, hlow⟩, hhigh⟩
      rw [countP_cons_of_pos (by simpa using hao), length_cons, hlength]
    · have hhigh : ∀ b ∈ a :: l, ¬ b ≤ o := forall_mem_cons.mpr ⟨hao, fun b hb => by have := ha b hb; omega⟩
      exact ⟨[], a :: l, rfl, (countP_eq_zero.mpr (by simpa using hhigh)).symm, forall_mem_nil _, hhigh⟩

lemma getElem_le_iff_lt_countP {l : List Nat} (h : l.Pairwise (· < ·)) (o : Nat)
    (hn : n < l.length) : l[n] ≤ o ↔ n < l.countP (· ≤ o) := by
  obtain ⟨low, high, heq, hlength, hlow, hhigh⟩ := exists_split_le h o
  subst heq
  rw [← hlength, getElem_append]
  split
  next hlt => exact iff_of_true (hlow _ (getElem_mem _)) hlt
  next hge => exact iff_of_false (hhigh _ (getElem_mem _)) hge

lemma filter_le_eq_take {l : List Nat} (h : l.Pairwise (· < ·)) (o : Nat) :
    l.filter (· ≤ o) = l.take (l.countP (· ≤ o)) := by
  obtain ⟨low, high, heq, hlength, hlow, hhigh⟩ := exists_split_le h o
  rw [← hlength, heq, take_left, filter_append, filter_eq_self.mpr (by simpa using hlow),
    filter_eq_nil_iff.mpr (by simpa using hhigh), append_nil]

/-- The last line that begins at or before an offset. -/
def lineOf (o : Nat) : Nat := d.lineStarts.countP (· ≤ o) - 1

lemma countP_lineStarts_pos (o : Nat) : 0 < d.lineStarts.countP (· ≤ o) :=
  countP_pos_iff.mpr ⟨0, by simp [lineStarts], by simp⟩

lemma lineOf_lt (o : Nat) : d.lineOf o < d.lineCount := by
  have hpos := d.countP_lineStarts_pos o
  have hle := countP_le_length (p := (· ≤ o)) (l := d.lineStarts)
  rw [lineOf, lineCount]
  omega

lemma lineStart_le_iff (hn : n < d.lineCount) : d.lineStart n ≤ o ↔ n ≤ d.lineOf o := by
  have hpos := d.countP_lineStarts_pos o
  rw [d.lineStart_eq_getElem hn, getElem_le_iff_lt_countP d.lineStarts_pairwise o hn, lineOf]
  omega

lemma lineStart_lineOf_le (o : Nat) : d.lineStart (d.lineOf o) ≤ o :=
  (d.lineStart_le_iff (d.lineOf_lt o)).mpr (Nat.le_refl _)

lemma lineOf_mono {o' : Nat} (h : o ≤ o') : d.lineOf o ≤ d.lineOf o' :=
  (d.lineStart_le_iff (d.lineOf_lt o)).mp (Nat.le_trans (d.lineStart_lineOf_le o) h)

lemma lineOf_eq (hn : n < d.lineCount) (hstart : d.lineStart n ≤ o) (hend : o ≤ d.lineEnd n) :
    d.lineOf o = n := by
  have hle := (d.lineStart_le_iff hn).mp hstart
  by_contra hne
  have hnext : n + 1 < d.lineCount := by have := d.lineOf_lt o; omega
  have hlt := d.lineEnd_lt_lineStart_succ hnext
  have hle' := (d.lineStart_le_iff hnext (o := o)).mpr (by omega)
  omega

/-- An offset lies between the start and the end of its line, or inside of the break after it. -/
lemma le_lineEnd_lineOf (ho : o ≤ d.text.length) :
    o ≤ d.lineEnd (d.lineOf o) ∨ (o = d.lineEnd (d.lineOf o) + 1 ∧ InsideBreak d.text o) := by
  rcases d.lt_or_last (d.lineOf_lt o) with h | h
  · have hnext : ¬ d.lineStart (d.lineOf o + 1) ≤ o := fun hle => by
      have := (d.lineStart_le_iff h).mp hle
      omega
    rcases d.lineEnd_cases h with ⟨hend, _⟩ | ⟨hend, hinside⟩
    · exact Or.inl (by omega)
    · by_cases heq : o = d.lineEnd (d.lineOf o) + 1
      · exact Or.inr ⟨heq, by rw [heq]; exact hinside⟩
      · exact Or.inl (by omega)
  · rw [d.lineEnd_last h]
    exact Or.inl ho

/-- Between the start and the end of a line there is no break, and so no inside of one. -/
lemma not_insideBreak_of_mem_line (hn : n < d.lineCount) (hstart : d.lineStart n ≤ o)
    (hend : o ≤ d.lineEnd n) : ¬ InsideBreak d.text o := by
  intro hinside
  -- the break would end at `o + 1`, where a line later than `n` begins
  obtain ⟨m, hm, hms⟩ := d.exists_lineStart_eq hinside.breakEndsAt_succ
  have hnm : n < m := by
    by_contra hle
    have := d.lineStart_mono (Nat.le_of_not_lt hle) hn
    omega
  have hnext : d.lineStart (n + 1) ≤ d.lineStart m := d.lineStart_mono hnm hm
  rcases d.lineEnd_cases (n := n) (by omega) with ⟨hlast, hnot⟩ | ⟨hlast, _⟩
  · have hoe : o = d.lineEnd n := by omega
    exact hnot (hoe ▸ hinside)
  · omega

end TextDocument

end CppScaffold
