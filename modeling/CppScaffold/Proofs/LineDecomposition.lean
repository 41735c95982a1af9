import CppScaffold.Proofs.Positions

/-!
# Lines and their breaks

The lines of a document and the breaks between them, put together again, are its text.
-/

namespace CppScaffold

open Text List

namespace TextDocument

variable (d : TextDocument) {n k : Nat}

/-- The break that ends a line; the last line has none. -/
def breakAfter (n : Nat) : Text := between d.text (d.lineEnd n) (d.lineStart (n + 1))

lemma lineEnd_le_next (hn : n < d.lineCount) : d.lineEnd n ≤ d.lineStart (n + 1) := by
  rcases d.lt_or_last hn with hnext | hlast
  · exact Nat.le_of_lt (d.lineEnd_lt_lineStart_succ hnext)
  · rw [d.lineEnd_last hlast, d.lineStart_of_le (Nat.le_of_eq hlast.symm)]

/-- The lines before a place in the table are the text before it. -/
lemma flatMap_lines (hn : n ≤ d.lineCount) :
    (range n).flatMap (fun n : Nat => (d.lineAt n).text ++ d.breakAfter n) = d.text.take (d.lineStart n) := by
  induction n with
  | zero => rfl
  | succ n ih =>
    rw [range_succ, flatMap_append, ih (Nat.le_of_succ_le hn), flatMap_singleton, d.lineAt_of_lt hn, ← append_assoc,
      d.text.take_append_between (d.lineStart_le_lineEnd hn), breakAfter,
      d.text.take_append_between (d.lineEnd_le_next hn)]

lemma breakAfter_cases (hn : n + 1 < d.lineCount) :
    (d.lineEnd n + 2 = d.lineStart (n + 1) ∧ d.breakAfter n = ['\r', '\n']) ∨
      ¬ InsideBreak d.text (d.lineEnd n) ∧ d.lineEnd n + 1 = d.lineStart (n + 1) ∧
        (d.breakAfter n = ['\n'] ∨ d.breakAfter n = ['\r']) := by
  have hends := d.breakEndsAt_lineStart (Nat.succ_pos n) hn
  rw [breakAfter, between]
  rcases d.lineEnd_cases hn with ⟨hend, hinside⟩ | ⟨hend, hreturn, hfeed⟩
  · rw [← hend] at hends ⊢
    rw [Nat.add_sub_cancel_left, take_one, head?_drop]
    refine .inr ⟨hinside, rfl, hends.imp (fun hfeed => ?_) fun hreturn => ?_⟩
    · rw [hfeed]
      rfl
    · rw [hreturn.1]
      rfl
  · refine .inl ⟨hend, ?_⟩
    obtain ⟨hlt, hreturn⟩ := List.getElem?_eq_some_iff.mp hreturn
    obtain ⟨hlt', hfeed⟩ := List.getElem?_eq_some_iff.mp hfeed
    rw [← hend, Nat.add_sub_cancel_left, drop_eq_getElem_cons hlt, drop_eq_getElem_cons hlt', hreturn, hfeed]
    rfl

lemma breakAfter_last (hn : n + 1 = d.lineCount) : d.breakAfter n = [] := by
  rw [breakAfter, d.lineEnd_last hn, between, drop_length, take_nil]

lemma isBreak_of_mem_breakAfter {c : Char} (hn : n < d.lineCount) (hc : c ∈ d.breakAfter n) : isBreak c := by
  rcases d.lt_or_last hn with hnext | hlast
  · rcases d.breakAfter_cases hnext with ⟨-, hbreak⟩ | ⟨-, -, hbreak | hbreak⟩
    all_goals
      simp only [hbreak, mem_cons, not_mem_nil, or_false] at hc
      rcases hc with rfl | rfl <;> rfl
  · rw [d.breakAfter_last hlast] at hc
    cases hc

lemma exists_breakAfter_of_insideBreak (h : InsideBreak d.text (k + 1)) :
    ∃ n, n + 1 < d.lineCount ∧ d.lineEnd n = k ∧ d.breakAfter n = ['\r', '\n'] := by
  obtain ⟨m, hm, hstart⟩ := d.exists_lineStart_eq h.breakEndsAt_succ
  cases m with
  | zero => exact absurd hstart (by simp [lineStart, lineStarts])
  | succ n =>
    rcases d.breakAfter_cases hm with ⟨hend, hbreak⟩ | ⟨hinside, hend, -⟩
    · exact ⟨n, hm, by omega, hbreak⟩
    · -- the break would begin between the two characters
      have heq : d.lineEnd n = k + 1 := by omega
      exact absurd h (heq ▸ hinside)

/-- **The table of lines decomposes a text without loss.** The lines, each with its break, are the text; no line holds
a carriage return or line feed, and the two in sequence are one break. The table increases from zero, and no line ends
before it begins. -/
theorem lines_and_breaks_make_text (d : TextDocument) :
    (List.range d.lineCount).flatMap (fun n : Nat => (d.lineAt n).text ++ d.breakAfter n) = d.text ∧
    (∀ n, n + 1 < d.lineCount → d.breakAfter n = ['\r', '\n'] ∨ d.breakAfter n = ['\n'] ∨ d.breakAfter n = ['\r']) ∧
    d.breakAfter (d.lineCount - 1) = [] ∧
    (∀ k, d.text[k]? = some '\r' → d.text[k + 1]? = some '\n' →
      ∃ n, n + 1 < d.lineCount ∧ d.lineEnd n = k ∧ d.breakAfter n = ['\r', '\n']) ∧
    (∀ n < d.lineCount, '\r' ∉ (d.lineAt n).text ∧ '\n' ∉ (d.lineAt n).text) ∧
    d.lineStarts.head? = some 0 ∧ d.lineStarts.Pairwise (· < ·) ∧ ∀ n < d.lineCount, d.lineStart n ≤ d.lineEnd n := by
  have hcount : d.lineCount - 1 + 1 = d.lineCount := rfl
  refine ⟨?_, fun n hn => ?_, ?_, fun k hreturn hfeed => ?_, fun n hn => ?_, rfl, d.lineStarts_pairwise, fun n hn => ?_⟩
  · rw [d.flatMap_lines (Nat.le_refl _), d.lineStart_of_le (Nat.le_refl _), take_length]
  · rcases d.breakAfter_cases hn with ⟨-, hlong⟩ | ⟨-, -, hshort⟩
    · exact .inl hlong
    · exact .inr hshort
  · exact d.breakAfter_last hcount
  · exact d.exists_breakAfter_of_insideBreak ⟨hreturn, hfeed⟩
  · have hline : ∀ c ∈ (d.lineAt n).text, isBreak c = false := by
      rw [d.lineAt_of_lt hn]
      exact fun c => d.isBreak_of_mem_between hn (Nat.le_refl _) (Nat.le_refl _)
    exact ⟨fun h => absurd (hline _ h) (by decide), fun h => absurd (hline _ h) (by decide)⟩
  · exact d.lineStart_le_lineEnd hn

end TextDocument

end CppScaffold
