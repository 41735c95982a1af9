import CppScaffold.Proofs.Combinators

/-!
# What recognisers accept

A recogniser accepts no more than it is given; searches are described by the places at which it accepts. Different
words found in one text lie apart.
-/

namespace CppScaffold

open List

namespace Recognizer

open Text

/-! ## Recognisers stay in the text -/

/-- The recogniser accepts no more characters than there are. -/
def Bounded (r : Recognizer) : Prop := ∀ prev t n, r prev t = some n → n ≤ t.length

lemma bounded_exactly (w : Text) : Bounded (exactly w) := by
  intro prev t n h
  obtain ⟨hw, rfl⟩ := exactly_eq_some_iff.mp h
  exact hw.length_le

lemma bounded_char (p : Char → Bool) : Bounded (char p) := by
  intro prev t n h
  obtain ⟨c, rest, rfl, _, rfl⟩ := char_eq_some_iff.mp h
  simp

lemma bounded_many (p : Char → Bool) : Bounded (many p) := by
  intro prev t n h
  rw [many_eq_some_iff.mp h]
  exact (takeWhile_sublist p).length_le

variable {r : Recognizer}

lemma Bounded.andThen {s : Recognizer} (hr : Bounded r) (hs : Bounded s) : Bounded (andThen r s) := by
  intro prev t n h
  obtain ⟨a, b, ha, hb, rfl⟩ := andThen_eq_some_iff.mp h
  have ha := hr prev t a ha
  have hb := hs _ _ b hb
  rw [length_drop] at hb
  omega

lemma bounded_seq {rs : List Recognizer} (h : ∀ r ∈ rs, Bounded r) : Bounded (seq rs) := by
  fun_induction seq rs with
  | case1 =>
    intro prev t n hn
    obtain rfl := Option.some.inj hn
    exact Nat.zero_le _
  | case2 r => exact h r (by simp)
  | case3 r rs _ ih =>
    obtain ⟨hr, hrs⟩ := forall_mem_cons.mp h
    exact hr.andThen (ih hrs)

lemma Bounded.optional (hr : Bounded r) : Bounded (optional r) := by
  intro prev t n h
  obtain rfl := Option.some.inj h
  cases hn : r prev t with
  | none => simp
  | some k => exact hr prev t k hn

lemma Bounded.atMost (hr : Bounded r) (k : Nat) : Bounded (atMost k r) := by
  induction k with
  | zero =>
    intro prev t n h
    obtain rfl := Option.some.inj h
    exact Nat.zero_le _
  | succ k ih =>
    intro prev t n h
    rcases atMost_succ_eq_some h with rfl | h
    · exact Nat.zero_le _
    · exact hr.andThen ih prev t n h

lemma Bounded.repeated (hr : Bounded r) : Bounded (repeated r) :=
  fun prev t n h => hr.atMost t.length prev t n h

lemma bounded_emptyPair (left right : Char) : Bounded (emptyPair left right) :=
  (bounded_char _).andThen ((bounded_many _).andThen (bounded_char _))

/-! ## Words -/

/-- A word is accepted where it is written and begins at a boundary. -/
lemma word_eq_some {w : Text} {prev : Option Char} {t : Text} {n : Nat} (h : word w prev t = some n) :
    isWord prev ≠ isWord t.head? ∧ w <+: t ∧ n = w.length := by
  simp only [word, seq, andThen_eq_some_iff, boundary_eq_some_iff, exactly_eq_some_iff] at h
  obtain ⟨_, _, ⟨hboundary, rfl⟩, ⟨_, _, ⟨hw, rfl⟩, ⟨_, rfl⟩, rfl⟩, rfl⟩ := h
  exact ⟨hboundary, hw, by omega⟩

lemma bounded_word (w : Text) : Bounded (word w) := by
  intro prev t n h
  obtain ⟨_, hw, rfl⟩ := word_eq_some h
  exact hw.length_le

lemma exists_getElem?_takeWhile {p : Char → Bool} {t : Text} {n : Nat} (h : n < (t.takeWhile p).length) :
    ∃ c, t[n]? = some c ∧ p c := by
  have hwritten := takeWhile_prefix p (l := t)
  exact ⟨_, prefix_iff_getElem?.mp hwritten n h, mem_takeWhile_imp (getElem_mem h)⟩

/-- A word with characters of a class after it: the word begins at a boundary, and all else that is accepted is of the
class. -/
lemma andThen_word_many_eq_some {w : Text} {p : Char → Bool} {prev : Option Char} {t : Text} {n : Nat}
    (h : andThen (word w) (many p) prev t = some n) :
    isWord prev ≠ isWord t.head? ∧ w <+: t ∧ ∀ i, w.length ≤ i → i < n → ∃ c, t[i]? = some c ∧ p c := by
  obtain ⟨_, _, hw, hn, rfl⟩ := andThen_eq_some_iff.mp h
  obtain ⟨hboundary, hwritten, rfl⟩ := word_eq_some hw
  rw [many_eq_some_iff] at hn
  refine ⟨hboundary, hwritten, fun i hi hin => ?_⟩
  obtain ⟨c, hget, hc⟩ := exists_getElem?_takeWhile (p := p) (t := t.drop w.length) (n := i - w.length) (by omega)
  rw [getElem?_drop, Nat.add_sub_cancel' hi] at hget
  exact ⟨c, hget, hc⟩

lemma before_cons_succ (prev : Option Char) (c : Char) (t : Text) (k : Nat) :
    before prev (c :: t) (k + 1) = before (some c) t k := by
  cases k <;> simp [before]

end Recognizer

namespace Text

open Recognizer

/-! ## Searching -/

variable {r : Recognizer} {prev : Option Char} {offset skip : Nat} {t w : Text} {s : Span}

/-- `searchFrom` gives the first place at which the recogniser accepts, counted from the given offset. -/
lemma searchFrom_eq_some_iff : searchFrom r prev offset t = some s ↔
    ∃ k n, s = ⟨offset + k, offset + k + n⟩ ∧ k ≤ t.length ∧ r (before prev t k) (t.drop k) = some n ∧
      ∀ j < k, r (before prev t j) (t.drop j) = none := by
  induction t generalizing prev offset with
  | nil =>
    simp only [searchFrom, Option.map_eq_some_iff, length_nil, Nat.le_zero_eq]
    constructor
    · rintro ⟨n, hn, rfl⟩
      exact ⟨0, n, rfl, rfl, hn, by simp⟩
    · rintro ⟨k, n, rfl, rfl, hn, _⟩
      exact ⟨n, hn, rfl⟩
  | cons c rest ih =>
    rw [searchFrom]
    cases hr : r prev (c :: rest) with
    | some m =>
      constructor
      · intro h
        exact ⟨0, m, (Option.some.inj h).symm, Nat.zero_le _, hr, by simp⟩
      · rintro ⟨k, n, rfl, _, hn, hfirst⟩
        obtain _ | k := k
        · obtain rfl := Option.some.inj (hr.symm.trans hn)
          rfl
        · exact absurd (hfirst 0 (by omega)) (by simp [before, hr])
    | none =>
      refine ih.trans ⟨?_, ?_⟩
      · rintro ⟨k, n, rfl, hk, hn, hfirst⟩
        refine ⟨k + 1, n, by rw [Span.mk.injEq]; omega, by simpa using hk, by rwa [before_cons_succ], ?_⟩
        intro j hj
        obtain _ | j := j
        · exact hr
        · rw [before_cons_succ]
          exact hfirst j (by omega)
      · rintro ⟨k, n, rfl, hk, hn, hfirst⟩
        obtain _ | k := k
        · exact absurd (hr.symm.trans hn) (by simp)
        · rw [before_cons_succ] at hn
          refine ⟨k, n, by rw [Span.mk.injEq]; omega, by simpa using hk, hn, fun j hj => ?_⟩
          have := hfirst (j + 1) (by omega)
          rwa [before_cons_succ] at this

lemma search?_eq_some_iff : search? r t = some s ↔ s.start ≤ s.stop ∧ s.start ≤ t.length ∧
    r (before none t s.start) (t.drop s.start) = some (s.stop - s.start) ∧
    ∀ j < s.start, r (before none t j) (t.drop j) = none := by
  rw [search?, searchFrom_eq_some_iff]
  constructor
  · rintro ⟨k, n, rfl, h⟩
    simp only [Nat.zero_add, Nat.le_add_right, Nat.add_sub_cancel_left]
    exact ⟨trivial, h⟩
  · rintro ⟨hle, h⟩
    refine ⟨s.start, s.stop - s.start, ?_, h⟩
    rw [Nat.zero_add, Nat.add_sub_cancel' hle]

/-- What is accepted in one place only is found there. -/
lemma search?_of_unique {k n : Nat} (hk : k ≤ t.length) (h : r (before none t k) (t.drop k) = some n)
    (hunique : ∀ j i, r (before none t j) (t.drop j) = some i → j = k) : search? r t = some ⟨k, k + n⟩ := by
  refine search?_eq_some_iff.mpr ⟨Nat.le_add_right .., hk, by rwa [Nat.add_sub_cancel_left], fun j hj => ?_⟩
  exact Option.eq_none_iff_forall_ne_some.mpr fun i hi => Nat.ne_of_lt hj (hunique j i hi)

lemma start_lt_of_mem_findAllFrom (h : s ∈ findAllFrom r prev offset skip t) : s.start < offset + t.length := by
  fun_induction findAllFrom r prev offset skip t with
  | case1 => simp at h
  | case2 prev offset c rest skip ih | case4 prev offset c rest _ ih =>
    have := ih h
    rw [length_cons]
    omega
  | case3 prev offset c rest n _ ih =>
    rw [length_cons]
    rcases mem_cons.mp h with rfl | h
    · exact Nat.lt_add_of_pos_right (Nat.succ_pos _)
    · have := ih h
      omega

lemma le_start_of_mem_findAllFrom (h : s ∈ findAllFrom r prev offset skip t) : offset + skip ≤ s.start := by
  fun_induction findAllFrom r prev offset skip t with
  | case1 => simp at h
  | case2 prev offset c rest skip ih =>
    have := ih h
    omega
  | case3 prev offset c rest n _ ih =>
    rcases mem_cons.mp h with rfl | h
    · exact Nat.le_refl _
    · have := ih h
      omega
  | case4 prev offset c rest _ ih =>
    have := ih h
    omega

lemma findAll_apart (r : Recognizer) (t : Text) : (findAll r t).Pairwise fun a b => a.stop ≤ b.start := by
  suffices h : ∀ prev offset skip, (findAllFrom r prev offset skip t).Pairwise fun a b => a.stop ≤ b.start from
    h none 0 0
  intro prev offset skip
  fun_induction findAllFrom r prev offset skip t with
  | case1 => exact .nil
  | case2 prev offset c rest skip ih => exact ih
  | case3 prev offset c rest n _ ih =>
    refine .cons (fun s hs => ?_) ih
    have := le_start_of_mem_findAllFrom hs
    dsimp only
    omega
  | case4 prev offset c rest _ ih => exact ih

lemma accepted_of_mem_findAllFrom (h : s ∈ findAllFrom r prev offset skip t) :
    ∃ k n, s = ⟨offset + k, offset + k + (n + 1)⟩ ∧ r (before prev t k) (t.drop k) = some (n + 1) := by
  fun_induction findAllFrom r prev offset skip t with
  | case1 => cases h
  | case2 prev offset c rest skip ih | case4 prev offset c rest _ ih =>
    obtain ⟨k, n, rfl, haccept⟩ := ih h
    exact ⟨k + 1, n, by rw [Span.mk.injEq]; omega, by rwa [before_cons_succ]⟩
  | case3 prev offset c rest n haccept ih =>
    rcases mem_cons.mp h with rfl | h
    · exact ⟨0, n, rfl, haccept⟩
    · obtain ⟨k, m, rfl, haccept⟩ := ih h
      exact ⟨k + 1, m, by rw [Span.mk.injEq]; omega, by rwa [before_cons_succ]⟩

lemma accepted_of_mem_findAll (h : s ∈ findAll r t) :
    s.start < s.stop ∧ r (before none t s.start) (t.drop s.start) = some (s.stop - s.start) := by
  obtain ⟨k, n, rfl, haccept⟩ := accepted_of_mem_findAllFrom h
  exact ⟨by dsimp only; omega, by simpa using haccept⟩

/-! ## Two words in one text -/

lemma getElem?_of_prefix_drop {k i : Nat} (h : w <+: t.drop k) (hi : i < w.length) : t[k + i]? = some w[i] := by
  rw [← getElem?_drop]
  exact prefix_iff_getElem?.mp h i hi

variable {w' : Text} {p : Char → Bool} {s' : Span}

/-- A word found behind the start of another one is found behind its end. -/
lemma stop_le_start_of_lt (hw : ∀ c ∈ w, isWordChar c) (hw' : ∀ c ∈ w', isWordChar c) (hne : w' ≠ [])
    (hp : ∀ c, p c → isWordChar c = false) (h : search? (andThen (word w) (many p)) t = some s)
    (h' : search? (andThen (word w') (many p)) t = some s') (hlt : s.start < s'.start) : s.stop ≤ s'.start := by
  obtain ⟨_, _, hs, _⟩ := search?_eq_some_iff.mp h
  obtain ⟨_, _, hs', _⟩ := search?_eq_some_iff.mp h'
  obtain ⟨_, hwritten, hgap⟩ := andThen_word_many_eq_some hs
  obtain ⟨hboundary, hwritten', _⟩ := andThen_word_many_eq_some hs'
  have hpos : 0 < w'.length := length_pos_iff.mpr hne
  have hfirst := getElem?_of_prefix_drop hwritten' hpos
  rw [Nat.add_zero] at hfirst
  by_contra hstop
  rcases Nat.lt_or_ge (s'.start - s.start) w.length with hin | hout
  · -- both neighbours of the place are characters of the first word
    have hnext := getElem?_of_prefix_drop hwritten hin
    have hprev := @getElem?_of_prefix_drop _ _ _ (s'.start - s.start - 1) hwritten (by omega)
    rw [show s.start + (s'.start - s.start) = s'.start by omega] at hnext
    rw [show s.start + (s'.start - s.start - 1) = s'.start - 1 by omega] at hprev
    refine hboundary ?_
    rw [before, if_neg (by omega), hprev, head?_drop, hnext, isWord, isWord, Option.any_some, Option.any_some,
      hw _ (getElem_mem _), hw _ (getElem_mem _)]
  · obtain ⟨c, hc, hpc⟩ := hgap (s'.start - s.start) hout (by omega)
    rw [getElem?_drop, show s.start + (s'.start - s.start) = s'.start by omega, hfirst] at hc
    have hword := hw' _ (getElem_mem hpos)
    rw [Option.some.inj hc, hp c hpc] at hword
    exact Bool.noConfusion hword

/-- Two different words of one length are never found in the same place. -/
lemma words_apart (hw : ∀ c ∈ w, isWordChar c) (hw' : ∀ c ∈ w', isWordChar c) (hlength : w.length = w'.length)
    (hne : w ≠ w') (hp : ∀ c, p c → isWordChar c = false) (h : search? (andThen (word w) (many p)) t = some s)
    (h' : search? (andThen (word w') (many p)) t = some s') : s.stop ≤ s'.start ∨ s'.stop ≤ s.start := by
  have hnil : w ≠ [] ∧ w' ≠ [] := by
    constructor
    · rintro rfl
      exact hne (length_eq_zero_iff.mp hlength.symm).symm
    · rintro rfl
      exact hne (length_eq_zero_iff.mp hlength)
  rcases Nat.lt_trichotomy s.start s'.start with hlt | heq | hgt
  · exact Or.inl (stop_le_start_of_lt hw hw' hnil.2 hp h h' hlt)
  · have hwritten := (andThen_word_many_eq_some (search?_eq_some_iff.mp h).2.2.1).2.1
    have hwritten' := (andThen_word_many_eq_some (search?_eq_some_iff.mp h').2.2.1).2.1
    rw [heq] at hwritten
    have hpre := prefix_of_prefix_length_le hwritten hwritten' (Nat.le_of_eq hlength)
    exact absurd (hpre.eq_of_length hlength) hne
  · exact Or.inr (stop_le_start_of_lt hw' hw hnil.1 hp h' h hgt)

end Text

end CppScaffold
