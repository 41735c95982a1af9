import CppScaffold.Proofs.Search
import Mathlib.Data.List.DropRight

/-!
# Trimming and cutting at separators

A text is a blank start, a core with visible ends, and a blank end. `findAll` finds the longest pieces between
separators.
-/

namespace CppScaffold.Text

open Recognizer List

/-! ## Blank ends -/

variable {p : Char → Bool} {t core l : Text} {c : Char}

lemma dropEndWhile_append {x : Text} (h : ∀ c ∈ x, p c) : dropEndWhile p (t ++ x) = dropEndWhile p t := by
  have hx : ∀ c ∈ x.reverse, p c := fun c hc => h c (mem_reverse.mp hc)
  rw [dropEndWhile, dropEndWhile, reverse_append, dropWhile_append_of_pos hx]

lemma dropEndWhile_eq_self (h : ∀ c, t.getLast? = some c → p c = false) : dropEndWhile p t = t := by
  refine rdropWhile_eq_self_iff.mpr fun hne => ?_
  rw [h _ (getLast?_eq_some_getLast hne)]
  exact Bool.false_ne_true

lemma exists_eq_dropEndWhile_append (p : Char → Bool) (t : Text) :
    ∃ x, t = dropEndWhile p t ++ x ∧ ∀ c ∈ x, p c :=
  ⟨t.rtakeWhile p, rdropWhile_append_rtakeWhile.symm, fun _ => mem_rtakeWhile_imp⟩

lemma getLast?_dropEndWhile (h : (dropEndWhile p t).getLast? = some c) : p c = false := by
  have hne : dropEndWhile p t ≠ [] := by
    intro hnil
    simp [hnil] at h
  rw [getLast?_eq_some_getLast hne, Option.some.injEq] at h
  rw [← h]
  exact Bool.eq_false_iff.mpr (rdropWhile_last_not p t hne)

lemma length_trimEnd_le (t : Text) : (trimEnd t).length ≤ t.length :=
  IsPrefix.length_le <| rdropWhile_prefix isBlank t

/-! ## Blank parts -/

lemma isBlank_of_isSpaceOrTab (h : isSpaceOrTab c) : isBlank c := by
  simp only [isSpaceOrTab, Bool.or_eq_true, beq_iff_eq] at h
  rcases h with rfl | rfl <;> decide

def BlankBetween (t : Text) (a b : Nat) : Prop := ∀ i c, t[i]? = some c → a ≤ i → i < b → isBlank c

namespace BlankBetween

variable {t : Text} {a b c : Nat}

lemma empty (t : Text) (a : Nat) : BlankBetween t a a := fun _ _ _ hle hlt => absurd hlt (by omega)

lemma of_forall (h : ∀ c ∈ t, isBlank c) (n : Nat) : BlankBetween t 0 n :=
  fun _ c hc _ _ => h c (mem_of_getElem? hc)

lemma trans (hab : BlankBetween t a b) (hbc : BlankBetween t b c) : BlankBetween t a c := by
  intro i x hx ha hc
  rcases Nat.lt_or_ge i b with hi | hi
  · exact hab i x hx ha hi
  · exact hbc i x hx hi hc

lemma mono {a' b' : Nat} (h : BlankBetween t a b) (ha : a ≤ a') (hb : b' ≤ b) : BlankBetween t a' b' :=
  fun i x hx hai hib => h i x hx (by omega) (by omega)

lemma append {x y : Text} {n : Nat} (hx : ∀ c ∈ x, isBlank c) (hy : BlankBetween y 0 n) :
    BlankBetween (x ++ y) 0 (x.length + n) := by
  intro i c hc _ hi
  rcases Nat.lt_or_ge i x.length with hlt | hge
  · rw [getElem?_append_left hlt] at hc
    exact hx c (mem_of_getElem? hc)
  · rw [getElem?_append_right hge] at hc
    exact hy (i - x.length) c hc (Nat.zero_le _) (by omega)

lemma shift {x y : Text} {n : Nat} (hy : BlankBetween y 0 n) : BlankBetween (x ++ y) x.length (x.length + n) := by
  intro i c hc hle hi
  rw [getElem?_append_right hle] at hc
  exact hy (i - x.length) c hc (Nat.zero_le _) (by omega)

end BlankBetween

lemma blankBetween_iff {a b : Nat} : BlankBetween t a b ↔ isAllBlank (between t a b) := by
  rw [isAllBlank, all_eq_true]
  constructor
  · intro h c hc
    obtain ⟨i, hi, ha, hb⟩ := mem_between hc
    exact h i c hi ha hb
  · intro h i c hc ha hb
    refine h c (mem_of_getElem? (i := i - a) ?_)
    rw [between, getElem?_take_of_lt (by omega), getElem?_drop, show a + (i - a) = i by omega, hc]

lemma eq_nil_of_head {x : Text} (hl : ∀ c ∈ l, isBlank c)
    (hhead : ∀ c, (l ++ x).head? = some c → isBlank c = false) : l = [] := by
  cases l with
  | nil => rfl
  | cons c l => exact absurd (hl c mem_cons_self) (ne_true_of_eq_false (hhead c rfl))

lemma eq_nil_of_last {x : Text} (hl : ∀ c ∈ l, isBlank c)
    (hlast : ∀ c, (x ++ l).getLast? = some c → isBlank c = false) : l = [] := by
  rw [← reverse_eq_nil_iff]
  refine eq_nil_of_head (x := x.reverse) (by simpa using hl) fun c hc => hlast c ?_
  rwa [← reverse_append, head?_reverse] at hc

/-! ## Cores -/

/-- A core of a text: it is not empty and neither begins nor ends with a blank. -/
structure Trimmed (core : Text) : Prop where
  ne_nil : core ≠ []
  head : ∀ c, core.head? = some c → isBlank c = false
  last : ∀ c, core.getLast? = some c → isBlank c = false

lemma Trimmed.trimStart_append (h : Trimmed core) (hl : ∀ c ∈ l, isBlank c)
    (r : Text) : trimStart (l ++ (core ++ r)) = core ++ r := by
  obtain ⟨c, rest, rfl⟩ := exists_cons_of_ne_nil h.ne_nil
  rw [trimStart, dropWhile_append_of_pos hl, cons_append, dropWhile_cons_of_neg]
  rw [h.head c rfl]
  exact Bool.false_ne_true

lemma Trimmed.isAllBlank_append (h : Trimmed core) (l r : Text) : isAllBlank (l ++ (core ++ r)) = false := by
  obtain ⟨c, rest, hcons⟩ := exists_cons_of_ne_nil h.ne_nil
  rw [isAllBlank, all_eq_false]
  refine ⟨c, by simp [hcons], ?_⟩
  rw [h.head c (by rw [hcons, head?_cons])]
  exact Bool.false_ne_true

lemma Trimmed.indentation_append (h : Trimmed core) (hl : ∀ c ∈ l, isBlank c)
    (r : Text) : indentation (l ++ (core ++ r)) = l := by
  obtain ⟨c, rest, rfl⟩ := exists_cons_of_ne_nil h.ne_nil
  rw [indentation, takeWhile_append_of_pos hl, cons_append, takeWhile_cons_of_neg, append_nil]
  rw [h.head c rfl]
  exact Bool.false_ne_true

lemma Trimmed.trimEnd_append (h : Trimmed core) (l : Text) {r : Text} (hr : ∀ c ∈ r, isBlank c) :
    trimEnd (l ++ (core ++ r)) = l ++ core := by
  rw [trimEnd, ← append_assoc, dropEndWhile_append hr, dropEndWhile_eq_self]
  intro c hc
  rw [getLast?_append_of_ne_nil _ h.ne_nil] at hc
  exact h.last c hc

lemma Trimmed.trim_append (h : Trimmed core) {r : Text} (hl : ∀ c ∈ l, isBlank c)
    (hr : ∀ c ∈ r, isBlank c) : trim (l ++ (core ++ r)) = core := by
  rw [trim, h.trimStart_append hl]
  exact h.trimEnd_append [] hr

lemma exists_core (h : isAllBlank t = false) : ∃ l core r, t = l ++ (core ++ r) ∧
    (∀ c ∈ l, isBlank c) ∧ (∀ c ∈ r, isBlank c) ∧ Trimmed core := by
  obtain ⟨r, hr, hrblank⟩ := exists_eq_dropEndWhile_append isBlank (t.dropWhile isBlank)
  have hne : t.dropWhile isBlank ≠ [] := by
    intro hnil
    rw [dropWhile_eq_nil_iff] at hnil
    rw [isAllBlank, all_eq_true.mpr hnil] at h
    cases h
  have hhead : ∀ c, (t.dropWhile isBlank).head? = some c → isBlank c = false := by
    intro c hc
    have hnot := head?_dropWhile_not isBlank t
    rw [hc] at hnot
    simpa using hnot
  have hcore : dropEndWhile isBlank (t.dropWhile isBlank) ≠ [] := by
    intro hnil
    rw [hnil, nil_append] at hr
    exact hne (hr.trans (eq_nil_of_head (x := []) hrblank (by rwa [append_nil, ← hr])))
  refine ⟨t.takeWhile isBlank, dropEndWhile isBlank (t.dropWhile isBlank), r, ?_, fun c hc => mem_takeWhile_imp hc,
    hrblank, hcore, fun c hc => hhead c ?_, fun c hc => getLast?_dropEndWhile hc⟩
  · rw [← hr, takeWhile_append_dropWhile]
  · rwa [hr, head?_append_of_ne_nil _ hcore]

lemma exists_core_cons {c : Char} (hc : isBlank c = false) (t : Text) :
    ∃ t' r, t = t' ++ r ∧ (∀ d ∈ r, isBlank d) ∧ Trimmed (c :: t') := by
  have hvisible : isAllBlank (c :: t) = false := by rw [isAllBlank, all_cons, hc, Bool.false_and]
  obtain ⟨l, core, r, heq, hl, hr, hcore⟩ := exists_core hvisible
  obtain rfl : l = [] := eq_nil_of_head (x := core ++ r) hl (by simp [← heq, hc])
  obtain ⟨d, t', rfl⟩ := exists_cons_of_ne_nil hcore.ne_nil
  obtain ⟨rfl, rfl⟩ := cons_eq_cons.mp heq
  exact ⟨t', r, rfl, hr, hcore⟩

/-! ## The first separator -/

lemma findFrom_singleton_eq_none_iff {offset : Nat} : findFrom [c] offset t = none ↔ c ∉ t := by
  induction t generalizing offset with
  | nil => simp [findFrom]
  | cons d rest ih =>
    by_cases h : c = d
    · simp [findFrom, h]
    · simp [findFrom, h, ih]

lemma find?_singleton_eq_none_iff : find? [c] t = none ↔ c ∉ t :=
  findFrom_singleton_eq_none_iff

lemma find?_singleton_eq_some_iff {i : Nat} :
    find? [c] t = some i ↔ ∃ a b, t = a ++ c :: b ∧ a.length = i ∧ c ∉ a := by
  constructor
  · intro h
    obtain ⟨⟨rest, hrest⟩, hfirst⟩ := find?_eq_some_iff.mp h
    have hle := add_length_le_of_find? h (by simp)
    refine ⟨t.take i, rest, ?_, by rw [length_take]; omega, fun hmem => ?_⟩
    · rw [← singleton_append, hrest, take_append_drop]
    · obtain ⟨j, hj, hget⟩ := getElem_of_mem hmem
      rw [length_take] at hj
      have hdrop : t.drop j = c :: t.drop (j + 1) := by
        rw [drop_eq_getElem_cons (by omega), ← hget, getElem_take]
      exact hfirst j (by omega) ⟨t.drop (j + 1), by rw [hdrop, singleton_append]⟩
  · rintro ⟨a, b, rfl, rfl, ha⟩
    refine find?_eq_some_iff.mpr ⟨⟨b, by simp⟩, fun j hj ⟨rest, hrest⟩ => ha ?_⟩
    have hget : (a ++ c :: b)[j]? = some c := by
      rw [← head?_drop, ← hrest, singleton_append, head?_cons]
    rw [getElem?_append_left hj] at hget
    exact mem_of_getElem? hget

lemma findAfter?_singleton_eq_some_iff {start i : Nat} (h : start ≤ t.length) :
    findAfter? [c] t start = some i ↔ ∃ a b, t = a ++ c :: b ∧ a.length = i ∧ start ≤ i ∧ c ∉ a.drop start := by
  have hresolve : resolveIndex t.length (start : Int) = start := by
    rw [resolveIndex, if_neg (by omega), Int.toNat_natCast]
    omega
  rw [findAfter?, startingAt, hresolve, findFrom_eq_map, Option.map_eq_some_iff]
  constructor
  · rintro ⟨j, hj, rfl⟩
    obtain ⟨a, b, hdrop, rfl, hnot⟩ := find?_singleton_eq_some_iff.mp hj
    refine ⟨t.take start ++ a, b, ?_, ?_, Nat.le_add_right .., ?_⟩
    · rw [append_assoc, ← hdrop, take_append_drop]
    · rw [length_append, length_take_of_le h]
    · rwa [drop_left' (length_take_of_le h)]
  · rintro ⟨a, b, rfl, rfl, hle, hnot⟩
    refine ⟨(a.drop start).length, find?_singleton_eq_some_iff.mpr ⟨a.drop start, b, ?_, rfl, hnot⟩, ?_⟩
    · rw [drop_append_of_le_length hle]
    · rw [length_drop]
      omega

/-! ## Runs between separators -/

/-- Where a run begins does not matter for what is accepted there. -/
lemma findAllFrom_some1_prev (p : Char → Bool) (prev prev' : Option Char) (offset skip : Nat) (t : Text) :
    findAllFrom (some1 p) prev offset skip t = findAllFrom (some1 p) prev' offset skip t := by
  cases t with
  | nil => rfl
  | cons c rest => cases skip <;> rfl

lemma findAllFrom_skip (p : Char → Bool) (prev : Option Char) (offset : Nat) (x rest : Text) :
    findAllFrom (some1 p) prev offset x.length (x ++ rest) =
      findAllFrom (some1 p) none (offset + x.length) 0 rest := by
  induction x generalizing prev offset with
  | nil => exact findAllFrom_some1_prev p prev none _ _ _
  | cons c x ih =>
    rw [cons_append, length_cons, findAllFrom, ih, Nat.add_assoc, Nat.add_comm 1]

lemma findAllFrom_append_separator {m rest : Text} (hm : ∀ c ∈ m, p c) (hc : p c = false) (prev : Option Char)
    (offset : Nat) : findAllFrom (some1 p) prev offset 0 (m ++ c :: rest) =
      (if m = [] then [] else [⟨offset, offset + m.length⟩]) ++
        findAllFrom (some1 p) none (offset + m.length + 1) 0 rest := by
  have hsep : ∀ prev offset, findAllFrom (some1 p) prev offset 0 (c :: rest) =
      findAllFrom (some1 p) none (offset + 1) 0 rest := by
    intro prev offset
    rw [findAllFrom]
    simp only [some1, takeWhile_cons, hc, Bool.false_eq_true, if_false, length_nil]
    exact findAllFrom_some1_prev ..
  cases m with
  | nil => simpa using hsep prev offset
  | cons d m =>
    have hrun : some1 p prev (d :: (m ++ c :: rest)) = some (m.length + 1) := by
      rw [some1, ← cons_append, takeWhile_append_cons hm hc]
      rfl
    rw [cons_append, findAllFrom]
    simp only [hrun]
    rw [findAllFrom_skip, hsep, if_neg (by simp), length_cons, singleton_append]
    congr 2
    omega

lemma findAllFrom_all {m : Text} (hm : ∀ c ∈ m, p c) (prev : Option Char) (offset : Nat) :
    findAllFrom (some1 p) prev offset 0 m = if m = [] then [] else [⟨offset, offset + m.length⟩] := by
  cases m with
  | nil => rfl
  | cons d m =>
    have hrun : some1 p prev (d :: m) = some (m.length + 1) := by
      rw [some1, takeWhile_eq_self_iff.mpr hm]
      rfl
    rw [findAllFrom]
    simp only [hrun]
    have hrest := findAllFrom_skip p (some d) (offset + 1) m []
    rw [append_nil] at hrest
    rw [hrest, if_neg (by simp), findAllFrom, length_cons]

/-! ## Joined texts and their pieces -/

variable {l : List Text}

lemma join_cons (sep : Text) (x : Text) (h : l ≠ []) : join sep (x :: l) = x ++ (sep ++ join sep l) := by
  obtain ⟨y, l, rfl⟩ := exists_cons_of_ne_nil h
  rw [join, intercalate_cons_cons, join, append_assoc]

lemma join_singleton (sep x : Text) : join sep [x] = x := intercalate_singleton ..

lemma join_concat (sep : Text) (h : l ≠ []) (t : Text) : join sep (l ++ [t]) = join sep l ++ (sep ++ t) := by
  induction l with
  | nil => exact absurd rfl h
  | cons x l ih =>
    by_cases hl : l = []
    · rw [hl, join_singleton, singleton_append, join_cons _ _ (by simp), join_singleton]
    · rw [cons_append, join_cons _ _ (by simp), ih hl, join_cons _ _ hl]
      simp

lemma splitAtChar_cons_self (sep : Char) (x : Text) : splitAtChar sep (sep :: x) = [] :: splitAtChar sep x := by
  rw [splitAtChar, if_pos (by simp)]

lemma splitAtChar_ne_nil (sep : Char) (x : Text) : splitAtChar sep x ≠ [] := by
  cases x with
  | nil => exact cons_ne_nil _ _
  | cons c x =>
    rw [splitAtChar]
    split
    · exact cons_ne_nil _ _
    · split <;> exact cons_ne_nil _ _

lemma splitAtChar_append (sep : Char) (x y : Text) :
    splitAtChar sep (x ++ sep :: y) = splitAtChar sep x ++ splitAtChar sep y := by
  induction x with
  | nil => rw [nil_append, splitAtChar_cons_self, splitAtChar.eq_1, singleton_append]
  | cons c x ih =>
    obtain ⟨piece, pieces, hx⟩ := exists_cons_of_ne_nil (splitAtChar_ne_nil sep x)
    rw [cons_append, splitAtChar, splitAtChar, ih, hx]
    split <;> rfl

lemma splitAtChar_of_notMem {sep : Char} {m : Text} (h : sep ∉ m) : splitAtChar sep m = [m] := by
  induction m with
  | nil => rfl
  | cons c m ih =>
    rw [mem_cons, not_or] at h
    rw [splitAtChar, if_neg (by simpa using Ne.symm h.1), ih h.2]

lemma mem_join {sep : Text} (h : c ∈ join sep l) : c ∈ sep ∨ ∃ t ∈ l, c ∈ t := by
  induction l with
  | nil => cases h
  | cons x l ih =>
    by_cases hl : l = []
    · rw [hl, join_singleton] at h
      exact .inr ⟨x, mem_cons_self, h⟩
    · rw [join_cons _ _ hl] at h
      rcases mem_append.mp h with h | h
      · exact .inr ⟨x, mem_cons_self, h⟩
      · rcases mem_append.mp h with h | h
        · exact .inl h
        · rcases ih h with h | ⟨t, ht, h⟩
          · exact .inl h
          · exact .inr ⟨t, mem_cons_of_mem x ht, h⟩

end CppScaffold.Text
