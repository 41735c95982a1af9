import CppScaffold.Proofs.Search
import Mathlib.Data.List.TakeWhile

/-!
# What the combinators accept

One equivalence for each combinator, with which a recogniser is opened once, where its accepted texts are described.
-/

namespace CppScaffold

open List

namespace Recognizer

open Text

variable {prev : Option Char} {t : Text} {n : Nat}

variable {r : Recognizer} {p : Char → Bool} {w : Text}

lemma andThen_eq_some_iff {s : Recognizer} : andThen r s prev t = some n ↔
    ∃ a b, r prev t = some a ∧ s (before prev t a) (t.drop a) = some b ∧ n = a + b := by
  rw [andThen]
  constructor
  · intro h
    cases hr : r prev t with
    | none => simp [hr] at h
    | some a =>
      simp only [hr, Option.map_eq_some_iff] at h
      obtain ⟨b, hb, rfl⟩ := h
      exact ⟨a, b, rfl, hb, rfl⟩
  · rintro ⟨a, b, hr, hs, rfl⟩
    simp [hr, hs]

/-- What is repeated accepts nothing or goes on. -/
lemma atMost_succ_eq_some {k : Nat} (h : atMost (k + 1) r prev t = some n) :
    n = 0 ∨ andThen r (atMost k r) prev t = some n := by
  simp only [atMost] at h
  split at h
  · exact .inl (Option.some.inj h).symm
  · exact .inl (Option.some.inj h).symm
  next ha => exact .inr (by rwa [andThen, ha])

lemma many_eq_some_iff : many p prev t = some n ↔ n = (t.takeWhile p).length := by
  rw [many, Option.some.injEq, eq_comm]

lemma some1_eq_some_iff : some1 p prev t = some n ↔ n = (t.takeWhile p).length ∧ n ≠ 0 := by
  grind [some1]

lemma ahead_eq_some_iff : ahead r prev t = some n ↔ (r prev t).isSome ∧ n = 0 := by
  grind [ahead]

lemma exactly_eq_some_iff : exactly w prev t = some n ↔ w <+: t ∧ n = w.length := by
  grind [exactly]

lemma char_eq_some_iff : char p prev t = some n ↔ ∃ c rest, t = c :: rest ∧ p c ∧ n = 1 := by
  cases t with
  | nil => simp [char]
  | cons c rest => grind [char]

lemma atEnd_eq_some_iff : atEnd prev t = some n ↔ t = [] ∧ n = 0 := by
  cases t <;> grind [atEnd]

lemma boundary_eq_some_iff : boundary prev t = some n ↔ isWord prev ≠ isWord t.head? ∧ n = 0 := by
  grind [boundary]

lemma identifierPart_eq_some_iff : identifierPart prev t = some n ↔
    ∃ c rest, t = c :: rest ∧ isIdentifierStart c ∧ n = 1 + (rest.takeWhile isWordChar).length := by
  cases t with
  | nil => simp [identifierPart]
  | cons c rest => grind [identifierPart]

lemma firstOf_cons_eq_some_iff {rs : List Recognizer} : firstOf (r :: rs) prev t = some n ↔
    r prev t = some n ∨ (r prev t = none ∧ firstOf rs prev t = some n) := by
  rw [firstOf]
  cases h : r prev t <;> simp [h]

/-! ## Where a sequence accepts -/

lemma before_before (prev : Option Char) (t : Text) (a b : Nat) :
    before (before prev t a) (t.drop a) b = before prev t (a + b) := by
  cases b with
  | zero => simp [before]
  | succ b => simp [before, ← Nat.add_assoc]

lemma andThen_assoc (r s u : Recognizer) : andThen (andThen r s) u = andThen r (andThen s u) := by
  funext prev t
  refine Option.ext fun n => ?_
  simp only [andThen_eq_some_iff]
  constructor
  · rintro ⟨_, c, ⟨a, b, hr, hs, rfl⟩, hu, rfl⟩
    rw [← before_before, ← drop_drop] at hu
    exact ⟨a, b + c, hr, ⟨b, c, hs, hu, rfl⟩, Nat.add_assoc ..⟩
  · rintro ⟨a, _, hr, ⟨b, c, hs, hu, rfl⟩, rfl⟩
    rw [before_before, drop_drop] at hu
    exact ⟨a + b, c, ⟨a, b, hr, hs, rfl⟩, hu, (Nat.add_assoc ..).symm⟩

variable {s : Recognizer}

lemma isSome_atLineStart_andThen : (andThen atLineStart s prev t).isSome ↔
    (prev = none ∨ prev = some '\n') ∧ (s prev t).isSome := by
  rw [andThen, atLineStart]
  cases prev with
  | none => simp [before]
  | some c => by_cases hc : c = '\n' <;> simp [before, hc]

lemma isSome_char_andThen : (andThen (char p) s prev t).isSome ↔
    ∃ c rest, t = c :: rest ∧ p c ∧ (s (some c) rest).isSome := by
  cases t with
  | nil => simp [andThen, char]
  | cons c rest => grind [andThen, char, before]

lemma isSome_exactly_andThen : (andThen (exactly w) s prev t).isSome ↔
    ∃ rest, t = w ++ rest ∧ (s (before prev t w.length) rest).isSome := by
  simp only [Option.isSome_iff_exists, andThen_eq_some_iff, exactly_eq_some_iff]
  constructor
  · rintro ⟨_, _, b, ⟨⟨rest, rfl⟩, rfl⟩, hs, rfl⟩
    rw [drop_left] at hs
    exact ⟨rest, rfl, b, hs⟩
  · rintro ⟨rest, rfl, b, hs⟩
    exact ⟨_, _, b, ⟨prefix_append .., rfl⟩, by rwa [drop_left], rfl⟩

lemma isSome_many_andThen : (andThen (many p) s prev t).isSome ↔ ∃ i rest, t = i ++ rest ∧ (∀ c ∈ i, p c) ∧
    (∀ c, rest.head? = some c → p c = false) ∧ (s (before prev t i.length) rest).isSome := by
  simp only [Option.isSome_iff_exists, andThen_eq_some_iff, many_eq_some_iff]
  constructor
  · rintro ⟨_, _, b, rfl, hs, rfl⟩
    rw [drop_length_takeWhile] at hs
    refine ⟨_, _, takeWhile_append_dropWhile.symm, fun c hc => mem_takeWhile_imp hc, fun c hc => ?_, b, hs⟩
    have := head?_dropWhile_not p t
    rw [hc] at this
    simpa using this
  · rintro ⟨i, rest, rfl, hi, hrest, b, hs⟩
    have htake : (i ++ rest).takeWhile p = i := by
      cases rest with
      | nil => simpa using hi
      | cons c rest => exact takeWhile_append_cons hi (hrest c rfl) rest
    exact ⟨_, _, b, rfl, by rwa [htake, drop_left], rfl⟩

lemma isSome_some1_andThen : (andThen (some1 p) s prev t).isSome ↔
    (∃ c, t.head? = some c ∧ p c) ∧ (andThen (many p) s prev t).isSome := by
  cases t with
  | nil => simp [andThen, some1]
  | cons c rest =>
    cases hc : p c with
    | false => simp [andThen, some1, hc]
    | true => simp [andThen, some1, many, hc]

lemma isSome_boundary_of_word {rest : Text} (hw : ∀ c ∈ w, isWordChar c) (hne : w ≠ []) :
    (boundary (before prev (w ++ rest) w.length) rest).isSome ↔ isWord rest.head? = false := by
  obtain ⟨v, c, rfl⟩ := eq_nil_or_concat' w |>.resolve_left hne
  have hprev : before prev (v ++ [c] ++ rest) (v ++ [c]).length = some c := by simp [before]
  have hc : isWord (some c) := hw c (by simp)
  rw [hprev, boundary, hc]
  cases isWord rest.head? <;> simp

end Recognizer

end CppScaffold
