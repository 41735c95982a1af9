import CppScaffold.Entity.Template
import CppScaffold.Proofs.Declarators

/-!
# Names of template parameters

A template parameter is named if its text ends with an identifier behind another word or ellipsis
(`parameterName?_eq_some_iff`).
-/

namespace CppScaffold.Entity

open Text List

/-- Blanks, or an ellipsis with blanks around it. -/
def IsPackGap (gap : Text) : Prop :=
  (∀ c ∈ gap, isBlank c) ∨ ∃ l r, gap = l ++ ("..." ++ r) ∧ (∀ c ∈ l, isBlank c) ∧ ∀ c ∈ r, isBlank c

/-- The text ends with a word that is no number, apart from blanks and an ellipsis behind it. -/
def EndsWithWord (t : Text) : Prop :=
  ∃ front word gap, t = front ++ (word ++ gap) ∧ (∀ c ∈ word, isWordChar c) ∧ (∃ c ∈ word, isIdentifierStart c) ∧
    IsPackGap gap

structure EndsWithName (t head name : Text) : Prop where
  split : ∃ r, t = head ++ (name ++ r) ∧ ∀ c ∈ r, isBlank c
  identifier : ∃ c rest, name = c :: rest ∧ isIdentifierStart c
  word : ∀ c ∈ name, isWordChar c
  apart : ∀ c, head.getLast? = some c → isWordChar c = false
  behind : EndsWithWord head

def endsWithDots (t : Text) : Bool := "...".toList.isSuffixOf (trimEnd t)

def lastWord (t : Text) : Text := (t.reverse.takeWhile isWordChar).reverse

def beforeLastWord (t : Text) : Text := t.take (t.length - (lastWord t).length)

/-- The text before blanks and an ellipsis at its end. -/
def beforeGap (t : Text) : Text :=
  if endsWithDots t then trimEnd ((trimEnd t).take ((trimEnd t).length - 3)) else trimEnd t

lemma parameterName?_eq (t : Text) : parameterName? t =
    if (lastWord (trimEnd t)).head?.any isIdentifierStart &&
        (lastWord (beforeGap (beforeLastWord (trimEnd t)))).any isIdentifierStart then
      some (if endsWithDots (beforeLastWord (trimEnd t)) then lastWord (trimEnd t) ++ "..." else lastWord (trimEnd t))
    else none := rfl

section LastWord

variable {x w : Text}

lemma lastWord_append (hw : ∀ c ∈ w, isWordChar c) (x : Text) : lastWord (x ++ w) = lastWord x ++ w := by
  rw [lastWord, reverse_append, takeWhile_append_of_pos (fun c hc => hw c (mem_reverse.mp hc)),
    reverse_append, reverse_reverse, lastWord]

lemma lastWord_eq_nil (hx : ∀ c, x.getLast? = some c → isWordChar c = false) : lastWord x = [] := by
  rw [lastWord]
  cases hrev : x.reverse with
  | nil => rfl
  | cons c r =>
    have hc : x.getLast? = some c := by rw [← head?_reverse, hrev, head?_cons]
    rw [takeWhile_cons_of_neg (by simp [hx c hc]), reverse_nil]

lemma isWordChar_of_mem_lastWord {c : Char} (h : c ∈ lastWord x) : isWordChar c :=
  mem_takeWhile_imp (mem_reverse.mp h)

lemma exists_eq_append_lastWord (x : Text) :
    ∃ y, x = y ++ lastWord x ∧ beforeLastWord x = y ∧ ∀ c, y.getLast? = some c → isWordChar c = false := by
  have hsplit : x = (x.reverse.dropWhile isWordChar).reverse ++ lastWord x := by
    rw [lastWord, ← reverse_append, takeWhile_append_dropWhile, reverse_reverse]
  refine ⟨_, hsplit, ?_, fun c hc => ?_⟩
  · have hlength := congrArg length hsplit
    rw [length_append] at hlength
    rw [beforeLastWord]
    have htake : ((x.reverse.dropWhile isWordChar).reverse ++ lastWord x).take (x.reverse.dropWhile isWordChar).reverse.length =
        (x.reverse.dropWhile isWordChar).reverse := take_left
    rw [← hsplit] at htake
    rw [hlength, Nat.add_sub_cancel, htake]
  · rw [getLast?_reverse] at hc
    have hhead := head?_dropWhile_not isWordChar x.reverse
    rw [hc] at hhead
    simpa using hhead

lemma trimEnd_append_word (hw : ∀ c ∈ w, isWordChar c) (hne : w ≠ []) {r : Text} (hr : ∀ c ∈ r, isBlank c) (x : Text) :
    trimEnd (x ++ (w ++ r)) = x ++ w := by
  rw [← append_assoc, trimEnd, dropEndWhile_append hr]
  refine dropEndWhile_eq_self fun c hc => ?_
  rw [getLast?_append_of_ne_nil _ hne] at hc
  exact isBlank_of_isWordChar (hw c (mem_of_getLast? hc))

end LastWord

variable {t : Text}

lemma endsWithDots_eq_true_iff : endsWithDots t ↔ ∃ x, trimEnd t = x ++ "..." := by
  rw [endsWithDots, isSuffixOf_iff_suffix]
  exact ⟨fun ⟨x, hx⟩ => ⟨x, hx.symm⟩, fun ⟨x, hx⟩ => ⟨x, hx.symm⟩⟩

lemma beforeGap_of_dots {x : Text} (h : trimEnd t = x ++ "...") : beforeGap t = trimEnd x := by
  have hlength : (x ++ "...").length - 3 = x.length := by
    rw [length_append]
    exact Nat.add_sub_cancel ..
  rw [beforeGap, endsWithDots_eq_true_iff.mpr ⟨x, h⟩, if_pos rfl, h, hlength, take_left]

lemma beforeGap_append_word {x w gap : Text} (hw : ∀ c ∈ w, isWordChar c) (hne : w ≠ []) (hgap : IsPackGap gap) :
    beforeGap (x ++ (w ++ gap)) = x ++ w := by
  rcases hgap with hblank | ⟨l, r, rfl, hl, hr⟩
  · have htrim := trimEnd_append_word hw hne hblank x
    have hdots : endsWithDots (x ++ (w ++ gap)) = false := by
      rw [Bool.eq_false_iff]
      intro hdots
      obtain ⟨y, hy⟩ := endsWithDots_eq_true_iff.mp hdots
      have hlast := congrArg getLast? (htrim.symm.trans hy)
      rw [getLast?_append_of_ne_nil _ hne, getLast?_append_of_ne_nil _ (by decide)] at hlast
      exact absurd (hw '.' (mem_of_getLast? hlast)) (by decide)
    rw [beforeGap, hdots, htrim]
    rfl
  · have htrim : trimEnd (x ++ (w ++ (l ++ ("..." ++ r)))) = x ++ (w ++ l) ++ "..." := by
      have hsplit : x ++ (w ++ (l ++ ("..." ++ r))) = x ++ (w ++ l) ++ "..." ++ r := by simp
      rw [hsplit, trimEnd, dropEndWhile_append hr]
      refine dropEndWhile_eq_self fun c hc => ?_
      rw [getLast?_append_of_ne_nil _ (by decide)] at hc
      obtain rfl := Option.some.inj hc
      decide
    rw [beforeGap_of_dots htrim, trimEnd_append_word hw hne hl]

lemma exists_eq_beforeGap_append (t : Text) : ∃ gap, t = beforeGap t ++ gap ∧ IsPackGap gap := by
  obtain ⟨r, ht, hr⟩ := exists_eq_dropEndWhile_append isBlank t
  by_cases hdots : endsWithDots t
  · obtain ⟨x, hx⟩ := endsWithDots_eq_true_iff.mp hdots
    obtain ⟨l, hxl, hl⟩ := exists_eq_dropEndWhile_append isBlank x
    refine ⟨l ++ ("..." ++ r), ?_, .inr ⟨l, r, rfl, hl, hr⟩⟩
    rwa [beforeGap_of_dots hx, ← append_assoc, trimEnd, ← hxl, ← append_assoc, ← hx]
  · refine ⟨r, ?_, .inl hr⟩
    rwa [beforeGap, if_neg hdots]

lemma endsWithWord_iff : EndsWithWord t ↔ (lastWord (beforeGap t)).any isIdentifierStart := by
  rw [any_eq_true]
  constructor
  · rintro ⟨front, word, gap, rfl, hword, ⟨c, hc, hstart⟩, hgap⟩
    rw [beforeGap_append_word hword (ne_nil_of_mem hc) hgap, lastWord_append hword]
    exact ⟨c, mem_append_right _ hc, hstart⟩
  · rintro ⟨c, hc, hstart⟩
    obtain ⟨gap, ht, hgap⟩ := exists_eq_beforeGap_append t
    obtain ⟨front, hfront, -⟩ := exists_eq_append_lastWord (beforeGap t)
    refine ⟨front, lastWord (beforeGap t), gap, ?_, fun d hd => isWordChar_of_mem_lastWord hd, ⟨c, hc, hstart⟩, hgap⟩
    rwa [← append_assoc, ← hfront]

instance (t : Text) : Decidable (EndsWithWord t) := decidable_of_iff' _ endsWithWord_iff

/-- **The name of a parameter** is the identifier at its end, if another word stands before it. -/
theorem parameterName?_eq_some_iff {a : Text} : parameterName? t = some a ↔
    ∃ head name, EndsWithName t head name ∧ a = if endsWithDots head then name ++ "..." else name := by
  rw [parameterName?_eq]
  constructor
  · intro h
    obtain ⟨hcond, ha⟩ := Option.ite_none_right_eq_some.mp h
    rw [Bool.and_eq_true] at hcond
    obtain ⟨r, ht, hr⟩ := exists_eq_dropEndWhile_append isBlank t
    obtain ⟨head, hsplit, hhead, hapart⟩ := exists_eq_append_lastWord (trimEnd t)
    rw [hhead] at hcond ha
    refine ⟨head, lastWord (trimEnd t), ⟨⟨r, ?_, hr⟩, ?_, fun c hc => isWordChar_of_mem_lastWord hc, hapart,
      endsWithWord_iff.mpr hcond.2⟩, (Option.some.inj ha).symm⟩
    · rwa [← append_assoc, ← hsplit]
    · obtain ⟨c, hc, hstart⟩ := (Option.any_eq_true ..).mp hcond.1
      obtain ⟨rest, hrest⟩ := head?_eq_some_iff.mp hc
      exact ⟨c, rest, hrest, hstart⟩
  · rintro ⟨head, name, ⟨⟨r, rfl, hr⟩, ⟨c, rest, hname, hstart⟩, hword, hapart, hbehind⟩, rfl⟩
    have htrim := trimEnd_append_word hword (by rw [hname]; simp) hr head
    rw [htrim, lastWord_append hword, lastWord_eq_nil hapart, nil_append, beforeLastWord, lastWord_append hword, lastWord_eq_nil hapart, nil_append, length_append,
    Nat.add_sub_cancel, take_left,
      endsWithWord_iff.mp hbehind, hname]
    simp [hstart]

lemma parameterName?_eq_none_iff : parameterName? t = none ↔ ∀ head name, ¬ EndsWithName t head name := by
  rw [Option.eq_none_iff_forall_ne_some]
  constructor
  · intro h head name hends
    exact h _ (parameterName?_eq_some_iff.mpr ⟨head, name, hends, rfl⟩)
  · intro h a ha
    obtain ⟨head, name, hends, -⟩ := parameterName?_eq_some_iff.mp ha
    exact h head name hends

end CppScaffold.Entity
