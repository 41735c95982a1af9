import CppScaffold.Proofs.NestedBrackets
import CppScaffold.Proofs.ParameterPieces

/-!
# Apostrophes in numbers

An apostrophe between digits opens no literal, but two of them on one line are read as one
(`nonSource_keeps_numbers_iff`).
-/

namespace CppScaffold

open Text List Mask

namespace Lexeme

variable {q c : Char} {t : Text}

/-- A quote without partner has a line break before each further one. -/
lemma quotedLength_eq_none_iff (hback : '\\' ∉ t) :
    quotedLength q t = none ↔ ∀ j : Nat, t[j]? = some q → (t.take j).any isBreak := by
  induction t with
  | nil => simp [quotedLength]
  | cons c t ih =>
    obtain ⟨hc, ht⟩ := not_or.mp (mt mem_cons.mpr hback)
    rw [quotedLength_cons (Ne.symm hc)]
    by_cases heq : c = q
    · rw [if_pos heq]
      simp only [reduceCtorEq, false_iff, not_forall]
      exact ⟨0, by simp [heq], by simp⟩
    · -- the first character is no quote, so that the places behind it are the ones that count
      have hplaces : (∀ j : Nat, (c :: t)[j]? = some q → ((c :: t).take j).any isBreak) ↔
          ∀ j : Nat, t[j]? = some q → isBreak c ∨ (t.take j).any isBreak := by
        constructor
        · intro h j hj
          simpa using h (j + 1) hj
        · intro h j hj
          cases j with
          | zero => exact absurd (Option.some.inj hj) heq
          | succ j => simpa using h j hj
      rw [if_neg heq, hplaces]
      by_cases hbreak : isBreak c
      · simp [hbreak]
      · simp [hbreak, ih ht]

lemma flatMap_written_plain (x : Text) : (x.map plain).flatMap written = x := by
  rw [flatMap_map]
  exact flatMap_singleton' x

/-- A text has no comments and literals exactly if none begins at any of its places. -/
lemma scan_eq_plain_iff : scan t = t.map .plain ↔ ∀ (i : Nat) c, t[i]? = some c → tokenAt c (t.drop (i + 1)) = none := by
  constructor
  · intro h i c hc
    obtain ⟨hi, rfl⟩ := List.getElem?_eq_some_iff.mp hc
    have hsplit : scan t = (t.take i).map .plain ++ .plain t[i] :: (t.drop (i + 1)).map .plain := by
      rw [h, ← map_cons, ← map_append, ← drop_eq_getElem_cons hi, take_append_drop]
    simpa only [flatMap_written_plain] using (tokenAt_of_scan hsplit).1
  · intro h
    induction t with
    | nil => rfl
    | cons c t ih => rw [scan_plain (by exact h 0 c rfl), ih fun i d hd => h (i + 1) d hd, map_cons]

end Lexeme

/-- The apostrophes of a text stand between letters and digits, and it has no comments, strings, backslashes and
attributes. -/
structure HasNumbersOnly (t : Text) : Prop where
  noComment : ∀ i < t.length, t[i]? = some '/' → Lexeme.tokenAt '/' (t.drop (i + 1)) = none
  noString : '"' ∉ t
  noBackslash : '\\' ∉ t
  noAttribute : ∀ i < t.length, attributeGroup none (t.drop i) = none
  divides : ∀ i < t.length, t[i]? = some '\'' → (t[i - 1]?).any Char.isAlphanum ∧ (t[i + 1]?).any Char.isAlphanum

lemma Mask.MaskedForm.antisymm {t m : Text} (h : MaskedForm t m) (h' : MaskedForm m t) : t = m := by
  rw [maskedForm_iff_forall₂] at h h'
  induction h with
  | nil => rfl
  | cons hc _ ih =>
    obtain ⟨hc', htail⟩ := forall₂_cons.mp h'
    rw [ih htail]
    rcases hc with rfl | ⟨rfl, -⟩
    · rfl
    · rcases hc' with rfl | ⟨rfl, -⟩ <;> rfl

/-- Between two apostrophes stands a line break. -/
def ApostrophesApart (t : Text) : Prop :=
  ∀ j < t.length, ∀ i < j, t[i]? = some '\'' → t[j]? = some '\'' → (between t (i + 1) j).any isBreak

namespace HasNumbersOnly

open Lexeme

variable {t : Text} {keep : Bool}

lemma scan_eq_iff (h : HasNumbersOnly t) : scan t = t.map .plain ↔ ApostrophesApart t := by
  have hquote : ∀ i : Nat, quotedLength '\'' (t.drop (i + 1)) = none ↔
      ∀ j, i < j → t[j]? = some '\'' → (between t (i + 1) j).any isBreak := by
    intro i
    rw [quotedLength_eq_none_iff (fun hmem => h.noBackslash (mem_of_mem_drop hmem))]
    constructor
    · intro hnone j hj hquote
      refine hnone (j - (i + 1)) ?_
      rwa [getElem?_drop, Nat.add_sub_cancel' hj]
    · intro hnone j hj
      rw [getElem?_drop] at hj
      simpa [between] using hnone (i + 1 + j) (by omega) hj
  rw [scan_eq_plain_iff]
  constructor
  · intro hplain j _ i hij hi hj
    refine (hquote i).mp ?_ j hij hj
    simpa [tokenAt] using hplain i _ hi
  · intro hlines i c hc
    obtain ⟨hi, -⟩ := List.getElem?_eq_some_iff.mp hc
    rw [Option.eq_none_iff_forall_ne_some]
    rintro ⟨kind, n⟩ htoken
    have hstring : '"' ∉ t.drop (i + 1) := fun hmem => h.noString (mem_of_mem_drop hmem)
    generalize hrest : t.drop (i + 1) = rest at *
    cases tokenAt_eq_some_iff.mp htoken with
    | line | block => exact absurd htoken (by rw [← hrest, h.noComment i hi hc]; simp)
    | raw => exact hstring mem_cons_self
    | string => exact h.noString (mem_of_getElem? hc)
    | char hn => exact absurd hn (by rw [← hrest, (hquote i).mpr fun j hij hj => hlines j (List.getElem?_eq_some_iff.mp hj).1 i hij hc hj]; simp)

/-- A text that masking leaves alone has no literals, which would hide what stands behind their first apostrophe. -/
lemma scan_of_replaceTokens (h : HasNumbersOnly t) (hmask : replaceTokens chooseAll all t = t) : scan t = t.map .plain := by
  have hsuffix : ∀ u x, x ++ u = t → (scan u).flatMap shown = u → scan u = u.map .plain := by
    intro u
    induction u using scan_induction with
    | nil => exact fun _ _ _ => rfl
    | plain c rest hnone ih =>
      intro x hx hshown
      rw [scan_plain hnone] at hshown ⊢
      rw [ih (x ++ [c]) (by rw [append_assoc]; exact hx) (cons_eq_cons.mp hshown).2, map_cons]
    | token c rest kind n htoken ih =>
      intro x hx hshown
      rw [scan_token htoken] at hshown
      have hmem : ∀ d ∈ c :: rest, d ∈ t := fun d hd => hx ▸ mem_append_right x hd
      cases tokenAt_eq_some_iff.mp htoken with
      | line => cases hshown
      | block => cases hshown
      | raw | string => exact absurd (hmem '"' (by simp)) h.noString
      | char hn =>
        have hdigit := (h.divides x.length (by simp [← hx]) (by simp [← hx])).2
        rw [← hx, getElem?_append_right (Nat.le_succ _), Nat.succ_sub (Nat.le_refl _), Nat.sub_self]
          at hdigit
        cases rest with
        | nil => cases hdigit
        | cons e rest =>
          have he : e.isAlphanum := hdigit
          have hne : e ≠ '\'' ∧ isBreak e = false ∧ e ≠ ' ' := by
            have hnot : ∀ d, d.isAlphanum = false → e ≠ d := fun d hd heq => by simp [heq, hd] at he
            exact ⟨hnot _ rfl, by simp [isBreak, hnot '\r' rfl, hnot '\n' rfl], hnot _ rfl⟩
          rw [quotedLength_cons (fun hback => h.noBackslash (hmem '\\' (by simp [hback]))), if_neg hne.1, hne.2.1] at hn
          obtain ⟨k, hk, rfl⟩ := Option.map_eq_some_iff.mp hn
          obtain ⟨k, rfl⟩ := Nat.exists_eq_succ_of_ne_zero (Nat.ne_of_gt (quotedLength_bounds (by decide) hk).1)
          cases rest with
          | nil => cases hk
          | cons f rest =>
            have hsecond : maskChar e = e := (cons_eq_cons.mp (cons_eq_cons.mp hshown).2).1
            rw [maskChar, hne.2.1] at hsecond
            exact absurd hsecond.symm hne.2.2
  exact hsuffix t [] rfl hmask

lemma nonSource_eq_iff (h : HasNumbersOnly t) : nonSource t keep = t ↔ scan t = t.map .plain := by
  constructor
  · intro hmask
    have hform := maskedForm_replaceTokens chooseAll t
    have hback := maskedForm_attributes (replaceTokens chooseAll all t) keep
    rw [← nonSource, hmask] at hback
    exact h.scan_of_replaceTokens (hform.antisymm hback).symm
  · intro hplain
    have htokens : replaceTokens chooseAll all t = t := by
      rw [replaceTokens_eq, hplain, flatMap_map]
      exact flatMap_singleton' t
    rw [nonSource, htokens]
    refine replaceAllFrom_eq_self (fun prev u n hu hsome => ?_) none
    obtain ⟨rest, i, rfl, hi⟩ := attributeGroup_eq_some_iff.mp hsome
    obtain ⟨x, rfl⟩ := hu
    have hnone := h.noAttribute x.length (by simp)
    rw [drop_left] at hnone
    rw [attributeGroup_eq_some_iff.mpr ⟨rest, i, rfl, hi⟩] at hnone
    cases hnone

end HasNumbersOnly

open ParameterList in
/-- **Masking leaves numbers alone exactly if no line has two of their apostrophes.** Such a parameter list is cut at
all its commas outside of brackets. -/
theorem Mask.nonSource_keeps_numbers_iff {t : Text} (h : HasNumbersOnly t) (keep : Bool) :
    (nonSource t keep = t ↔ ApostrophesApart t) ∧ (ApostrophesApart t → ∃ spans,
      (parse t).parameters.map (·.raw) = spans.map (extract t) ∧
        Places (nestedGroups t) 0 (nestedGroups t).length spans) := by
  refine ⟨h.nonSource_eq_iff.trans h.scan_eq_iff, fun hlines => ?_⟩
  obtain ⟨named, dots, hparameters, hplaces, hdots⟩ := exists_places_parseIn { uri := "untitled:parameters", text := t } 0 t
  have hmask : nonSource t false = t := h.nonSource_eq_iff.mpr (h.scan_eq_iff.mpr hlines)
  rw [hmask] at hparameters hplaces hdots
  refine ⟨named ++ dots, ?_, hplaces⟩
  rw [parse, hparameters, map_append, map_append, map_map, map_map]
  refine congrArg₂ _ (map_congr_left fun s _ => Parameter.raw_ofPiece ..) (map_congr_left fun s hs => ?_)
  have hform := (maskedForm_nestedGroups t).extract s
  rw [hdots s hs] at hform
  exact (hform.prefix_of_visible prefix_rfl (by decide)).eq_of_length hform.length_eq

/-- Two parameters whose default values have an apostrophe each. -/
def twoNumbers (gap : Char) : Text := "int a = 1'000," ++ gap :: "int b = 2'000"

theorem Mask.nonSource_keeps_numbers_on_two_lines : HasNumbersOnly (twoNumbers '\n') ∧
    nonSource (twoNumbers '\n') true = twoNumbers '\n' := by
  have h : HasNumbersOnly (twoNumbers '\n') :=
    ⟨by decide +kernel, by decide +kernel, by decide +kernel, by decide +kernel, by decide +kernel⟩
  have hlines : ApostrophesApart (twoNumbers '\n') := by
    unfold ApostrophesApart
    decide +kernel
  exact ⟨h, (nonSource_keeps_numbers_iff h true).1.mpr hlines⟩

/-- On one line what stands between the apostrophes is masked, here the comma that divides the parameters. -/
theorem Mask.nonSource_hides_comma : HasNumbersOnly (twoNumbers ' ') ∧ nonSource (twoNumbers ' ') true ≠ twoNumbers ' ' ∧
    (nestedGroups (twoNumbers ' '))[13]? = some ',' ∧ (ParameterList.parse (twoNumbers ' ')).parameters.length = 1 := by
  refine ⟨⟨?_, ?_, ?_, ?_, ?_⟩, ?_, ?_, ?_⟩ <;> decide +kernel

end CppScaffold
