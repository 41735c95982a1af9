import CppScaffold.Lexical.Spacing
import CppScaffold.Proofs.Lexemes

/-!
# Blanks in normal forms

A blank before a character that is no part of a word can be put in or left out (`normalizeSource_blank`), as long as
the text around it is read as before.
-/

namespace CppScaffold

open Text List Lexeme Mask

namespace Lexeme

/-- What stays of a lexeme when comments are taken out. -/
def uncommented : Lexeme → Text
  | .plain c => [c]
  | .token .lineComment _ | .token .blockComment _ => []
  | .token _ w => w

lemma removeComments_eq (t : Text) : removeComments t = (scan t).flatMap uncommented := by
  rw [removeComments, replaceTokens]
  congr 1
  funext l
  rcases l with c | ⟨kind, w⟩
  · rfl
  · cases kind <;> simp [chooseComments, replaceInside, uncommented]

end Lexeme

namespace Mask

variable {t y : Text}

/-- What is blank when comments and literals are masked is blank when comments are taken out. -/
lemma removeComments_blank (h : ∀ c ∈ replaceTokens chooseAll all t, isBlank c) :
    ∀ c ∈ removeComments t, isBlank c := by
  intro c hc
  rw [removeComments_eq, mem_flatMap] at hc
  obtain ⟨l, hl, hc⟩ := hc
  have hshown : ∀ d ∈ shown l, isBlank d := fun d hd => h d (mem_flatMap.mpr ⟨l, hl, hd⟩)
  rcases l with d | ⟨kind, w⟩
  · exact hshown c hc
  · -- a literal shows how it begins
    obtain ⟨d, rest, n, hread, _, rfl⟩ := tokenRead_of_mem hl
    cases hread with
    | line => simp [uncommented] at hc
    | block => simp [uncommented] at hc
    | raw => exact absurd (hshown 'R' (by simp [shown, chooseAll, replaceInside, enclosing])) (by decide)
    | string => exact absurd (hshown '"' (by simp [shown, chooseAll, replaceInside, enclosing])) (by decide)
    | char => exact absurd (hshown '\'' (by simp [shown, chooseAll, replaceInside, enclosing])) (by decide)

/-! ## Attributes -/

lemma find?_blank {d : Char} (hd : d ≠ ' ') (hy : y.head? ≠ some d) (x : Text) :
    find? [d, d] (x ++ ' ' :: y) = (find? [d, d] (x ++ y)).map fun i => if i < x.length then i else i + 1 := by
  induction x with
  | nil =>
    rw [nil_append, Text.find?_cons, if_neg (by simp [hd])]
    simp
  | cons c x ih =>
    have hprefix : [d, d].isPrefixOf (c :: (x ++ ' ' :: y)) = [d, d].isPrefixOf (c :: (x ++ y)) := by
      cases x with
      | nil =>
        cases y with
        | nil => simp [List.isPrefixOf, hd]
        | cons e y =>
          have hne : (d == e) = false := beq_eq_false_iff_ne.mpr fun h => hy (by rw [h]; rfl)
          simp [List.isPrefixOf, beq_eq_false_iff_ne.mpr hd, hne]
      | cons e x => simp [List.isPrefixOf]
    rw [cons_append, cons_append, Text.find?_cons, Text.find?_cons, hprefix, ih]
    split
    · simp
    · cases find? [d, d] (x ++ y) with
      | none => rfl
      | some i =>
        simp only [Option.map_some, length_cons, Nat.add_lt_add_iff_right]
        split <;> rfl

lemma attributeGroup_blank (hy : ∀ c, y.head? = some c → c ≠ '[' ∧ c ≠ ']') {x : Text} (hx : x ≠ []) : attributeGroup
    none (x ++ ' ' :: y) = (attributeGroup none (x ++ y)).map fun n => if n ≤ x.length then n else n + 1 := by
  match x, hx with
  | [c], _ =>
    have hnone : ∀ y : Text, (∀ c, y.head? = some c → c ≠ '[' ∧ c ≠ ']') → attributeGroup none ([c] ++ y) = none := by
      intro y hy
      rw [Option.eq_none_iff_forall_ne_some]
      intro n hn
      obtain ⟨rest, i, heq, _⟩ := attributeGroup_eq_some_iff.mp hn
      obtain ⟨rfl, rfl⟩ := cons_eq_cons.mp heq
      exact (hy '[' rfl).1 rfl
    rw [hnone _ hy, hnone _ (by rintro c ⟨⟩; decide)]
    rfl
  | c :: e :: x, _ =>
    by_cases hopen : c = '[' ∧ e = '['
    · obtain ⟨rfl, rfl⟩ := hopen
      have hclose : y.head? ≠ some ']' := fun h => (hy ']' h).2 rfl
      have hfind := find?_blank (d := ']') (by decide) hclose x
      simp only [cons_append, attributeGroup, hfind]
      cases hi : find? [']', ']'] (x ++ y) with
      | none => rfl
      | some i =>
        simp only [Option.map_some]
        by_cases hlt : i < x.length
        · -- both brackets stand before the blank
          have hle : i + 2 ≤ x.length := by
            by_contra hgt
            obtain ⟨z, hz⟩ := (find?_eq_some_iff.mp hi).1
            rw [drop_append_of_le_length hlt.le] at hz
            obtain ⟨d, hd⟩ := length_eq_one_iff.mp (show (x.drop i).length = 1 by rw [length_drop]; omega)
            obtain ⟨_, rfl⟩ : ']' = d ∧ ']' :: z = y := by simpa [hd] using hz
            exact hclose rfl
          rw [if_pos hlt, take_append_of_le_length hlt.le, take_append_of_le_length hlt.le]
          split
          · rfl
          · simp only [Option.map_some, length_cons]
            rw [if_pos (by omega)]
        · have htake : ((x ++ ' ' :: y).take (i + 1)).any isBreak = ((x ++ y).take i).any isBreak := by
            rw [take_append, take_append, take_of_length_le (by omega),
              take_of_length_le (show x.length ≤ i by omega), Nat.sub_add_comm (by omega), take_succ_cons,
              any_append, any_append, any_cons]
            rfl
          rw [if_neg hlt, htake]
          split
          · rfl
          · simp only [Option.map_some, length_cons]
            rw [if_neg (by omega)]
    · have hnone : ∀ z, attributeGroup none (c :: e :: z) = none := by
        intro z
        rw [Option.eq_none_iff_forall_ne_some]
        intro n hn
        obtain ⟨rest, i, heq, _⟩ := attributeGroup_eq_some_iff.mp hn
        obtain ⟨rfl, rfl, _⟩ := by simpa using heq
        exact hopen ⟨rfl, rfl⟩
      rw [cons_append, cons_append, cons_append, cons_append, hnone, hnone]
      rfl

lemma removeAttributes_accepted {n : Nat} (h : attributeGroup none t = some n) :
    removeAttributes t = removeAttributes (t.drop n) := by
  obtain ⟨rest, i, rfl, _, _, rfl⟩ := attributeGroup_eq_some_iff.mp h
  exact replaceAll_accepted (f := fun _ => []) local_attributeGroup.prev_irrelevant h

lemma removeAttributes_passed {c : Char} (h : attributeGroup none (c :: t) = none) :
    removeAttributes (c :: t) = c :: removeAttributes t :=
  replaceAll_passed (f := fun _ => []) local_attributeGroup.prev_irrelevant h

lemma removeAttributes_cons {c : Char} (hc : c ≠ '[') (t : Text) : removeAttributes (c :: t) = c :: removeAttributes t := by
  refine removeAttributes_passed (Option.eq_none_iff_forall_ne_some.mpr fun n hn => ?_)
  obtain ⟨rest, i, heq, _⟩ := attributeGroup_eq_some_iff.mp hn
  exact hc (cons_eq_cons.mp heq).1

/-- Attributes are taken out as before if a blank is put in, and the blank stays or goes with one of them. -/
lemma removeAttributes_blank (hy : ∀ c, y.head? = some c → c ≠ '[' ∧ c ≠ ']') (x : Text) : removeAttributes (x ++ ' '
    :: y) = removeAttributes (x ++ y) ∨ ∃ a, removeAttributes (x ++ y) = a ++ removeAttributes y ∧ removeAttributes (x
    ++ ' ' :: y) = a ++ ' ' :: removeAttributes y := by
  induction hn : x.length using Nat.strong_induction_on generalizing x with
  | _ n ih =>
    subst hn
    cases x with
    | nil => exact .inr ⟨[], rfl, removeAttributes_cons (by decide) y⟩
    | cons c x =>
      have hblank := attributeGroup_blank hy (cons_ne_nil c x)
      cases hgroup : attributeGroup none (c :: x ++ y) with
      | none =>
        rw [hgroup] at hblank
        rw [cons_append] at hgroup hblank ⊢
        rw [cons_append, removeAttributes_passed hgroup, removeAttributes_passed hblank]
        rcases ih x.length (by simp) x rfl with h | ⟨a, h, h'⟩
        · exact .inl (by rw [h])
        · exact .inr ⟨c :: a, by rw [h, cons_append], by rw [h', cons_append]⟩
      | some n =>
        rw [hgroup, Option.map_some] at hblank
        rw [removeAttributes_accepted hgroup, removeAttributes_accepted hblank]
        split
        next hle =>
          obtain ⟨_, i, _, _, _, rfl⟩ := attributeGroup_eq_some_iff.mp hgroup
          rw [drop_append_of_le_length hle, drop_append_of_le_length hle]
          exact ih _ (by rw [length_drop]; omega) _ rfl
        next hgt =>
          refine .inl ?_
          have hlt := Nat.not_le.mp hgt
          rw [drop_append, drop_append, drop_of_length_le hlt.le,
            drop_of_length_le (show (c :: x).length ≤ n + 1 by omega), Nat.sub_add_comm hlt.le, drop_succ_cons]

end Mask

namespace Spacing

/-! ## Normal forms -/

variable {g : Text} {c : Char}

lemma normalizeFrom_gap (hg : ∀ d ∈ g, isBlank d) (hc : isBlank c = false)
    (hword : isWordChar c = false) (prev : Option Char) (gap : Bool) (t : Text) :
    normalizeFrom prev gap (g ++ c :: t) = c :: normalizeFrom (some c) false t := by
  induction g generalizing gap with
  | nil => simp [normalizeFrom, hc, hword]
  | cons d g ih =>
    rw [cons_append, normalizeFrom, if_pos (hg d (mem_cons_self ..))]
    exact ih (fun e he => hg e (mem_cons_of_mem _ he)) true

lemma normalizeFrom_blank (hg : ∀ d ∈ g, isBlank d) (hc : isBlank c = false)
    (hword : isWordChar c = false) (t : Text) (prev : Option Char) (gap : Bool) (a : Text) :
    normalizeFrom prev gap (a ++ ' ' :: (g ++ c :: t)) = normalizeFrom prev gap (a ++ (g ++ c :: t)) := by
  induction a generalizing prev gap with
  | nil =>
    have hg' : ∀ d ∈ ' ' :: g, isBlank d := by
      intro d hd
      rcases mem_cons.mp hd with rfl | hd
      · decide
      · exact hg d hd
    exact (normalizeFrom_gap hg' hc hword prev gap t).trans (normalizeFrom_gap hg hc hword prev gap t).symm
  | cons d a ih => simp [normalizeFrom, ih]

/-- A blank before a character that is no part of a word does not show in the normal form, if the texts around it are
read one after the other. -/
lemma normalizeSource_blank {x y t : Text} (hwithout : scan (x ++ y) = scan x ++ scan y) (hwith : scan (x ++ ' ' :: y)
    = scan x ++ .plain ' ' :: scan y) (hy : removeComments y = g ++ c :: t) (hg : ∀ d ∈ g, isBlank d) (hc : isBlank c =
    false) (hword : isWordChar c = false) (hbracket : c ≠ '[' ∧ c ≠ ']') : normalizeSource (x ++ ' ' :: y) =
    normalizeSource (x ++ y) := by
  have hnot : ∀ d ∈ g, d ≠ '[' ∧ d ≠ ']' := by
    intro d hd
    constructor <;> (rintro rfl; exact absurd (hg _ hd) (by decide))
  have hhead : ∀ d, (removeComments y).head? = some d → d ≠ '[' ∧ d ≠ ']' := by
    intro d hd
    rw [hy] at hd
    cases g with
    | nil => exact Option.some.inj hd ▸ hbracket
    | cons e g => exact Option.some.inj hd ▸ hnot e (mem_cons_self ..)
  have hattributes : ∀ g : Text, (∀ d ∈ g, d ≠ '[' ∧ d ≠ ']') →
      removeAttributes (g ++ c :: t) = g ++ c :: removeAttributes t := by
    intro g hg
    induction g with
    | nil => exact removeAttributes_cons hbracket.1 t
    | cons d g ih =>
      rw [cons_append, removeAttributes_cons (hg d (mem_cons_self ..)).1, ih fun e he => hg e (mem_cons_of_mem _ he)]
      rfl
  have hcomments : removeComments (x ++ y) = removeComments x ++ removeComments y := by
    simp [removeComments_eq, hwithout]
  have hcomments' : removeComments (x ++ ' ' :: y) = removeComments x ++ ' ' :: removeComments y := by
    simp only [removeComments_eq, hwith, flatMap_append, flatMap_cons]
    rfl
  rw [normalizeSource, normalizeSource, hcomments, hcomments']
  rcases removeAttributes_blank hhead (removeComments x) with h | ⟨a, h, h'⟩
  · rw [h]
  · rw [h, h', hy, hattributes g hnot, normalize, normalizeFrom_blank hg hc hword]
    rfl

end Spacing

end CppScaffold
