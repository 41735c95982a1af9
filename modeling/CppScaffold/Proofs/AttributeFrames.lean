import CppScaffold.Proofs.NestedBrackets

/-!
# The brackets of attributes under the masks of groups

Lists are cut under a mask that shows the brackets of attributes and one that does not. The separators between groups
are the same under both (`alike_masks`), as no attribute stands behind a backslash.
-/

namespace CppScaffold.Mask

open Text List View

/-- The brackets of an attribute around `n` masked characters. -/
def attributeFrame (n : Nat) : Text := '[' :: '[' :: (List.replicate n ' ' ++ [']', ']'])

/-- The first text shows the brackets of some attributes and the second one does not; `behind` tells that a backslash
stands before. -/
inductive Framed : Bool → Text → Text → Prop where
  | nil (behind : Bool) : Framed behind [] []
  | same (behind : Bool) (c : Char) {a b : Text} (h : Framed (c == '\\') a b) : Framed behind (c :: a) (c :: b)
  | frame (n : Nat) {a b : Text} (h : Framed false a b) :
      Framed false (attributeFrame n ++ a) (List.replicate (n + 4) ' ' ++ b)

lemma length_attributeFrame (n : Nat) : (attributeFrame n).length = n + 4 := by
  simp [attributeFrame]

variable {n : Nat} {c : Char} {t x : Text}

lemma mem_attributeFrame (h : c ∈ attributeFrame n) : c = '[' ∨ c = ']' ∨ c = ' ' := by
  simp only [attributeFrame, mem_cons, mem_append, mem_replicate, not_mem_nil, or_false] at h
  tauto

lemma all_eq_replicate (h : ∀ c ∈ t, isBreak c = false) : all t = replicate t.length ' ' := by
  refine eq_replicate_iff.mpr ⟨by rw [all, length_map], fun c hc => ?_⟩
  obtain ⟨d, hd, rfl⟩ := mem_map.mp hc
  rw [maskChar, h d hd]
  rfl

lemma all_attributeFrame (n : Nat) : all (attributeFrame n) = replicate (n + 4) ' ' := by
  rw [← length_attributeFrame, all_eq_replicate]
  intro c hc
  rcases mem_attributeFrame hc with rfl | rfl | rfl <;> rfl

namespace Framed

variable {behind : Bool} {a b : Text}

lemma of_behind (h : Framed behind a b) : Framed false a b := by
  cases h with
  | nil => exact .nil false
  | same _ c h => exact .same false c h
  | frame n h => exact .frame n h

lemma cons (behind : Bool) {c d : Char} (hd : d = '\\' → c = '\\') (h : Framed (c == '\\') a b) :
    Framed behind (d :: a) (d :: b) := by
  refine .same behind d ?_
  by_cases hback : d = '\\'
  · rw [hd hback] at h
    rwa [hback]
  · rw [beq_eq_false_iff_ne.mpr hback]
    exact h.of_behind

lemma replicate_append (n : Nat) (h : Framed false a b) :
    Framed false (replicate n ' ' ++ a) (replicate n ' ' ++ b) := by
  induction n with
  | zero => exact h
  | succ n ih => exact .same false ' ' ih

end Framed

/-! ## Attributes under the two masks -/

/-- Whether no attribute stands behind a backslash. -/
def attributesUnescaped : Text → Bool
  | [] => true
  | c :: rest => !(c == '\\' && (attributeGroup none rest).isSome) && attributesUnescaped rest

lemma attributesUnescaped_drop (h : attributesUnescaped t) (n : Nat) : attributesUnescaped (t.drop n) := by
  induction t generalizing n with
  | nil => simpa using h
  | cons c t ih =>
    cases n with
    | zero => exact h
    | succ n =>
      rw [attributesUnescaped, Bool.and_eq_true] at h
      exact ih h.2 n

lemma maskedAttribute_take (h : attributeGroup none t = some n) :
    ∃ k, maskedAttribute true (t.take n) = attributeFrame k ∧ maskedAttribute false (t.take n) = replicate (k + 4) ' ' := by
  obtain ⟨rest, i, rfl, hi, hbreak, rfl⟩ := attributeGroup_eq_some_iff.mp h
  obtain ⟨⟨more, hmore⟩, _⟩ := find?_eq_some_iff.mp hi
  have hsplit : rest = rest.take i ++ ([']', ']'] ++ more) := by rw [hmore, take_append_drop]
  have hlength : (rest.take i).length = i := by
    have := add_length_le_of_find? hi (by simp)
    simp at this ⊢
    omega
  generalize rest.take i = inner at hsplit hbreak hlength
  subst hsplit hlength
  have hbreak : ∀ c ∈ inner, isBreak c = false := fun c hc => by simpa using any_eq_false.mp hbreak c hc
  have htake : ('[' :: '[' :: (inner ++ ([']', ']'] ++ more))).take (inner.length + 4) =
      '[' :: '[' :: (inner ++ [']', ']']) := by
    simp [take_append]
  refine ⟨inner.length, ?_, ?_⟩
  · rw [htake, attributeFrame, ← all_eq_replicate hbreak]
    simp [maskedAttribute, between]
  · rw [htake, ← all_attributeFrame, attributeFrame, ← all_eq_replicate hbreak]
    simp [maskedAttribute, all]

lemma framed_attributes (h : attributesUnescaped t) {behind : Bool}
    (hbehind : behind → attributeGroup none t = none) : Framed behind (attributes t true) (attributes t false) := by
  induction hn : t.length using Nat.strong_induction_on generalizing t behind with
  | _ n ih =>
    subst hn
    cases hgroup : attributeGroup none t with
    | some n =>
      have hfalse : behind = false := by
        by_contra hb
        rw [hbehind (by simpa using hb)] at hgroup
        cases hgroup
      have hle := local_attributeGroup.bounded none t n hgroup
      have hpos : 0 < n := by
        obtain ⟨_, _, _, _, _, rfl⟩ := attributeGroup_eq_some_iff.mp hgroup
        omega
      obtain ⟨k, hshown, hhidden⟩ := maskedAttribute_take hgroup
      rw [attributes_accepted hgroup, attributes_accepted hgroup, hshown, hhidden, hfalse]
      exact .frame k (ih _ (by rw [length_drop]; omega) (attributesUnescaped_drop h n) nofun rfl)
    | none =>
      cases t with
      | nil => exact .nil behind
      | cons c t =>
        rw [attributesUnescaped, Bool.and_eq_true] at h
        rw [attributes_passed hgroup, attributes_passed hgroup]
        refine .same behind c (ih t.length (by simp) h.2 (fun hc => ?_) rfl)
        simpa [beq_iff_eq.mp hc] using h.1

/-! ## Groups of other kinds -/

lemma viewFrom_replicate_other (n depth : Nat) (m : List Mark) :
    viewFrom depth (replicate n .other ++ m) =
      replicate n (if depth = 0 then .shown else .hidden) ++ viewFrom depth m := by
  induction n with
  | zero => rfl
  | succ n ih =>
    rw [replicate_succ, cons_append]
    cases depth <;> rw [viewFrom, ih] <;> rfl

lemma zipWith_shown (t : Text) : zipWith apply (replicate t.length .shown) t = t := by
  induction t with
  | nil => rfl
  | cons c t ih => rw [length_cons, replicate_succ, zipWith_cons_cons, ih]; rfl

lemma marks_ordinary_append {left right : Char} (h : ∀ c ∈ x, IsOrdinary left right c) (y : Text) :
    marks left right false (x ++ y) = replicate x.length .other ++ marks left right false y := by
  induction x with
  | nil => rfl
  | cons c x ih =>
    rw [cons_append, marks_ordinary (h c mem_cons_self), ih fun d hd => h d (mem_cons_of_mem c hd)]
    rfl

lemma View.apply_eq_backslash {v : View} (h : v.apply c = '\\') : c = '\\' := by
  cases v with
  | shown => exact h
  | hidden =>
    have hblank := isBlank_maskChar c
    rw [show maskChar c = '\\' from h] at hblank
    exact absurd hblank (by decide)
  | blanked => exact absurd (show ' ' = '\\' from h) (by decide)

/-- How a part of a text comes out in which there are no delimiters. -/
lemma zipWith_viewFrom_ordinary {left right : Char} (h : ∀ c ∈ x, IsOrdinary left right c) (depth : Nat) (y : Text) :
    zipWith apply (viewFrom depth (marks left right false (x ++ y))) (x ++ y) =
      (if depth = 0 then x else all x) ++ zipWith apply (viewFrom depth (marks left right false y)) y := by
  rw [marks_ordinary_append h, viewFrom_replicate_other, zipWith_append (by rw [length_replicate])]
  split
  · rw [zipWith_shown]
  · rw [zipWith_hidden]

/-- The delimiters of groups whose marks attributes do not have. -/
structure Foreign (left right : Char) : Prop where
  delimiters : Delimiters left right
  opening : IsOrdinary left right '['
  closing : IsOrdinary left right ']'

namespace Framed

variable {behind : Bool} {a b : Text} {left right : Char}

section

variable (hd : Foreign left right)
include hd

lemma isOrdinary_attributeFrame {n : Nat} {c : Char} (hc : c ∈ attributeFrame n) : IsOrdinary left right c := by
  rcases mem_attributeFrame hc with rfl | rfl | rfl
  · exact hd.opening
  · exact hd.closing
  · refine ⟨?_, ?_, by decide⟩ <;> rintro rfl
    · exact absurd hd.delimiters.left_visible (by decide)
    · exact absurd hd.delimiters.right_visible (by decide)

lemma isOrdinary_replicate {n : Nat} {c : Char} (hc : c ∈ replicate n ' ') : IsOrdinary left right c := by
  rw [eq_of_mem_replicate hc]
  exact isOrdinary_attributeFrame hd (n := 1) (by decide)

lemma marks_eq (h : Framed behind a b) {escaped : Bool} (hescaped : escaped → behind) :
    marks left right escaped a = marks left right escaped b := by
  induction h generalizing escaped with
  | nil => rfl
  | same behind c _ ih =>
    rw [marks, marks, ih]
    simp
  | frame n _ ih =>
    obtain rfl : escaped = false := by simpa using hescaped
    rw [marks_ordinary_append fun c hc => isOrdinary_attributeFrame hd hc,
      marks_ordinary_append fun c hc => isOrdinary_replicate hd hc, ih hescaped, length_attributeFrame, length_replicate]

lemma zipWith_view (h : Framed behind a b) {escaped : Bool} (hescaped : escaped → behind) (depth : Nat) :
    Framed behind (zipWith apply (viewFrom depth (marks left right escaped a)) a)
      (zipWith apply (viewFrom depth (marks left right escaped b)) b) := by
  induction h generalizing escaped depth with
  | nil => exact .nil _
  | @same behind c a b h ih =>
    have hnext : (!escaped && decide (c = '\\')) → (c == '\\') := by simp
    have hmarks := h.marks_eq hd hnext
    obtain ⟨v, depth', hview, -⟩ := viewFrom_cons (if escaped then .other else markOf left right c) depth
      (closes (marks left right (!escaped && decide (c = '\\')) a))
    rw [marks, marks, hview _ rfl, hview _ (by rw [hmarks]), zipWith_cons_cons, zipWith_cons_cons]
    exact .cons behind apply_eq_backslash (ih hnext depth')
  | @frame n a b _ ih =>
    obtain rfl : escaped = false := by simpa using hescaped
    rw [zipWith_viewFrom_ordinary fun c hc => isOrdinary_attributeFrame hd hc,
      zipWith_viewFrom_ordinary fun c hc => isOrdinary_replicate hd hc]
    split
    · exact .frame n (ih hescaped depth)
    · rw [all_attributeFrame, all_eq_replicate (by simp [isBreak]), length_replicate]
      exact (ih hescaped depth).replicate_append (n + 4)

lemma balanced (h : Framed false a b) : Framed false (balanced left right a true) (balanced left right b true) := by
  rw [balanced_eq hd.delimiters, balanced_eq hd.delimiters]
  exact h.zipWith_view hd id 0

end

end Framed

/-! ## Comparison operators -/

lemma comparisons_accepted (h : comparisonOperator none t = some n) :
    comparisons t = all (t.take n) ++ comparisons (t.drop n) := by
  obtain ⟨c, rest, rfl, _, _, rfl⟩ := comparisonOperator_eq_some_iff.mp h
  exact replaceAll_accepted local_comparisonOperator.prev_irrelevant h

lemma comparisons_passed (h : comparisonOperator none (c :: t) = none) :
    comparisons (c :: t) = c :: comparisons t :=
  replaceAll_passed local_comparisonOperator.prev_irrelevant h

lemma comparisons_append_of_notComparing (h : ∀ c ∈ x, isComparing c = false) (y : Text) :
    comparisons (x ++ y) = x ++ comparisons y := by
  induction x with
  | nil => rfl
  | cons c x ih =>
    rw [cons_append, comparisons_passed, ih fun d hd => h d (mem_cons_of_mem c hd), cons_append]
    rw [Option.eq_none_iff_forall_ne_some]
    intro n hn
    obtain ⟨d, rest, heq, hd, _⟩ := comparisonOperator_eq_some_iff.mp hn
    rw [← (cons_eq_cons.mp heq).1, h c mem_cons_self] at hd
    cases hd

namespace Framed

variable {behind : Bool} {a b : Text}

lemma head?_eq_equals_iff (h : Framed behind a b) : a.head? = some '=' ↔ b.head? = some '=' := by
  cases h with
  | nil => rfl
  | same => rfl
  | frame n => simp [attributeFrame, replicate_succ]

lemma exists_equals (h : Framed behind ('=' :: a) b) : ∃ b', b = '=' :: b' ∧ Framed false a b' := by
  generalize ht : '=' :: a = t at h
  cases h with
  | nil => cases ht
  | same _ c h =>
    obtain ⟨rfl, rfl⟩ := cons_eq_cons.mp ht
    exact ⟨_, rfl, h⟩
  | frame n => cases ht

lemma comparisonOperator_eq (h : Framed behind a b) : comparisonOperator none a = comparisonOperator none b := by
  cases h with
  | nil => rfl
  | frame n => simp [attributeFrame, replicate_succ, comparisonOperator]
  | same _ c h =>
    generalize (c == '\\') = behind at h
    cases h with
    | nil => rfl
    | frame n => simp [attributeFrame, replicate_succ, comparisonOperator]
    | @same _ d a b h =>
      have hhead : (a.head? != some '=') = (b.head? != some '=') := by
        rw [Bool.eq_iff_iff, bne_iff_ne, bne_iff_ne, Ne, h.head?_eq_equals_iff]
      by_cases hd : d = '='
      · rw [hd, comparisonOperator, comparisonOperator, hhead]
      · simp [comparisonOperator, hd]

lemma comparisons (h : Framed behind a b) : Framed behind (comparisons a) (comparisons b) := by
  induction hn : a.length using Nat.strong_induction_on generalizing behind a b with
  | _ n ih =>
    subst hn
    have hoperator := h.comparisonOperator_eq
    cases h with
    | nil => exact .nil behind
    | @frame n a b h =>
      rw [comparisons_append_of_notComparing, comparisons_append_of_notComparing]
      · exact .frame n (ih a.length (by rw [length_append, length_attributeFrame]; omega) h rfl)
      · intro c hc
        rw [eq_of_mem_replicate hc]
        rfl
      · intro c hc
        rcases mem_attributeFrame hc with rfl | rfl | rfl <;> rfl
    | @same _ c a b h =>
      cases hn : comparisonOperator none (c :: a) with
      | none =>
        rw [comparisons_passed hn, comparisons_passed (hoperator ▸ hn)]
        exact .same behind c (ih a.length (by simp) h rfl)
      | some n =>
        have hn' : comparisonOperator none (c :: b) = some n := hoperator ▸ hn
        obtain ⟨_, rest, heq, _, _, rfl⟩ := comparisonOperator_eq_some_iff.mp hn
        obtain ⟨rfl, rfl⟩ := cons_eq_cons.mp heq
        obtain ⟨rest', rfl, hrest⟩ := h.exists_equals
        rw [comparisons_accepted hn, comparisons_accepted hn']
        exact .same behind (maskChar c) (.same _ ' ' (ih rest.length (by simp only [length_cons]; omega) hrest rfl))

end Framed

/-! ## Brackets -/

/-- The characters of the two masked texts in the end: the brackets of an attribute may be visible in the first one. -/
def Alike (c d : Char) : Prop := c = d ∨ ((c = '[' ∨ c = ']') ∧ d = ' ')

lemma nested_replicate (n : Nat) : Nested (replicate n ' ') :=
  nested_of_plain (by simp [show Bracket.mark ' ' = .other from rfl])

lemma level_attributeFrame (n depth : Nat) : level depth (marks '[' ']' false (attributeFrame n)) = some depth := by
  have hnested : Nested (attributeFrame n) := by
    have hinner := Nested.group .brackets (nested_replicate n) .nil
    have := Nested.group .brackets hinner .nil
    simpa [attributeFrame, Bracket.left, Bracket.right] using this
  have := hnested.level_append (by simp [attributeFrame]) .brackets depth []
  rwa [append_nil] at this

lemma marks_attributeFrame (n : Nat) (a : Text) :
    marks '[' ']' false (attributeFrame n ++ a) = marks '[' ']' false (attributeFrame n) ++ marks '[' ']' false a :=
  marks_append_of_notMem (by simp [attributeFrame]) a

lemma zipWith_attributeFrame (n depth : Nat) (a : Text) :
    zipWith apply (viewFrom depth (marks '[' ']' false (attributeFrame n ++ a))) (attributeFrame n ++ a) =
      (if depth = 0 then '[' :: (replicate (n + 2) ' ' ++ [']']) else replicate (n + 4) ' ') ++
        zipWith apply (viewFrom depth (marks '[' ']' false a)) a := by
  cases depth with
  | zero =>
    have hback : '\\' ∉ '[' :: (replicate n ' ' ++ [']']) := by simp
    have hnested : Nested ('[' :: (replicate n ' ' ++ [']'])) := .group .brackets (nested_replicate n) .nil
    have hgroup := render_group delimiters_brackets (escapes_of_notMem hback) (hnested.level_eq hback .brackets) a
    have hall : all ('[' :: (replicate n ' ' ++ [']'])) = replicate (n + 2) ' ' := by
      rw [all_eq_replicate]
      · simp
      · intro c hc
        obtain rfl | rfl | rfl : c = '[' ∨ c = ']' ∨ c = ' ' := by
          simp at hc
          tauto
        all_goals rfl
    rw [hall, render, render] at hgroup
    simpa [attributeFrame] using hgroup
  | succ depth =>
    rw [marks_attributeFrame, viewFrom_of_level (level_attributeFrame n depth), length_marks,
      zipWith_append (by rw [length_replicate]), zipWith_hidden, all_attributeFrame]
    rfl

lemma isOrdinary_space (h : c ∈ replicate n ' ') : IsOrdinary '[' ']' c := by
  rw [eq_of_mem_replicate h]
  decide

namespace Framed

variable {behind : Bool} {a b : Text}

lemma closes_eq (h : Framed behind a b) {escaped : Bool} (hescaped : escaped → behind) :
    closes (marks '[' ']' escaped a) = closes (marks '[' ']' escaped b) := by
  induction h generalizing escaped with
  | nil => rfl
  | same behind c _ ih =>
    have htail := @ih (!escaped && decide (c = '\\')) (by simp)
    rw [marks, marks]
    cases (if escaped then Mark.other else markOf '[' ']' c) <;> simp [closes, htail]
  | @frame n a b _ ih =>
    obtain rfl : escaped = false := by simpa using hescaped
    have hopens := opens_of_level (level_attributeFrame n 0)
    have hspaces := opens_closes_of_isOrdinary fun c (hc : c ∈ replicate (n + 4) ' ') => isOrdinary_space hc
    rw [marks_attributeFrame, marks_append_of_notMem (by simp), closes_append, closes_append, ih hescaped]
    omega

lemma alike_view (h : Framed behind a b) {escaped : Bool} (hescaped : escaped → behind) (depth : Nat) :
    List.Forall₂ Alike (zipWith apply (viewFrom depth (marks '[' ']' escaped a)) a)
      (zipWith apply (viewFrom depth (marks '[' ']' escaped b)) b) := by
  have hrefl : ∀ t : Text, List.Forall₂ Alike t t := fun t => forall₂_same.mpr fun c _ => .inl rfl
  induction h generalizing escaped depth with
  | nil => exact .nil
  | @same behind c a b h ih =>
    have hnext : (!escaped && decide (c = '\\')) → (c == '\\') := by simp
    obtain ⟨v, depth', hview, -⟩ := viewFrom_cons (if escaped then .other else markOf '[' ']' c) depth
      (closes (marks '[' ']' (!escaped && decide (c = '\\')) a))
    rw [marks, marks, hview _ rfl, hview _ (h.closes_eq hnext).symm, zipWith_cons_cons]
    exact .cons (.inl rfl) (ih hnext depth')
  | @frame n a b _ ih =>
    obtain rfl : escaped = false := by simpa using hescaped
    rw [zipWith_attributeFrame, zipWith_viewFrom_ordinary fun c hc => isOrdinary_space hc]
    refine rel_append ?_ (ih hescaped depth)
    split
    · have hspaces : replicate (n + 4) ' ' = ' ' :: (replicate (n + 2) ' ' ++ [' ']) := by
        rw [← replicate_succ', ← replicate_succ]
      rw [hspaces]
      exact .cons (.inr ⟨.inl rfl, rfl⟩) (rel_append (hrefl _) (.cons (.inr ⟨.inr rfl, rfl⟩) .nil))
    · rw [all_eq_replicate (by simp [isBreak]), length_replicate]
      exact hrefl _

end Framed

lemma foreign_parentheses : Foreign '(' ')' :=
  ⟨delimiters_parentheses, by decide, by decide⟩

lemma foreign_angleBrackets : Foreign '<' '>' :=
  ⟨delimiters_angleBrackets, by decide, by decide⟩

lemma foreign_braces : Foreign '{' '}' :=
  ⟨delimiters_braces, by decide, by decide⟩

/-- **The two masks of a list show the same characters**, the brackets of attributes apart. -/
theorem alike_masks (h : attributesUnescaped (replaceTokens chooseAll all t)) :
    List.Forall₂ Alike (nestedGroups (nonSource t true)) (nestedGroups (nonSource t false)) := by
  have hframed : Framed false (nonSource t true) (nonSource t false) := framed_attributes h nofun
  have hangles := ((hframed.balanced foreign_parentheses).comparisons).balanced foreign_angleBrackets
  rw [nestedGroups, nestedGroups, brackets, brackets, balanced_eq delimiters_brackets, balanced_eq delimiters_brackets]
  exact (hangles.balanced foreign_braces).alike_view id 0

end CppScaffold.Mask
