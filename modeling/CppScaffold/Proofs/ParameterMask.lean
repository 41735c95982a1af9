import CppScaffold.Proofs.Groups
import CppScaffold.Proofs.Lexemes

/-!
# The mask of parameter lists

The seven masks of a parameter list are put together as two layers, one for what is no source text and one for the
groups. A blank before a word goes through all of them (`nestedGroups_blank`).
-/

namespace CppScaffold.Mask

open Text Recognizer List

/-! ## Gaps under the masks -/

def isGap (others : Text) (c : Char) : Bool := isBlank c || others.contains c

variable {t : Text} {c : Char}

lemma isGap_mono {others more : Text} (hc : isGap others c) (hsub : others ⊆ more) : isGap more c := by
  simp only [isGap, Bool.or_eq_true, contains_iff_mem] at hc ⊢
  exact hc.imp_right fun hmem => hsub hmem

lemma isGap_of_balanced {left right : Char} (hd : Delimiters left right) {others : Text}
    (hleft : isGap others left = false) (h : ∀ c ∈ balanced left right t true, isGap others c) (hc : c ∈ t) :
    isGap (left :: right :: others) c := by
  have hnot : left ∉ balanced left right t true := by
    intro hmem
    rw [h left hmem] at hleft
    cases hleft
  rcases mem_or_delimiter_of_mem hd hnot hc with hmem | rfl | rfl
  · exact isGap_mono (h c hmem) (by simp)
  · simp [isGap]
  · simp [isGap]

/-- A character that is not left is part of something that was replaced. -/
lemma mem_replaceAllFrom {r : Recognizer} {f : Text → Text} {prev : Option Char} {skip : Nat} (h : c ∈ t.drop skip) :
    c ∈ replaceAllFrom r f prev skip t ∨ ∃ p u n, r p u = some n ∧ c ∈ u.take n := by
  induction t generalizing prev skip with
  | nil => simp at h
  | cons d t ih =>
    cases skip with
    | succ skip => exact ih h
    | zero =>
      by_cases haccepted : ∃ n, r prev (d :: t) = some (n + 1)
      · obtain ⟨n, hn⟩ := haccepted
        rw [replaceAllFrom_accepted hn]
        rw [← take_append_drop (n + 1) (d :: t)] at h
        rcases mem_append.mp h with h | h
        · exact .inr ⟨_, _, _, hn, h⟩
        · exact (ih h).imp_left (mem_append_right _)
      · rw [replaceAllFrom_passed (not_exists.mp haccepted)]
        rcases mem_cons.mp h with rfl | h
        · exact .inl (mem_cons_self ..)
        · rw [← drop_zero (l := t)] at h
          exact (ih h).imp_left (mem_cons_of_mem _)

lemma isGap_of_comparisons {others : Text} (h : ∀ c ∈ comparisons t, isGap ('<' :: '>' :: others) c) (hc : c ∈ t) :
    isGap ('=' :: '!' :: '<' :: '>' :: others) c := by
  have hdrop : c ∈ t.drop 0 := hc
  rcases mem_replaceAllFrom (r := comparisonOperator) (f := all) hdrop with hmem | ⟨p, u, n, hn, hmem⟩
  · exact isGap_mono (h c hmem) (by simp)
  · obtain ⟨d, rest, rfl, hd, _, rfl⟩ := comparisonOperator_eq_some_iff.mp hn
    simp only [isComparing, Bool.or_eq_true, beq_iff_eq] at hd
    simp only [take_succ_cons, take_zero, mem_cons, not_mem_nil, or_false] at hmem
    simp only [isGap, Bool.or_eq_true, contains_cons, beq_iff_eq]
    rcases hmem with rfl | rfl <;> tauto

/-! ## The layers -/

lemma delimiters_parentheses : Delimiters '(' ')' := by constructor <;> decide

lemma delimiters_angleBrackets : Delimiters '<' '>' := by constructor <;> decide

lemma delimiters_braces : Delimiters '{' '}' := by constructor <;> decide

lemma delimiters_brackets : Delimiters '[' ']' := by constructor <;> decide

namespace Layer

/-- The groups in brackets, between which there are only blanks. -/
def brackets : Layer := groups '[' ']' (isGap []) delimiters_brackets (by decide) (by decide)

def braces : Layer := groups '{' '}' (isGap ['[', ']']) delimiters_braces (by decide) (by decide)

def angleBrackets : Layer :=
  groups '<' '>' (isGap ['{', '}', '[', ']']) delimiters_angleBrackets (by decide) (by decide)

def operators : Layer := comparisons (isGap ['<', '>', '{', '}', '[', ']'])

def parentheses : Layer :=
  groups '(' ')' (isGap ['=', '!', '<', '>', '{', '}', '[', ']']) delimiters_parentheses (by decide) (by decide)

/-- What may stand between the visible parts of source text, apart from comments. -/
def isSourceGap : Char → Bool := isGap ['(', ')', '=', '!', '<', '>', '{', '}', '[', ']']

/-- Comments and literals, between which there are only gaps of source text. -/
def literals : Layer := tokens isSourceGap (by rintro c (rfl | rfl | rfl) <;> decide)

variable (t : Text)

lemma gap_attributes (h : (attributes isSourceGap).Gap ((attributes isSourceGap).mask t)) :
    literals.Gap t := h

def source : Layer := (attributes isSourceGap).atop literals gap_attributes

lemma gap_brackets (h : brackets.Gap (brackets.mask t)) : braces.Gap t :=
  fun _ hc => isGap_of_balanced delimiters_brackets rfl h hc

lemma gap_braces (h : braces.Gap (braces.mask t)) : angleBrackets.Gap t :=
  fun _ hc => isGap_of_balanced delimiters_braces rfl h hc

lemma gap_angleBrackets (h : angleBrackets.Gap (angleBrackets.mask t)) : operators.Gap t :=
  fun _ hc => isGap_of_balanced delimiters_angleBrackets rfl h hc

lemma gap_operators (h : operators.Gap (operators.mask t)) : parentheses.Gap t :=
  fun _ hc => isGap_of_comparisons h hc

lemma gap_parentheses (h : parentheses.Gap (parentheses.mask t)) : source.Gap t :=
  fun _ hc => isGap_of_balanced delimiters_parentheses rfl h hc

/-- All groups, one kind after the other. -/
def nested : Layer :=
  brackets.atop
    (braces.atop
      (angleBrackets.atop (operators.atop parentheses gap_operators)
        fun t h => (gap_atop t).mpr (gap_angleBrackets t h))
      fun t h => (gap_atop t).mpr (gap_braces t h))
    fun t h => (gap_atop t).mpr (gap_brackets t h)

lemma gap_nested (h : nested.Gap (nested.mask t)) : source.Gap t := by
  exact gap_parentheses t (gap_operators _ (gap_angleBrackets _ (gap_braces _ (gap_brackets _ h))))

/-- The mask under which a parameter list is cut into pieces. -/
def parameters : Layer := nested.atop source gap_nested

lemma mask_source : source.mask t = nonSource t false := rfl

lemma mask_nested : nested.mask t = nestedGroups t := by
  simp only [nested, mask_atop]
  rfl

lemma mask_parameters : parameters.mask t = nestedGroups (nonSource t false) := by
  rw [parameters, mask_atop, mask_source, mask_nested]

lemma fine_parameters {t : Text} : parameters.Fine t ↔ Lexeme.settled (Lexeme.scan t) ∧
    attributesSettled (replaceTokens chooseAll all t) ∧
    comparisonsSettled (Mask.parentheses (nonSource t false) true) := by
  simp only [parameters, nested, source, fine_atop, mask_atop]
  simp only [brackets, braces, angleBrackets, operators, parentheses, groups, comparisons, attributes, literals, tokens,
    and_true, true_and, and_assoc]
  rfl

lemma swallows_source {x : Text} : source.Swallows x ↔ Lexeme.EndsInComment x := by
  simp only [source, swallows_atop]
  simp [attributes, literals, tokens]

lemma swallows_parameters {x : Text} : parameters.Swallows x ↔ Lexeme.EndsInComment x := by
  rw [parameters, swallows_atop, swallows_source]
  simp only [nested, swallows_atop]
  simp only [brackets, braces, angleBrackets, operators, parentheses, groups, comparisons, or_false]

variable {c : Char}

lemma stands_parameters (hc : isBlank c = false)
    (hnot : c ∉ ['"', '\'', '[', ']', '{', '}', '<', '>', '(', ')', '\\']) : parameters.stands c := by
  simp only [parameters, nested, source, stands_atop]
  simp only [brackets, braces, angleBrackets, operators, parentheses, groups, comparisons, attributes, literals, tokens]
  simp only [mem_cons, not_mem_nil, or_false, not_or] at hnot
  simp [hc, hnot]

lemma mem_of_special_parameters (hc : parameters.special c) :
    c ∈ ['/', '*', '"', '[', ']', '{', '}', '<', '>', '(', ')', '=', '\\'] := by
  simp only [parameters, nested, source, special_atop] at hc
  simp only [brackets, braces, angleBrackets, operators, parentheses, groups, comparisons, attributes, literals, tokens,
    Lexeme.isMark] at hc
  simp only [mem_cons, not_mem_nil, or_false]
  grind

lemma stands_source (hc : isBlank c = false) (hnot : c ∉ ['"', '\'', '[', ']']) : source.stands c := by
  simp only [source, stands_atop]
  simp only [attributes, literals, tokens]
  simp only [mem_cons, not_mem_nil, or_false, not_or] at hnot
  simp [hc, hnot]

end Layer

lemma nonSource_append {x y : Text} (h : Layer.source.Cut x y) (keep : Bool) :
    nonSource (x ++ y) keep = nonSource x keep ++ nonSource y keep := by
  have hmask : replaceTokens chooseAll all (x ++ y) = replaceTokens chooseAll all x ++ replaceTokens chooseAll all y :=
    Layer.literals.mask_append h.1
  rw [nonSource, nonSource, hmask]
  exact replaceAll_append local_attributeGroup h.2

/-! ## A blank before a word -/

lemma viewFrom_other (m m' : List Mark) (depth : Nat) : ∃ v₁ v v₂, viewFrom depth (m ++ m') = v₁ ++ v₂ ∧
    viewFrom depth (m ++ .other :: m') = v₁ ++ v :: v₂ ∧ v₁.length = m.length := by
  induction m generalizing depth with
  | nil =>
    cases depth with
    | zero => exact ⟨[], .shown, _, rfl, rfl, rfl⟩
    | succ depth => exact ⟨[], .hidden, _, rfl, rfl, rfl⟩
  | cons k m ih =>
    have hcloses : closes (m ++ .other :: m') = closes (m ++ m') := by
      rw [closes_append, closes_append]
      rfl
    -- the first mark is seen alike, and the ones after it at the same depth
    obtain ⟨w, d, hview, -⟩ := viewFrom_cons k depth (closes (m ++ m'))
    obtain ⟨v₁, v, v₂, hwithout, hwith, hlength⟩ := ih d
    refine ⟨w :: v₁, v, v₂, ?_, ?_, by simp [hlength]⟩
    · rw [cons_append, hview _ rfl, hwithout, cons_append]
    · rw [cons_append, hview _ hcloses, hwith, cons_append]

/-- A blank between two texts passes through a layer and changes nothing else. -/
structure Layer.IgnoresBlank (f : Layer) (x y : Text) : Prop where
  mask : ∃ a b, f.mask (x ++ y) = a ++ b ∧ f.mask (x ++ ' ' :: y) = a ++ ' ' :: b ∧ MaskedForm x a ∧ MaskedForm y b
  apart_left : ∀ z, f.Apart (x ++ y) z → f.Apart (x ++ ' ' :: y) z
  apart_right : ∀ z, f.Apart z (x ++ y) → f.Apart z (x ++ ' ' :: y)

namespace Layer.IgnoresBlank

variable {x y : Text}

lemma groups {left right : Char} {gap : Char → Bool} (hd : Delimiters left right)
    (hseparator : isSeparator left = false ∧ isSeparator right = false)
    (hgap : gap left = false ∧ gap right = false ∧ gap '\\' = false)
    (hy : ∀ c, y.head? = some c → IsOrdinary left right c) :
    (groups left right gap hd hseparator hgap).IgnoresBlank x y := by
  have hspace : ∀ c, (' ' :: y).head? = some c → IsOrdinary left right c := by
    rintro c ⟨⟩
    exact isOrdinary_of_isSeparator hseparator.1 hseparator.2 rfl
  have hmarks : marks left right false (x ++ y) = marks left right false x ++ marks left right false y := by
    rw [marks_append, marks_of_isOrdinary hy]
  have hmarks' : marks left right false (x ++ ' ' :: y) =
      marks left right false x ++ .other :: marks left right false y := by
    rw [marks_append, marks_of_isOrdinary hspace, marks, markOf_of_isOrdinary (hspace ' ' rfl)]
    rfl
  refine ⟨?_, fun z h => ?_, fun z h => ?_⟩
  · obtain ⟨v₁, v, v₂, hwithout, hwith, hlength⟩ :=
      viewFrom_other (marks left right false x) (marks left right false y) 0
    have hv₁ : v₁.length = x.length := hlength.trans (length_marks ..)
    have hmask : balanced left right (x ++ y) true =
        zipWith View.apply v₁ x ++ zipWith View.apply v₂ y := by
      rw [balanced_eq hd, render, hmarks, hwithout, zipWith_append hv₁]
    obtain ⟨x', y', heq, hx, hy⟩ := (hmask ▸ hd.maskedForm (x ++ y)).append_inv
    obtain ⟨rfl, rfl⟩ := append_inj heq (by rw [← hx.length_eq, length_zipWith, hv₁, Nat.min_self])
    refine ⟨_, _, hmask, ?_, hx, hy⟩
    have hblank : v.apply ' ' = ' ' := by cases v <;> rfl
    show balanced left right (x ++ ' ' :: y) true = _
    rw [balanced_eq hd, render, hmarks', hwith, zipWith_append hv₁, zipWith_cons_cons, hblank]
  · refine Or.imp_left (fun h => ?_) h
    rw [hmarks, opens_append] at h
    rwa [hmarks', opens_append]
  · refine Or.imp_right (fun h => ?_) h
    rw [hmarks, closes_append] at h
    rwa [hmarks', closes_append]

lemma comparisons {gap : Char → Bool} (hy : ∀ c, y.head? = some c → c ≠ '=') :
    (comparisons gap).IgnoresBlank x y := by
  have hcut : ∀ z : Text, (∀ c, z.head? = some c → c ≠ '=') →
      Mask.comparisons (x ++ z) = Mask.comparisons x ++ Mask.comparisons z := by
    intro z hz
    refine (Layer.comparisons gap).mask_append ?_
    refine (Layer.comparisons gap).cut_of_apart trivial (.inr fun c hc => ?_) id
    exact beq_eq_false_iff_ne.mpr (hz c hc)
  have hspace : Mask.comparisons (' ' :: y) = ' ' :: Mask.comparisons y := by
    refine replaceAll_passed local_comparisonOperator.prev_irrelevant (Option.eq_none_iff_forall_ne_some.mpr ?_)
    intro n hn
    obtain ⟨c, rest, heq, hc, _⟩ := comparisonOperator_eq_some_iff.mp hn
    obtain ⟨rfl, _⟩ := cons_eq_cons.mp heq
    exact absurd hc (by decide)
  refine ⟨⟨_, _, hcut y hy, ?_, maskedForm_comparisons x, maskedForm_comparisons y⟩, fun _ h => h, fun _ h => h⟩
  exact (hcut _ (by rintro c ⟨⟩; decide)).trans (congrArg _ hspace)

lemma atop {f g : Layer} {hgap : ∀ t, g.Gap (g.mask t) → f.Gap t} (hf : f.IgnoresBlank x y)
    (hg : ∀ a b, MaskedForm x a → MaskedForm y b → g.IgnoresBlank a b) : (g.atop f hgap).IgnoresBlank x y := by
  obtain ⟨a, b, hwithout, hwith, hx, hy⟩ := hf.mask
  have hg := hg a b hx hy
  obtain ⟨a', b', hwithout', hwith', hx', hy'⟩ := hg.mask
  refine ⟨⟨a', b', ?_, ?_, hx.trans hx', hy.trans hy'⟩, fun z h => ?_, fun z h => ?_⟩
  · rw [mask_atop, hwithout, hwithout']
  · rw [mask_atop, hwith, hwith']
  · rw [apart_atop, hwithout] at h
    rw [apart_atop, hwith]
    exact ⟨hf.apart_left z h.1, hg.apart_left _ h.2⟩
  · rw [apart_atop, hwithout] at h
    rw [apart_atop, hwith]
    exact ⟨hf.apart_right z h.1, hg.apart_right _ h.2⟩

lemma nested (hy : ∀ c, y.head? = some c → isWordChar c) : nested.IgnoresBlank x y := by
  have hhead : ∀ b, MaskedForm y b → ∀ c, b.head? = some c → isBlank c ∨ isWordChar c := by
    intro b hb c hc
    exact (hb.isBlank_or_head? hc).imp_right (hy c)
  have hordinary : ∀ {left right : Char}, Delimiters left right → isWordChar left = false → isWordChar right = false →
      ∀ b, MaskedForm y b → ∀ c, b.head? = some c → IsOrdinary left right c := by
    intro left right hd hleft hright b hb c hc
    have := hhead b hb c hc
    refine ⟨?_, ?_, ?_⟩ <;> rintro rfl
    · simp [hd.left_visible, hleft] at this
    · simp [hd.right_visible, hright] at this
    · exact absurd this (by decide)
  refine atop (atop (atop (atop ?_ ?_) ?_) ?_) ?_
  · exact groups _ _ _ (hordinary delimiters_parentheses (by decide) (by decide) y (.refl y))
  · intro a b _ hb
    refine comparisons fun c hc => ?_
    rintro rfl
    exact absurd (hhead b hb _ hc) (by decide)
  · exact fun a b _ hb => groups _ _ _ (hordinary delimiters_angleBrackets (by decide) (by decide) b hb)
  · exact fun a b _ hb => groups _ _ _ (hordinary delimiters_braces (by decide) (by decide) b hb)
  · exact fun a b _ hb => groups _ _ _ (hordinary delimiters_brackets (by decide) (by decide) b hb)

end Layer.IgnoresBlank

end CppScaffold.Mask
