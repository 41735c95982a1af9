import CppScaffold.Proofs.Masking

/-!
# Layers of masks

A text under several masks can be read in two parts if no mask covers the place where they meet as part of something
longer. A `Layer` is a mask with this relation and what is needed to keep it when parts are put together in another
way; one layer over another is a layer (`Layer.atop`).
-/

namespace CppScaffold.Mask

open Text List

lemma isBlank_of_isBreak {c : Char} (h : isBreak c) : isBlank c := by
  rcases Bool.or_eq_true_iff.mp h with h | h
  · rw [beq_iff_eq.mp h]
    decide
  · rw [beq_iff_eq.mp h]
    decide

/-- Two characters next to each other stand in one of two texts, unless these meet between them. -/
lemma infix_append_pair {α : Type} {c d : α} {y y' : List α} (h : [c, d] <:+: y ++ y') :
    [c, d] <:+: y ∨ [c, d] <:+: y' ∨ (y.getLast? = some c ∧ y'.head? = some d) := by
  obtain ⟨s, u, heq⟩ := h
  rcases append_eq_append_iff.mp heq with ⟨a, rfl, _⟩ | ⟨a, hs, rfl⟩
  · exact .inl ⟨s, a, rfl⟩
  rcases append_eq_append_iff.mp hs with ⟨a', rfl, ha⟩ | ⟨a', rfl, rfl⟩
  · -- the two texts meet at one of three places around the two characters
    match a', a, ha with
    | [], _, rfl => exact .inr (.inl ⟨[], u, rfl⟩)
    | [_], [_], rfl => exact .inr (.inr ⟨by simp, rfl⟩)
    | [_, _], [], rfl => exact .inl ⟨s, [], by simp⟩
  · exact .inr (.inl ⟨a', u, rfl⟩)

lemma isBlank_maskChar (c : Char) : isBlank (maskChar c) := by
  rw [maskChar]
  split
  next h => exact isBlank_of_isBreak h
  next => decide

/-- The characters that divide printed parts. -/
def isSeparator (c : Char) : Bool := isBlank c || c == ',' || c == '='

/-- Nothing can be read across the place where two texts meet: the first one ends with a blank, or the second
one begins with an insignificant character. -/
def Loose (special : Char → Bool) (x y : Text) : Prop :=
  (∀ c, x.getLast? = some c → isBlank c) ∨ (∀ c, y.head? = some c → special c = false)

variable {special : Char → Bool} {x y : Text}

lemma Loose.absurd (h : Loose special x y) {c d : Char} (hc : x.getLast? = some c) (hvisible : isBlank c = false) (hd
    : y.head? = some d) (hspecial : special d) : False := by
  rcases h with h | h
  · simp [h c hc] at hvisible
  · simp [h d hd] at hspecial

lemma Loose.of_suffix {x' : Text} (h : Loose special x y) (hx : x' <:+ x) : Loose special x' y := by
  obtain ⟨z, rfl⟩ := hx
  exact h.imp_left fun h c hc => h c (by rw [getLast?_append, hc]; rfl)

/-- What is visible next to the place where a text falls into parts: a character there, or a gap up to all that is
visible on one side. -/
inductive Seam (stands : Char → Bool) (Gap : Text → Prop) : Text → Text → Prop where
  | before {c : Char} (a b : Text) (h : stands c) : Seam stands Gap a (c :: b)
  | after {c : Char} (a b : Text) (h : stands c) (hword : isWordChar c = false) : Seam stands Gap (a ++ [c]) b
  | ahead {a g : Text} (h : Gap g) (hlast : ∀ c, a.getLast? = some c → isBlank c = false) : Seam stands Gap a g
  | behind {g b : Text} (h : Gap g) (hhead : ∀ c, b.head? = some c → isBlank c = false) : Seam stands Gap g b

/-- A mask and how texts fall into parts under it. -/
structure Layer where
  mask : Text → Text
  /-- The characters that are significant after others. -/
  special : Char → Bool
  /-- The characters at which a text falls into parts, where they are visible. -/
  stands : Char → Bool
  Cut : Text → Text → Prop
  /-- Nothing that the first text leaves open is closed in the second one. -/
  Apart : Text → Text → Prop
  /-- The text takes along what comes after it on its last line. -/
  Swallows : Text → Prop
  /-- What a text leaves open stays open, however it is cut. -/
  Fine : Text → Prop
  Gap : Text → Prop
  maskedForm : ∀ t, MaskedForm t (mask t)
  special_visible : ∀ c, special c → isBlank c = false
  stands_visible : ∀ c, stands c → isBlank c = false
  mask_append : ∀ {x y}, Cut x y → mask (x ++ y) = mask x ++ mask y
  fine_of_cut : ∀ {x y}, Fine (x ++ y) → Cut x y → Fine x ∧ Fine y
  apart_of_cut : ∀ {x y}, Fine (x ++ y) → Cut x y → Apart x y
  cut_of_apart : ∀ {x y}, Apart x y → Loose special x y → ¬ Swallows x → Cut x y
  apart_of_append_left : ∀ {x x' y}, Cut x x' → Apart (x ++ x') y → Apart x y ∧ Apart x' y
  apart_of_append_right : ∀ {x y y'}, Cut y y' → Apart x (y ++ y') → Apart x y ∧ Apart x y'
  apart_append_left : ∀ {x x' y}, Cut x x' → Loose special x x' → Apart x y → Apart x' y → Apart (x ++ x') y
  apart_append_right : ∀ {x y y'}, Cut y y' → Loose special y y' → Apart x y → Apart x y' → Apart x (y ++ y')
  apart_separator : ∀ {s}, (∀ c ∈ s, isSeparator c) → ∀ x, Apart x s ∧ Apart s x
  swallows_append : ∀ {x y}, Cut x y → y ≠ [] → Swallows (x ++ y) → Swallows y
  not_swallows_of_visible : ∀ {x c}, (mask x).getLast? = some c → isBlank c = false → ¬ Swallows x
  not_swallows_separator : ∀ {s}, (∀ c ∈ s, isSeparator c) → ¬ Swallows s
  cut_at : ∀ {t a b}, Fine t → mask t = a ++ b → Seam stands Gap a b → ∃ x y, t = x ++ y ∧ mask x = a ∧ mask y = b ∧ Cut x y

/-! ## Ends of masked texts -/

namespace MaskedForm

variable {t m : Text}

lemma ne_nil (h : MaskedForm t m) (ht : t ≠ []) : m ≠ [] := by
  intro hm
  have := h.length_eq
  rw [hm, length_nil, eq_comm, length_eq_zero_iff] at this
  exact ht this

variable {c : Char}

lemma concat_inv (h : MaskedForm t (m ++ [c])) (hne : c ≠ ' ') : ∃ u, t = u ++ [c] ∧ MaskedForm u m := by
  obtain ⟨u, u', rfl, hu, hu'⟩ := h.append_inv
  obtain ⟨w, rfl, hw⟩ := hu'.cons_inv hne
  obtain rfl := length_eq_zero_iff.mp hw.length_eq.symm
  exact ⟨u, rfl, hu⟩

lemma reverse (h : MaskedForm t m) : MaskedForm t.reverse m.reverse :=
  maskedForm_iff_forall₂.mpr (forall₂_reverse_iff.mpr (maskedForm_iff_forall₂.mp h))

lemma isBlank_or_head? (h : MaskedForm t m) (hc : m.head? = some c) : isBlank c ∨ t.head? = some c := by
  obtain ⟨rest, rfl⟩ := head?_eq_some_iff.mp hc
  by_cases hspace : c = ' '
  · exact .inl (hspace ▸ by decide)
  · obtain ⟨u, rfl, _⟩ := h.cons_inv hspace
    exact .inr rfl

lemma isBlank_or_getLast? (h : MaskedForm t m) (hc : m.getLast? = some c) : isBlank c ∨ t.getLast? = some c := by
  rw [getLast?_eq_head?_reverse] at hc ⊢
  exact h.reverse.isBlank_or_head? hc

lemma head?_visible (h : MaskedForm t m) (hv : ∀ c, m.head? = some c → isBlank c = false)
    (hc : t.head? = some c) : isBlank c = false := by
  obtain ⟨d, hd⟩ := Option.isSome_iff_exists.mp (isSome_head?.mpr (h.ne_nil (by rintro rfl; cases hc)))
  rcases h.isBlank_or_head? hd with hblank | hhead
  · rw [hv d hd] at hblank
    cases hblank
  · rw [← Option.some.inj (hhead.symm.trans hc)]
    exact hv d hd

lemma getLast?_visible (h : MaskedForm t m) (hv : ∀ c, m.getLast? = some c → isBlank c = false)
    (hc : t.getLast? = some c) : isBlank c = false := by
  simp only [getLast?_eq_head?_reverse] at hv hc
  exact h.reverse.head?_visible hv hc

lemma isSeparator_of_mem (h : MaskedForm t m) (hs : ∀ c ∈ t, isSeparator c) (hc : c ∈ m) : isSeparator c := by
  obtain ⟨i, hi⟩ := getElem?_of_mem hc
  by_cases hspace : c = ' '
  · exact hspace ▸ by decide
  · exact hs c (mem_of_getElem? (h.getElem?_of_visible hi hspace))

lemma parts {F : Text → Text} (hform : ∀ t, MaskedForm t (F t)) {x y a b : Text} (happend : F (x ++ y) = F x ++ F y)
    (h : F (x ++ y) = a ++ b) (hx : MaskedForm x a) : F x = a ∧ F y = b :=
  append_inj (happend.symm.trans h) ((hform x).length_eq.trans hx.length_eq.symm)

end MaskedForm

lemma Loose.mask {special' : Char → Bool} {x' y' : Text} (h : Loose special x y)
    (hx : MaskedForm x x') (hy : MaskedForm y y') (hspecial : ∀ c, special' c → special c)
    (hvisible : ∀ c, special' c → isBlank c = false) : Loose special' x' y' := by
  rcases h with h | h
  · exact .inl fun c hc => (hx.isBlank_or_getLast? hc).elim id (h c)
  · refine .inr fun c hc => ?_
    rcases hy.isBlank_or_head? hc with hblank | hhead
    · by_contra hs
      have := hvisible c (by simpa using hs)
      simp [hblank] at this
    · have := h c hhead
      by_contra hs
      rw [hspecial c (by simpa using hs)] at this
      cases this

lemma Seam.visible {stands : Char → Bool} {Gap : Text → Prop} {a b : Text} (h : Seam stands Gap a b)
    (hstands : ∀ c, stands c → isBlank c = false) :
    (∀ c, b.head? = some c → isBlank c = false) ∨ ∀ c, a.getLast? = some c → isBlank c = false := by
  cases h with
  | before a b h => exact .inl (by simpa using hstands _ h)
  | after a b h => exact .inr (by simpa using hstands _ h)
  | ahead _ hlast => exact .inr hlast
  | behind _ hhead => exact .inl hhead

/-- What is visible under a further mask is visible without it. -/
lemma Seam.of_mask {stands stands' : Char → Bool} {Gap Gap' : Text → Prop} {x y a b : Text} (h : Seam stands Gap a b)
    (hx : MaskedForm x a) (hy : MaskedForm y b) (hstands : ∀ c, stands c → stands' c ∧ isBlank c = false)
    (hgapX : Gap a → Gap' x) (hgapY : Gap b → Gap' y) : Seam stands' Gap' x y := by
  have hne {c : Char} (hc : stands c) : c ≠ ' ' := by
    rintro rfl
    exact absurd (hstands _ hc).2 (by decide)
  cases h with
  | before a b h =>
    obtain ⟨y, rfl, -⟩ := hy.cons_inv (hne h)
    exact .before x y (hstands _ h).1
  | after a b h hword =>
    obtain ⟨x, rfl, -⟩ := hx.concat_inv (hne h)
    exact .after x y (hstands _ h).1 hword
  | ahead h hlast => exact .ahead (hgapY h) fun c hc => hx.getLast?_visible hlast hc
  | behind h hhead => exact .behind (hgapX h) fun c hc => hy.head?_visible hhead hc

namespace Layer

variable {g f : Layer}

lemma loose_lower (h : Loose (fun c => f.special c || g.special c) x y) : Loose f.special x y :=
  h.mask (.refl _) (.refl _) (by simp +contextual) f.special_visible

lemma loose_upper (h : Loose (fun c => f.special c || g.special c) x y) : Loose g.special (f.mask x) (f.mask y) :=
  h.mask (f.maskedForm x) (f.maskedForm y) (by simp +contextual) g.special_visible

variable (g f) in
/-- One layer over another one. A gap under the upper layer must be one under the lower layer. -/
def atop (hgap : ∀ t, g.Gap (g.mask t) → f.Gap t) : Layer where
  mask t := g.mask (f.mask t)
  special c := f.special c || g.special c
  stands c := f.stands c && g.stands c
  Cut x y := f.Cut x y ∧ g.Cut (f.mask x) (f.mask y)
  Apart x y := f.Apart x y ∧ g.Apart (f.mask x) (f.mask y)
  Swallows x := f.Swallows x ∨ g.Swallows (f.mask x)
  Fine t := f.Fine t ∧ g.Fine (f.mask t)
  Gap := g.Gap
  maskedForm t := (f.maskedForm t).trans (g.maskedForm _)
  special_visible c h := by
    rcases Bool.or_eq_true_iff.mp h with h | h
    · exact f.special_visible c h
    · exact g.special_visible c h
  stands_visible c h := f.stands_visible c (Bool.and_eq_true_iff.mp h).1
  mask_append h := by rw [f.mask_append h.1, g.mask_append h.2]
  fine_of_cut hfine h := by
    have hf := f.fine_of_cut hfine.1 h.1
    have hg := hfine.2
    rw [f.mask_append h.1] at hg
    have hg := g.fine_of_cut hg h.2
    exact ⟨⟨hf.1, hg.1⟩, hf.2, hg.2⟩
  apart_of_cut hfine h := by
    have hg := hfine.2
    rw [f.mask_append h.1] at hg
    exact ⟨f.apart_of_cut hfine.1 h.1, g.apart_of_cut hg h.2⟩
  cut_of_apart := by
    rintro x y ⟨hf, hg⟩ hloose hswallows
    exact ⟨f.cut_of_apart hf (loose_lower hloose) fun h => hswallows (.inl h),
      g.cut_of_apart hg (loose_upper hloose) fun h => hswallows (.inr h)⟩
  apart_of_append_left := by
    rintro x x' y ⟨hf, hg⟩ ⟨hfa, hga⟩
    rw [f.mask_append hf] at hga
    have hf := f.apart_of_append_left hf hfa
    have hg := g.apart_of_append_left hg hga
    exact ⟨⟨hf.1, hg.1⟩, hf.2, hg.2⟩
  apart_of_append_right := by
    rintro x y y' ⟨hf, hg⟩ ⟨hfa, hga⟩
    rw [f.mask_append hf] at hga
    have hf := f.apart_of_append_right hf hfa
    have hg := g.apart_of_append_right hg hga
    exact ⟨⟨hf.1, hg.1⟩, hf.2, hg.2⟩
  apart_append_left := by
    rintro x x' y ⟨hf, hg⟩ hloose ⟨hfa, hga⟩ ⟨hfa', hga'⟩
    refine ⟨f.apart_append_left hf (loose_lower hloose) hfa hfa', ?_⟩
    rw [f.mask_append hf]
    exact g.apart_append_left hg (loose_upper hloose) hga hga'
  apart_append_right := by
    rintro x y y' ⟨hf, hg⟩ hloose ⟨hfa, hga⟩ ⟨hfa', hga'⟩
    refine ⟨f.apart_append_right hf (loose_lower hloose) hfa hfa', ?_⟩
    rw [f.mask_append hf]
    exact g.apart_append_right hg (loose_upper hloose) hga hga'
  apart_separator := by
    intro s hs x
    have hf := f.apart_separator hs x
    have hg := g.apart_separator (fun c hc => (f.maskedForm s).isSeparator_of_mem hs hc) (f.mask x)
    exact ⟨⟨hf.1, hg.1⟩, hf.2, hg.2⟩
  swallows_append := by
    rintro x y ⟨hf, hg⟩ hy (h | h)
    · exact .inl (f.swallows_append hf hy h)
    · rw [f.mask_append hf] at h
      exact .inr (g.swallows_append hg ((f.maskedForm y).ne_nil hy) h)
  not_swallows_of_visible := by
    rintro x c hc hv (h | h)
    · have hc' := ((g.maskedForm _).isBlank_or_getLast? hc).resolve_left (by simp [hv])
      exact f.not_swallows_of_visible hc' hv h
    · exact g.not_swallows_of_visible hc hv h
  not_swallows_separator := by
    rintro s hs (h | h)
    · exact f.not_swallows_separator hs h
    · exact g.not_swallows_separator (fun c hc => (f.maskedForm s).isSeparator_of_mem hs hc) h
  cut_at := by
    intro t a b hfine hmask hseam
    have hstands (c : Char) (hc : f.stands c && g.stands c) := Bool.and_eq_true_iff.mp hc
    obtain ⟨x', y', hmask', rfl, rfl, hcut'⟩ := g.cut_at hfine.2 hmask (hseam.of_mask (.refl _) (.refl _)
      (fun c hc => ⟨(hstands c hc).2, f.stands_visible c (hstands c hc).1⟩) id id)
    obtain ⟨x, y, rfl, rfl, rfl, hcut⟩ := f.cut_at hfine.1 hmask' (hseam.of_mask (g.maskedForm x') (g.maskedForm y')
      (fun c hc => ⟨(hstands c hc).1, f.stands_visible c (hstands c hc).1⟩) (hgap x') (hgap y'))
    exact ⟨x, y, rfl, rfl, rfl, hcut, hcut'⟩

variable {hgap : ∀ t, g.Gap (g.mask t) → f.Gap t}

lemma mask_atop (t : Text) : (g.atop f hgap).mask t = g.mask (f.mask t) := rfl

lemma gap_atop (t : Text) : (g.atop f hgap).Gap t = g.Gap t := rfl

lemma stands_atop (c : Char) : (g.atop f hgap).stands c = (f.stands c && g.stands c) := rfl

lemma special_atop (c : Char) : (g.atop f hgap).special c = (f.special c || g.special c) := rfl

lemma swallows_atop (x : Text) : (g.atop f hgap).Swallows x = (f.Swallows x ∨ g.Swallows (f.mask x)) := rfl

lemma cut_atop (x y : Text) : (g.atop f hgap).Cut x y = (f.Cut x y ∧ g.Cut (f.mask x) (f.mask y)) := rfl

lemma apart_atop (x y : Text) : (g.atop f hgap).Apart x y = (f.Apart x y ∧ g.Apart (f.mask x) (f.mask y)) := rfl

lemma fine_atop (t : Text) : (g.atop f hgap).Fine t = (f.Fine t ∧ g.Fine (f.mask t)) := rfl

/-! ## Putting parts together -/

lemma isSeparator_of_isBlank {s : Text} (h : ∀ c ∈ s, isBlank c) : ∀ c ∈ s, isSeparator c :=
  fun c hc => by simp [isSeparator, h c hc]

section

variable (f : Layer) {x y s t : Text}

lemma special_of_isBlank {c : Char} (h : isBlank c) : f.special c = false := by
  by_contra hspecial
  rw [f.special_visible c (by simpa using hspecial)] at h
  cases h

/-- What ends with a blank and only divides parts is read apart from what follows. -/
lemma cut_separator (hs : ∀ c ∈ s, isSeparator c) (hlast : ∀ c, s.getLast? = some c → isBlank c)
    (y : Text) : f.Cut s y :=
  f.cut_of_apart (f.apart_separator hs y).2 (.inl hlast) (f.not_swallows_separator hs)

/-- Text that ends in no line comment is read apart from a divider after it. -/
lemma cut_before_separator (hx : ¬ f.Swallows x) (hs : ∀ c ∈ s, isSeparator c)
    (hhead : ∀ c, s.head? = some c → f.special c = false) : f.Cut x s :=
  f.cut_of_apart (f.apart_separator hs x).1 (.inr hhead) hx

lemma cut_before_blanks (hx : ¬ f.Swallows x) (hs : ∀ c ∈ s, isBlank c) : f.Cut x s :=
  f.cut_before_separator hx (isSeparator_of_isBlank hs) fun c hc => f.special_of_isBlank (hs c (mem_of_head? hc))

lemma cut_space (y : Text) : f.Cut [' '] y :=
  f.cut_separator (by simp [isSeparator, isBlank]) (by simp [isBlank]) y

lemma mask_space (y : Text) : f.mask (' ' :: y) = ' ' :: f.mask y := by
  have hspace : f.mask [' '] = [' '] := by
    obtain ⟨c, hc⟩ := length_eq_one_iff.mp (f.maskedForm [' ']).length_eq
    by_cases hne : c = ' '
    · rw [hc, hne]
    · obtain ⟨_, heq, _⟩ := (hc ▸ f.maskedForm [' ']).cons_inv hne
      exact absurd (cons_eq_cons.mp heq).1.symm hne
  rw [← singleton_append, f.mask_append (f.cut_space y), hspace]
  rfl

/-- Text that ends in no line comment stays apart from what follows behind a blank. -/
lemma cut_before_space (hx : ¬ f.Swallows x) (hapart : f.Apart x y) : f.Cut x (' ' :: y) := by
  have hblank : isBlank ' ' := by decide
  refine f.cut_of_apart ?_ (.inr ?_) hx
  · refine f.apart_append_right (y := [' ']) (f.cut_space y) (.inl (by simp [hblank])) ?_ hapart
    exact (f.apart_separator (by simp [isSeparator, hblank]) x).1
  · rintro c ⟨⟩
    exact f.special_of_isBlank hblank

section Cuts

variable {a b g : Text} {c : Char} (hfine : f.Fine t)

include hfine

lemma cut_before (hmask : f.mask t = a ++ c :: b) (hstands : f.stands c) :
    ∃ x y, t = x ++ c :: y ∧ f.mask x = a ∧ f.mask (c :: y) = c :: b ∧ f.Cut x (c :: y) := by
  obtain ⟨x, y, rfl, hx, hy, hcut⟩ := f.cut_at hfine hmask (.before a b hstands)
  obtain ⟨y, rfl, -⟩ := (hy ▸ f.maskedForm y).cons_inv
    (by rintro rfl; exact absurd (f.stands_visible _ hstands) (by decide))
  exact ⟨x, y, rfl, hx, hy, hcut⟩

lemma cut_end (hmask : f.mask t = a ++ g) (hgap : f.Gap g) (hlast : ∀ c, a.getLast? = some c → isBlank c = false) :
    ∃ x y, t = x ++ y ∧ f.mask x = a ∧ f.mask y = g ∧ f.Cut x y :=
  f.cut_at hfine hmask (.ahead hgap hlast)

lemma cut_start (hmask : f.mask t = g ++ b) (hgap : f.Gap g) (hhead : ∀ c, b.head? = some c → isBlank c = false) :
    ∃ x y, t = x ++ y ∧ f.mask x = g ∧ f.mask y = b ∧ f.Cut x y :=
  f.cut_at hfine hmask (.behind hgap hhead)

end Cuts

/-- A text falls into parts before and after a visible character that belongs to no group. -/
lemma cut_around {a b : Text} {c : Char} (hfine : f.Fine t) (hmask : f.mask t = a ++ c :: b) (hstands : f.stands c)
    (hword : isWordChar c = false) :
    ∃ x y, t = x ++ c :: y ∧ f.mask x = a ∧ f.mask y = b ∧ f.Cut x (c :: y) ∧ f.Cut [c] y := by
  obtain ⟨x, y, rfl, hx, hy, hcut⟩ := f.cut_before hfine hmask hstands
  obtain ⟨x', y', heq, hx', hy', hcut'⟩ :=
    f.cut_at (f.fine_of_cut hfine hcut).2 (a := [c]) hy (.after [] b hstands hword)
  obtain ⟨d, rfl⟩ := length_eq_one_iff.mp (hx' ▸ (f.maskedForm x').length_eq.symm)
  obtain ⟨rfl, rfl⟩ := cons_eq_cons.mp heq
  exact ⟨x, y, rfl, hx, hy', hcut, hcut'⟩

/-- The first text is within the second one: whatever is apart from the second one is apart from the first one. -/
structure Within (x t : Text) : Prop where
  left : ∀ z, f.Apart t z → f.Apart x z
  right : ∀ z, f.Apart z t → f.Apart z x

variable {f}

lemma Within.refl (t : Text) : f.Within t t := ⟨fun _ => id, fun _ => id⟩

lemma Within.trans (h : f.Within x y) (h' : f.Within y t) : f.Within x t :=
  ⟨fun z hz => h.left z (h'.left z hz), fun z hz => h.right z (h'.right z hz)⟩

lemma within_left (h : f.Cut x y) : f.Within x (x ++ y) :=
  ⟨fun _ hz => (f.apart_of_append_left h hz).1, fun _ hz => (f.apart_of_append_right h hz).1⟩

lemma within_right (h : f.Cut x y) : f.Within y (x ++ y) :=
  ⟨fun _ hz => (f.apart_of_append_left h hz).2, fun _ hz => (f.apart_of_append_right h hz).2⟩

lemma within_separator (hs : ∀ c ∈ s, isSeparator c) (t : Text) : f.Within s t :=
  ⟨fun z _ => (f.apart_separator hs z).2, fun z _ => (f.apart_separator hs z).1⟩

lemma within_space (h : f.Within y t) : f.Within (' ' :: y) t :=
  ⟨fun z hz => f.apart_append_left (x := [' ']) (f.cut_space y) (.inl (by simp [isBlank]))
    ((within_separator (by simp [isSeparator, isBlank]) t).left z hz) (h.left z hz),
    fun z hz => f.apart_append_right (y := [' ']) (f.cut_space y) (.inl (by simp [isBlank]))
      ((within_separator (by simp [isSeparator, isBlank]) t).right z hz) (h.right z hz)⟩

lemma Within.append (hcut : f.Cut x y) (hloose : Loose f.special x y) (hx : f.Within x t) (hy : f.Within y t) :
    f.Within (x ++ y) t :=
  ⟨fun z hz => f.apart_append_left hcut hloose (hx.left z hz) (hy.left z hz),
    fun z hz => f.apart_append_right hcut hloose (hx.right z hz) (hy.right z hz)⟩

end

end Layer

end CppScaffold.Mask
