import CppScaffold.Proofs.AttributeFrames
import CppScaffold.Proofs.ParameterPrinting

/-!
# Parameter lists without default values

Default values are taken out part by part, with the blanks before them. The shorter list is read as before because both
masks show the same commas and equals signs (`alike_masks`), what is kept of a part is masked as it was
(`Layer.Trims`), and parts that leave nothing open are read one by one (`readsInParts_join`). It fails where the blanks
hold the end of a line comment.
-/

namespace CppScaffold

open Text Recognizer List Lexeme Types

/-! ## Commas and trailing blanks under a layer -/

namespace Mask.Layer

/-- A comma stands for itself and is read apart from what follows. -/
structure Commas (f : Layer) : Prop where
  mask_comma : f.mask [','] = [',']
  cut : ∀ y, f.Cut [','] y
  apart : ∀ {x y}, f.Apart x y → f.Apart x (',' :: y)

/-- Without the blanks at its end a text is masked as before, even where they belong to a comment. -/
structure Trims (f : Layer) : Prop where
  keeps : ∀ y {w}, (∀ c ∈ w, isBlank c) → f.mask y <+: f.mask (y ++ w)
  apart : ∀ {x y w}, (∀ c ∈ w, isBlank c) → f.Apart x (y ++ w) → f.Apart x y

variable {g f : Layer} {hgap : ∀ t, g.Gap (g.mask t) → f.Gap t}

lemma Commas.mask_cons (h : f.Commas) (y : Text) : f.mask (',' :: y) = ',' :: f.mask y := by
  rw [← singleton_append, f.mask_append (h.cut y), h.mask_comma, singleton_append]

lemma Commas.atop (hg : g.Commas) (hf : f.Commas) : (g.atop f hgap).Commas where
  mask_comma := by rw [mask_atop, hf.mask_comma, hg.mask_comma]
  cut y := by
    rw [cut_atop, hf.mask_comma]
    exact ⟨hf.cut y, hg.cut _⟩
  apart := by
    intro x y h
    rw [apart_atop] at h ⊢
    rw [hf.mask_cons]
    exact ⟨hf.apart h.1, hg.apart h.2⟩

lemma Trims.exists_blanks (hf : f.Trims) (y : Text) {w : Text} (hw : ∀ c ∈ w, isBlank c) :
    ∃ w', f.mask (y ++ w) = f.mask y ++ w' ∧ ∀ c ∈ w', isBlank c := by
  obtain ⟨w', hw'⟩ := hf.keeps y hw
  refine ⟨w', hw'.symm, fun c hc => ?_⟩
  have hform := f.maskedForm (y ++ w)
  rw [← hw'] at hform
  obtain ⟨u, u', heq, hu, hu'⟩ := hform.append_inv
  obtain ⟨-, rfl⟩ := append_inj heq.symm (hu.length_eq.symm.trans (f.maskedForm y).length_eq)
  by_cases hspace : c = ' '
  · rw [hspace]
    decide
  · obtain ⟨i, hi⟩ := getElem?_of_mem hc
    exact hw c (mem_of_getElem? (hu'.getElem?_of_visible hi hspace))

lemma Trims.atop (hg : g.Trims) (hf : f.Trims) : (g.atop f hgap).Trims where
  keeps y w hw := by
    obtain ⟨w', hmask, hw'⟩ := hf.exists_blanks y hw
    rw [mask_atop, mask_atop, hmask]
    exact hg.keeps _ hw'
  apart := by
    intro x y w hw h
    obtain ⟨w', hmask, hw'⟩ := hf.exists_blanks y hw
    rw [apart_atop, hmask] at h
    exact ⟨hf.apart hw h.1, hg.apart hw' h.2⟩

lemma trims_of_not_swallows (h : ∀ x, ¬ f.Swallows x) : f.Trims where
  keeps y w hw := by
    rw [f.mask_append (f.cut_before_blanks (h y) hw)]
    exact prefix_append ..
  apart hw hapart := (f.apart_of_append_right (f.cut_before_blanks (h _) hw) hapart).1

lemma commas_groups {left right : Char} {gap : Char → Bool} {hd : Delimiters left right}
    {hseparator : isSeparator left = false ∧ isSeparator right = false}
    {hgap : gap left = false ∧ gap right = false ∧ gap '\\' = false} :
    (groups left right gap hd hseparator hgap).Commas := by
  have hordinary : IsOrdinary left right ',' := by
    refine ⟨?_, ?_, by decide⟩
    · rintro rfl
      exact absurd hseparator.1 (by decide)
    · rintro rfl
      exact absurd hseparator.2 (by decide)
  have hmarks : ∀ y, marks left right false (',' :: y) = .other :: marks left right false y := by
    simp [marks, markOf_of_isOrdinary hordinary]
  refine ⟨?_, fun y => ⟨?_, ?_⟩, ?_⟩
  · show balanced left right [','] true = [',']
    rw [balanced_eq hd, render, hmarks]
    rfl
  · rw [singleton_append, hmarks, hmarks]
    rfl
  · exact .inl (by rw [hmarks]; rfl)
  · intro x y h
    show opens _ = 0 ∨ closes (marks left right false (',' :: y)) = 0
    rwa [hmarks]

lemma steady_comma {r : Recognizer} (h : ∀ y, r none (',' :: y) = none) (y : Text) : Steady r [','] y := by
  intro x₁ x₂ hx hne
  obtain rfl : x₂ = [','] := by
    cases x₁ with
    | nil => exact hx.symm
    | cons c x₁ => exact absurd (append_eq_nil_iff.mp (cons_eq_cons.mp hx).2.symm).2 hne
  rw [singleton_append, h, h]

lemma commas_attributes (gap : Char → Bool) : (attributes gap).Commas where
  mask_comma := by
    show Mask.attributes [','] false = [',']
    decide
  cut := steady_comma fun y => rfl
  apart := by
    intro x y h hopens hcloses
    exact h hopens ((infix_cons_iff.mp hcloses).resolve_left (by simp))

lemma commas_comparisons (gap : Char → Bool) : (comparisons gap).Commas where
  mask_comma := by
    show Mask.comparisons [','] = [',']
    decide
  cut := by
    refine steady_comma fun y => ?_
    unfold comparisonOperator
    split
    next heq =>
      cases heq
      rfl
    next => rfl
  apart := fun _ => trivial

lemma commas_literals : literals.Commas where
  mask_comma := by decide
  cut y := by rfl
  apart := by
    intro x y h
    refine ⟨fun q hq hopens hmem => ?_, fun hopens hcloses => ?_⟩
    · rcases mem_cons.mp hmem with rfl | hmem
      · exact absurd hq (by decide)
      · exact h.quote q hq hopens hmem
    · exact h.comment hopens ((infix_cons_iff.mp hcloses).resolve_left (by simp))

lemma trims_literals : literals.Trims where
  keeps y w hw := by
    show replaceTokens chooseAll all y <+: replaceTokens chooseAll all (y ++ w)
    induction y using scan_induction with
    | nil => exact nil_prefix
    | plain c rest hnone ih =>
      have hnone' : tokenAt c (rest ++ w) = none := by
        refine tokenAt_eq_none_append hnone (literals.apart_separator (isSeparator_of_isBlank hw) _).1 (.inr fun d hd => ?_)
        exact literals.special_of_isBlank (hw d (mem_of_head? hd))
      rw [replaceTokens_eq] at ih ⊢
      rw [cons_append, scan_plain hnone, replaceTokens_eq, scan_plain hnone', flatMap_cons, flatMap_cons]
      exact (prefix_append_right_inj _).mpr ih
    | token c rest kind n htoken ih =>
      have hle := (tokenAt_bounds htoken).2
      rw [replaceTokens_eq] at ih ⊢
      by_cases hline : kind = .lineComment → n < rest.length
      · rw [cons_append, scan_token htoken, replaceTokens_eq,
          scan_token (tokenAt_append htoken w hline), flatMap_cons, flatMap_cons,
          take_append_of_le_length hle, drop_append_of_le_length hle]
        exact (prefix_append_right_inj _).mpr ih
      · -- a line comment up to the end of the text goes on up to the end of the line
        obtain ⟨rfl, hlength⟩ := Classical.not_imp.mp hline
        have hstop : n = rest.length := Nat.le_antisymm hle (Nat.not_lt.mp hlength)
        obtain ⟨k, htoken'⟩ : ∃ k, tokenAt c (rest ++ w) = some (.lineComment, rest.length + k) := by
          cases tokenAt_eq_some_iff.mp htoken with
          | line more =>
            rw [length_cons] at hstop
            have hmore : (more ++ w).takeWhile (!isBreak ·) = more ++ w.takeWhile (!isBreak ·) := by
              rw [takeWhile_append, if_pos (by omega)]
            refine ⟨(w.takeWhile (!isBreak ·)).length, tokenAt_eq_some_iff.mpr ?_⟩
            have hread := TokenRead.line (more ++ w)
            rw [hmore, length_append] at hread
            rwa [length_cons, Nat.add_comm more.length, Nat.add_assoc]
        rw [cons_append, scan_token htoken, hstop, replaceTokens_eq, scan_token htoken',
          flatMap_cons, flatMap_cons, shown_comment (.inl rfl), shown_comment (.inl rfl), take_length,
          take_length_add_append, drop_length]
        exact ⟨all (w.take k) ++ _, by simp [all, scan]; rfl⟩
  apart := by
    intro x y w hw h
    exact ⟨fun q hq hopens hmem => h.quote q hq hopens (mem_append_left _ hmem),
      fun hopens hcloses => h.comment hopens (hcloses.trans (prefix_append ..).isInfix)⟩

lemma commas_parameters : parameters.Commas :=
  .atop (.atop commas_groups (.atop commas_groups (.atop commas_groups (.atop (commas_comparisons _) commas_groups))))
    (.atop (commas_attributes _) commas_literals)

lemma trims_source : source.Trims := .atop (trims_of_not_swallows fun _ => id) trims_literals

lemma trims_parameters : parameters.Trims :=
  .atop (trims_of_not_swallows fun _ => by simp [nested, swallows_atop, brackets, braces, angleBrackets, operators,
    parentheses, groups, comparisons]) trims_source

end Mask.Layer

namespace ParameterList

open Parameter Mask Layer
open Layer renaming parameters → layer

/-! ## Parts put together again -/

lemma loose_comma (x y : Text) : Loose layer.special x (',' :: y) := .inr fun _ => special_comma

/-- Parts behind commas are read one by one, if none leaves anything open and none but the last ends in a line comment. -/
lemma readsInParts_join {ks : List Text} (hne : ks ≠ []) (hcomma : ∀ k ∈ ks, ',' ∉ layer.mask k)
    (hapart : ks.Pairwise layer.Apart) (hends : ∀ k ∈ ks.dropLast, ¬ EndsInComment k) :
    ReadsInParts (join [','] ks) ks ∧ ∀ x, (∀ k ∈ ks, layer.Apart x k) → layer.Apart x (join [','] ks) := by
  induction ks with
  | nil => exact absurd rfl hne
  | cons k ks ih =>
    by_cases hks : ks = []
    · subst hks
      rw [join_singleton]
      exact ⟨.singleton (hcomma k mem_cons_self), fun x hx => hx k mem_cons_self⟩
    rw [dropLast_cons_of_ne_nil hks, forall_mem_cons] at hends
    rw [pairwise_cons] at hapart
    rw [forall_mem_cons] at hcomma
    obtain ⟨hreads, hall⟩ := ih hks hcomma.2 hapart.2 hends.2
    have hcut : layer.Cut k (',' :: join [','] ks) := by
      refine layer.cut_of_apart (commas_parameters.apart (hall k hapart.1)) (loose_comma ..) ?_
      rw [swallows_parameters]
      exact hends.1
    rw [join_cons _ _ hks]
    refine ⟨hreads.cons hcomma.1 hcut (commas_parameters.cut _), fun x hx => ?_⟩
    rw [forall_mem_cons] at hx
    exact layer.apart_append_right hcut (loose_comma ..) hx.1 (commas_parameters.apart (hall x hx.2))

/-! ## What is kept of a part -/

/-- A part without its default value and the blanks before it. -/
def kept (q : Text) : Text :=
  match find? ['='] (layer.mask q) with
  | some i => trimEnd (q.take i)
  | none => q

variable {q m t : Text} {x : Char} {qs : List Text}

lemma kept_of_notMem (h : '=' ∉ layer.mask q) : kept q = q := by
  rw [kept, find?_singleton_eq_none_iff.mpr h]

/-- What is kept of a part. -/
structure KeptOf (q k : Text) : Prop where
  /-- Under both masks it looks as before, up to blanks and the equals sign. -/
  masked : '=' ∈ layer.mask q → ∃ w b, layer.mask q = layer.mask k ++ (w ++ '=' :: b) ∧ ∀ c ∈ w, isBlank c
  mem_mask : ∀ c ∈ layer.mask k, c ∈ layer.mask q
  source : source.mask k <+: source.mask q
  written : k <+: q
  no_equals : '=' ∉ layer.mask k
  right : ∀ x, layer.Apart x q → layer.Apart x k
  left : ¬ EndsInComment k → ∀ y, layer.Apart q y → layer.Apart k y

lemma keptOf_default (hfine : layer.Fine q) (h : '=' ∈ layer.mask q) : KeptOf q (kept q) := by
  obtain ⟨a, b, hmask, ha⟩ := eq_append_cons_of_mem h
  obtain ⟨d, v, rfl, hd, hv, hcut, -⟩ :=
    layer.cut_around hfine hmask (stands_parameters rfl (by decide)) rfl
  have hkept : kept (d ++ '=' :: v) = trimEnd d := by
    have hlength : a.length = d.length := by rw [← hd, (layer.maskedForm d).length_eq]
    rw [kept, find?_singleton_eq_some_iff.mpr ⟨a, b, hmask, hlength, ha⟩]
    show trimEnd ((d ++ '=' :: v).take d.length) = _
    rw [take_left]
  rw [hkept]
  obtain ⟨w, hdw, hw⟩ := exists_eq_dropEndWhile_append isBlank d
  rw [← trimEnd] at hdw
  generalize trimEnd d = k at hdw
  subst hdw
  obtain ⟨w', hw', hblank⟩ := trims_parameters.exists_blanks k hw
  have hsource : source.mask k <+: source.mask (k ++ w) := trims_source.keeps k hw
  rw [hw'] at hd
  rw [← hd, mem_append, not_or] at ha
  have hmask := hmask.trans (by rw [← hd, append_assoc])
  refine ⟨fun _ => ⟨w', b, hmask, hblank⟩, fun c hc => ?_, ?_, ?_, ha.1, fun x hx => ?_, fun hends y hy => ?_⟩
  · rw [hmask]
    exact mem_append_left _ hc
  · rw [source.mask_append hcut.1]
    exact hsource.trans (prefix_append ..)
  · rw [append_assoc]
    exact prefix_append ..
  · exact trims_parameters.apart hw ((within_left hcut).right x hx)
  · have hblanks : layer.Cut k w := layer.cut_before_blanks (mt swallows_parameters.mp hends) hw
    exact (within_left hblanks).left y ((within_left hcut).left y hy)

lemma keptOf_kept (hfine : layer.Fine q) : KeptOf q (kept q) := by
  by_cases h : '=' ∈ layer.mask q
  · exact keptOf_default hfine h
  · rw [kept_of_notMem h]
    exact ⟨fun h' => absurd h' h, fun _ => id, prefix_rfl, prefix_rfl, h, fun _ => id, fun _ _ => id⟩

/-! ## The parts that the remover finds -/

/-- Characters other than blanks and brackets are found in both masked texts. -/
lemma eq_iff_of_alike {c d : Char} (h : Alike c d) (hx : x ≠ '[' ∧ x ≠ ']' ∧ x ≠ ' ') : c = x ↔ d = x := by
  rcases h with rfl | ⟨rfl | rfl, rfl⟩
  · rfl
  · exact iff_of_false hx.1.symm hx.2.2.symm
  · exact iff_of_false hx.2.1.symm hx.2.2.symm

lemma mem_alike {m' : Text} (h : List.Forall₂ Alike m m') (hx : x ≠ '[' ∧ x ≠ ']' ∧ x ≠ ' ') : x ∈ m ↔ x ∈ m' := by
  induction h with
  | nil => rfl
  | cons hcd _ ih => rw [mem_cons, mem_cons, ih, eq_comm, eq_iff_of_alike hcd hx, eq_comm]

lemma find?_alike {m' : Text} (h : List.Forall₂ Alike m m') (hx : x ≠ '[' ∧ x ≠ ']' ∧ x ≠ ' ') :
    find? [x] m = find? [x] m' := by
  induction h with
  | nil => rfl
  | @cons c d m m' hcd _ ih =>
    have hiff : [x].isPrefixOf (c :: m) = [x].isPrefixOf (d :: m') := by
      have hcd := eq_iff_of_alike hcd hx
      rw [eq_comm, eq_comm (a := d)] at hcd
      rw [Bool.eq_iff_iff, isPrefixOf_iff_prefix, isPrefixOf_iff_prefix, cons_prefix_cons, cons_prefix_cons,
        hcd]
      simp
    rw [Text.find?_cons, Text.find?_cons, hiff, ih]

lemma withoutDefaults_cons (h : List.Forall₂ Alike m (layer.mask q)) (rest : Text) (ms : List Text) :
    withoutDefaults (q ++ rest) (m :: ms) = kept q :: withoutDefaults (rest.drop 1) ms := by
  have hlength : m.length = q.length := h.length_eq.trans (layer.maskedForm q).length_eq
  have hdrop : (q ++ rest).drop (m.length + 1) = rest.drop 1 := by rw [hlength, drop_length_add_append]
  rw [withoutDefaults, hdrop, find?_alike h (by decide), kept]
  cases hfind : find? ['='] (layer.mask q) with
  | none => rw [hlength, take_left]
  | some i =>
    have hle : i ≤ q.length := by
      obtain ⟨a, b, hmask, rfl, -⟩ := find?_singleton_eq_some_iff.mp hfind
      rw [← (layer.maskedForm q).length_eq, hmask, length_append]
      exact Nat.le_add_right ..
    show trimEnd ((q ++ rest).take i) :: _ = trimEnd (q.take i) :: _
    rw [take_append_of_le_length hle]

lemma withoutDefaults_join (hne : qs ≠ []) (hcomma : ∀ q ∈ qs, ',' ∉ layer.mask q)
    (h : List.Forall₂ Alike m (join [','] (qs.map layer.mask))) :
    withoutDefaults (join [','] qs) (splitAtChar ',' m) = qs.map kept := by
  induction qs generalizing m with
  | nil => exact absurd rfl hne
  | cons q qs ih =>
    rw [forall_mem_cons] at hcomma
    by_cases hqs : qs = []
    · subst hqs
      rw [map_singleton, join_singleton] at h
      have hcons := withoutDefaults_cons h [] []
      rw [append_nil] at hcons
      rw [splitAtChar_of_notMem ((mem_alike h (by decide)).not.mpr hcomma.1), join_singleton, hcons]
      rfl
    · rw [map_cons, join_cons _ _ (by simpa using hqs)] at h
      have hfirst := forall₂_take_append _ _ _ h
      have hrest := forall₂_drop_append _ _ _ h
      have hsplit := take_append_drop (layer.mask q).length m
      generalize m.take (layer.mask q).length = m₁ at hfirst hsplit
      generalize m.drop (layer.mask q).length = m₂ at hrest hsplit
      subst hsplit
      cases hrest with
      | @cons c _ m₂ _ hc hrest =>
        obtain rfl := (eq_iff_of_alike hc (by decide)).mpr rfl
        rw [splitAtChar_append, splitAtChar_of_notMem ((mem_alike hfirst (by decide)).not.mpr hcomma.1),
          singleton_append, join_cons _ _ hqs, singleton_append, withoutDefaults_cons hfirst, drop_one, tail_cons, ih hqs hcomma.2 hrest, map_cons]

/-! ## What is read from a part -/

/-- What a parameter declares: its type, its name and where the name belongs. -/
def declared (p : Parameter) : Text × Text × Nat := (p.type, p.name, p.nameIndex)

lemma declared_ofPiece {raw partlyMasked head r b : Text} {range : Range} (hhead : Trimmed head)
    (hequals : '=' ∉ head) (hr : ∀ c ∈ r, isBlank c) :
    declared (ofPiece raw partlyMasked (head ++ (r ++ '=' :: b)) range) =
      splitDeclaration (raw.take head.length) (partlyMasked.take head.length) head := by
  have hnot : '=' ∉ head ++ r :=
    fun hmem => (mem_append.mp hmem).elim hequals fun hmem => absurd (hr _ hmem) (by decide)
  have hfind : find? ['='] (head ++ (r ++ '=' :: b)) = some (head ++ r).length :=
    find?_singleton_eq_some_iff.mpr ⟨head ++ r, b, by rw [append_assoc], rfl, hnot⟩
  have htrim : trimEnd ((head ++ (r ++ '=' :: b)).take (head ++ r).length) = head := by
    rw [← append_assoc, take_left]
    exact hhead.trimEnd_append [] hr
  rw [ofPiece, hfind]
  simp only [htrim]
  rfl

lemma take_extract (t : Text) {start n m : Nat} (h : n ≤ m) :
    (extract t ⟨start, start + m⟩).take n = extract t ⟨start, start + n⟩ := by
  rw [Text.extract, between, Text.extract, between, Nat.add_sub_cancel_left, Nat.add_sub_cancel_left, take_take,
    Nat.min_eq_left h]

lemma readPart_of_head {l head r rest : Text} (hmask : layer.mask q = l ++ (head ++ (r ++ rest)))
    (hl : ∀ c ∈ l, isBlank c) (hr : ∀ c ∈ r, isBlank c) (hhead : Trimmed head) (hequals : '=' ∉ head)
    (hrest : rest = [] ∨ ∃ b, rest = '=' :: b) :
    ∃ p, readPart q = some p ∧
      declared p = splitDeclaration (extract q ⟨l.length, l.length + head.length⟩)
        (extract (source.mask q) ⟨l.length, l.length + head.length⟩) head ∧
      (rest = [] → p.defaultValue = []) := by
  rcases hrest with rfl | ⟨b, rfl⟩
  · rw [append_nil] at hmask
    refine ⟨_, readPart_of_core hmask hl hr hhead, ?_, fun _ => ?_⟩
    · rw [ofPiece, find?_singleton_eq_none_iff.mpr hequals]
      rfl
    · rw [ofPiece, find?_singleton_eq_none_iff.mpr hequals]
  · obtain ⟨b, w, rfl, hw, hb⟩ := exists_core_cons (c := '=') rfl b
    have hcore : Trimmed (head ++ (r ++ '=' :: b)) := by
      refine ⟨by simp, fun c hc => hhead.head c ?_, fun c hc => hb.last c ?_⟩
      · rwa [head?_append_of_ne_nil _ hhead.ne_nil] at hc
      · rwa [getLast?_append_of_ne_nil _ (by simp), getLast?_append_of_ne_nil _ (by simp)] at hc
    have hsplit : layer.mask q = l ++ ((head ++ (r ++ '=' :: b)) ++ w) := by simp [hmask]
    refine ⟨_, readPart_of_core hsplit hl hw hcore, ?_, fun h => absurd h (cons_ne_nil _ _)⟩
    rw [declared_ofPiece hhead hequals hr, take_extract _ (by simp), take_extract _ (by simp)]

lemma readPart_of_equals {l b : Text} (hmask : layer.mask q = l ++ '=' :: b) (hl : ∀ c ∈ l, isBlank c) :
    ∃ p, readPart q = some p ∧ p.type = [] := by
  obtain ⟨b, w, rfl, hw, hb⟩ := exists_core_cons (c := '=') rfl b
  have hsplit : layer.mask q = l ++ ('=' :: b ++ w) := by simp [hmask]
  refine ⟨_, readPart_of_core hsplit hl hw hb, ?_⟩
  rfl

lemma extract_initial {x : Text} {s : Span} (h : x <+: t) (hle : s.stop ≤ x.length) : extract t s = extract x s := by
  obtain ⟨y, rfl⟩ := h
  exact extract_append_of_le hle

lemma defaultValue_of_notMem (h : '=' ∉ layer.mask q) {p : Parameter} (hp : p ∈ readPart q) :
    p.defaultValue = [] := by
  cases hblank : isAllBlank (layer.mask q) with
  | true =>
    have hnone : readPart q = none := readPart_of_blank (all_eq_true.mp hblank)
    rw [hnone] at hp
    cases hp
  | false =>
    obtain ⟨l, head, r, hmask, hl, hr, hhead⟩ := exists_core hblank
    have hequals : '=' ∉ head := by
      intro hmem
      refine h ?_
      rw [hmask]
      simp [hmem]
    have hsplit : layer.mask q = l ++ (head ++ (r ++ [])) := by simp [hmask]
    obtain ⟨p', hp', -, hdefault⟩ := readPart_of_head hsplit hl hr hhead hequals (.inl rfl)
    obtain rfl := Option.some.inj (hp.symm.trans hp')
    exact hdefault rfl

/-- What is kept of a part declares what the part declares, and no default value. -/
lemma readPart_kept (hfine : layer.Fine q) (htype : ∀ p ∈ readPart q, p.type ≠ []) :
    (readPart (kept q)).map declared = (readPart q).map declared ∧ ∀ p ∈ readPart (kept q), p.defaultValue = [] := by
  by_cases hmem : '=' ∈ layer.mask q
  · have hkept := keptOf_kept hfine
    obtain ⟨w, b, hmask, hw⟩ := hkept.masked hmem
    cases hblank : isAllBlank (layer.mask (kept q)) with
    | true =>
      have hl : ∀ c ∈ layer.mask (kept q) ++ w, isBlank c :=
        forall_mem_append.mpr ⟨all_eq_true.mp hblank, hw⟩
      obtain ⟨p, hp, hnil⟩ := readPart_of_equals (by rw [hmask, append_assoc]) hl
      exact absurd hnil (htype p hp)
    | false =>
      obtain ⟨l, head, r, hkeptMask, hl, hr, hhead⟩ := exists_core hblank
      have hequals : '=' ∉ head := by
        intro h
        refine hkept.no_equals ?_
        rw [hkeptMask]
        simp [h]
      have hstop : l.length + head.length ≤ (kept q).length := by
        rw [← (layer.maskedForm (kept q)).length_eq, hkeptMask, length_append, length_append]
        omega
      have hsplit : layer.mask q = l ++ (head ++ ((r ++ w) ++ '=' :: b)) := by simp [hmask, hkeptMask]
      obtain ⟨p, hp, hdeclared, -⟩ :=
        readPart_of_head hsplit hl (forall_mem_append.mpr ⟨hr, hw⟩) hhead hequals (.inr ⟨b, rfl⟩)
      have hkeptSplit : layer.mask (kept q) = l ++ (head ++ (r ++ [])) := by simp [hkeptMask]
      obtain ⟨p', hp', hdeclared', hdefault⟩ := readPart_of_head hkeptSplit hl hr hhead hequals (.inl rfl)
      rw [extract_initial hkept.written hstop,
        extract_initial hkept.source (hstop.trans_eq (source.maskedForm (kept q)).length_eq.symm), ← hdeclared']
        at hdeclared
      rw [hp, hp']
      exact ⟨by rw [Option.map_some, Option.map_some, hdeclared], by simpa using hdefault rfl⟩
  · rw [kept_of_notMem hmem]
    exact ⟨rfl, fun p hp => defaultValue_of_notMem hmem hp⟩

/-! ## The dots at the end -/

/-- Dots are found at the end of a list only if they are its last part. -/
lemma search?_of_parts (h : ReadsInParts t (qs ++ [q])) (hq : ¬ IsDots (layer.mask q)) :
    search? variadicTail (layer.mask t) = none := by
  rw [Option.eq_none_iff_forall_ne_some]
  intro s hs
  have hcomma := h.no_comma q (by simp)
  rw [h.masked, map_append, map_singleton] at hs
  by_cases hqs : qs = []
  · rw [hqs, map_nil, nil_append, join_singleton, ← nil_append (layer.mask q)] at hs
    exact hq (isDots_of_search? hs (.inl rfl) hcomma)
  · rw [join_concat _ (by simpa using hqs), ← append_assoc] at hs
    exact hq (isDots_of_search? hs (.inr ⟨_, rfl⟩) hcomma)

lemma readPart_of_dots (hfine : layer.Fine q) (hmem : '=' ∈ layer.mask q)
    (hdots : IsDots (layer.mask (kept q))) : ∃ p, readPart q = some p ∧ p.type = "..." ∧ p.name = [] := by
  obtain ⟨w, b, hmask, hw⟩ := (keptOf_kept hfine).masked hmem
  obtain ⟨l, r, hkeptMask, hl, hr⟩ := hdots
  have hsplit : layer.mask q = l ++ ("..." ++ ((r ++ w) ++ '=' :: b)) := by simp [hmask, hkeptMask]
  obtain ⟨p, hp, hdeclared, -⟩ :=
    readPart_of_head hsplit hl (forall_mem_append.mpr ⟨hr, hw⟩) trimmed_dots (by decide) (.inr ⟨b, rfl⟩)
  have hwritten : extract q ⟨l.length, l.length + "...".toList.length⟩ = "..." := by
    refine eq_dots_of_maskedForm ?_
    have hform := ((layer.maskedForm q).drop l.length).take "...".toList.length
    rw [hmask, hkeptMask] at hform
    simp only [append_assoc] at hform
    rw [drop_left] at hform
    rwa [Text.extract, between, Nat.add_sub_cancel_left]
  have hunnamed : ∀ d partlyMasked, splitDeclaration d partlyMasked "...".toList = (d, [], d.length) := fun _ _ => rfl
  rw [hwritten] at hdeclared
  exact ⟨p, hp, congrArg Prod.fst hdeclared, congrArg (fun d => d.2.1) hdeclared⟩

/-! ## Lists without default values -/

lemma pairwise_kept (hfine : ∀ q ∈ qs, layer.Fine q) (hapart : qs.Pairwise layer.Apart)
    (hends : ∀ k ∈ (qs.map kept).dropLast, ¬ EndsInComment k) : (qs.map kept).Pairwise layer.Apart := by
  induction qs with
  | nil => exact .nil
  | cons q qs ih =>
    rw [forall_mem_cons] at hfine
    rw [pairwise_cons] at hapart
    by_cases hqs : qs = []
    · rw [hqs]
      exact pairwise_singleton ..
    rw [map_cons, dropLast_cons_of_ne_nil (by simpa using hqs), forall_mem_cons] at hends
    refine pairwise_cons.mpr ⟨fun k hk => ?_, ih hfine.2 hapart.2 hends.2⟩
    obtain ⟨q', hq', rfl⟩ := mem_map.mp hk
    exact (keptOf_kept hfine.1).left hends.1 _ ((keptOf_kept (hfine.2 q' hq')).right _ (hapart.1 q' hq'))

lemma filterMap_kept (hfine : ∀ q ∈ qs, layer.Fine q) (htype : ∀ p ∈ qs.filterMap readPart, p.type ≠ []) :
    ((qs.map kept).filterMap readPart).map declared = (qs.filterMap readPart).map declared ∧
      ∀ p ∈ (qs.map kept).filterMap readPart, p.defaultValue = [] := by
  have hkept : ∀ q ∈ qs, (readPart (kept q)).map declared = (readPart q).map declared ∧
      ∀ p ∈ readPart (kept q), p.defaultValue = [] :=
    fun q hq => readPart_kept (hfine q hq) fun p hp => htype p (mem_filterMap.mpr ⟨q, hq, hp⟩)
  constructor
  · rw [filterMap_map, map_filterMap, map_filterMap]
    refine filterMap_congr fun q hq => ?_
    simp only [Function.comp_apply]
    exact (hkept q hq).1
  · intro p hp
    obtain ⟨k, hk, hp⟩ := mem_filterMap.mp hp
    obtain ⟨q, hq, rfl⟩ := mem_map.mp hk
    exact (hkept q hq).2 p hp

def keptParts (t : Text) : List Text := withoutDefaults t (splitAtChar ',' (nestedGroups (nonSource t true)))

lemma keptParts_eq (h : ReadsInParts t qs)
    (hunescaped : attributesUnescaped (replaceTokens chooseAll all t)) : keptParts t = qs.map kept := by
  have halike := alike_masks hunescaped
  rw [← mask_parameters, h.masked] at halike
  rw [keptParts]
  nth_rewrite 1 [h.written]
  exact withoutDefaults_join h.ne_nil h.no_comma halike

/-- A list whose default values can be taken out. -/
structure Strippable (t : Text) : Prop where
  /-- What is begun and not closed stays open. -/
  settled : isSettled t
  /-- No attribute stands behind a backslash. -/
  unescaped : attributesUnescaped (replaceTokens chooseAll all t)
  declared : ∀ p ∈ (parse t).parameters, p.type ≠ []
  dots : ∀ p ∈ (parse t).parameters.getLast?, p.type = "..." → p.name = "..."
  /-- No comment goes on up to a comma. -/
  uncommented : ∀ k ∈ (keptParts t).dropLast, ¬ EndsInComment k

lemma stripDefaultValues_eq (t : Text) : stripDefaultValues t = join [','] (keptParts t) := rfl

lemma readsInParts_stripDefaultValues (h : Strippable t) (hreads : ReadsInParts t qs)
    (hfine : ∀ q ∈ qs, layer.Fine q) (hapart : qs.Pairwise layer.Apart) :
    ReadsInParts (stripDefaultValues t) (qs.map kept) := by
  have hparts := keptParts_eq hreads h.unescaped
  have huncommented := h.uncommented
  rw [hparts] at huncommented
  rw [stripDefaultValues_eq, hparts]
  refine (readsInParts_join (by simpa using hreads.ne_nil) (fun k hk => ?_) (pairwise_kept hfine hapart huncommented)
    huncommented).1
  obtain ⟨q, hq, rfl⟩ := mem_map.mp hk
  exact fun hmem => hreads.no_comma q hq ((keptOf_kept (hfine q hq)).mem_mask _ hmem)

/-- Dots have no default value, so nothing but dots is kept as dots. -/
lemma not_isDots_kept (h : Strippable t) (hreads : ReadsInParts t (qs ++ [q]))
    (hfine : layer.Fine q) (hq : ¬ IsDots (layer.mask q)) : ¬ IsDots (layer.mask (kept q)) := by
  intro hkept
  by_cases hmem : '=' ∈ layer.mask q
  · obtain ⟨p, hp, htype, hname⟩ := readPart_of_dots hfine hmem hkept
    have hlast : ((parse t).parameters.map unplaced).getLast? = some p := by
      rw [parameters_of_parts hreads (search?_of_parts hreads hq), filterMap_append, filterMap_cons_some hp,
        filterMap_nil, getLast?_concat]
    rw [getLast?_map] at hlast
    obtain ⟨p', hp', rfl⟩ := Option.map_eq_some_iff.mp hlast
    have hdots := h.dots p' hp' htype
    exact absurd (hdots.symm.trans hname) (by decide)
  · rw [kept_of_notMem hmem] at hkept
    exact hq hkept

lemma kept_of_isDots (h : IsDots (layer.mask q)) : kept q = q :=
  kept_of_notMem fun hmem => absurd (h.eq_or_isBlank hmem) (by decide)

lemma map_declared_unplaced (l : List Parameter) : (l.map unplaced).map declared = l.map declared := by
  rw [map_map]
  rfl

lemma keys_eq_of_declared {l l' : ParameterList} (h : l.parameters.map declared = l'.parameters.map declared) :
    l.keys = l'.keys := by
  have hkeys : ∀ k : ParameterList,
      k.keys = (k.parameters.map declared).map fun d => (Spacing.normalizeSource d.1, d.2.1) := by
    intro k
    rw [map_map]
    rfl
  rw [hkeys, hkeys, h]

/-- **Without its default values a list declares the same types and names**: it is read part by part as before. -/
theorem parse_stripDefaultValues_keeps_keys {t : Text} (h : Strippable t) :
    (parse (Types.stripDefaultValues t)).keys = (parse t).keys ∧
      ∀ p ∈ (parse (Types.stripDefaultValues t)).parameters, p.defaultValue = [] := by
  obtain ⟨qs, hreads, hqs, hapart⟩ := exists_readsInParts (fine_of_isSettled h.settled)
  have hfine : ∀ q ∈ qs, layer.Fine q := fun q hq => (hqs q hq).1
  have hstripped := readsInParts_stripDefaultValues h hreads hfine hapart
  have htype : ∀ p ∈ (parse t).parameters.map unplaced, p.type ≠ [] := by
    intro p hp
    obtain ⟨p', hp', rfl⟩ := List.mem_map.mp hp
    exact h.declared p' hp'
  -- it is enough to compare the parameters without their places
  suffices hsame : ((parse (Types.stripDefaultValues t)).parameters.map unplaced).map declared =
      ((parse t).parameters.map unplaced).map declared ∧
        ∀ p ∈ (parse (Types.stripDefaultValues t)).parameters.map unplaced, p.defaultValue = [] by
    rw [map_declared_unplaced, map_declared_unplaced] at hsame
    exact ⟨keys_eq_of_declared hsame.1, fun p hp => hsame.2 p.unplaced (List.mem_map_of_mem hp)⟩
  obtain ⟨init, q, rfl⟩ := (List.eq_nil_or_concat' qs).resolve_left hreads.ne_nil
  by_cases hdots : IsDots (layer.mask q)
  · rw [List.map_append, List.map_singleton, kept_of_isDots hdots] at hstripped
    rw [parameters_of_parts_dots hreads hdots] at htype ⊢
    obtain ⟨hsame, hdefault⟩ := filterMap_kept (fun q' hq' => hfine q' (List.mem_append_left _ hq'))
      fun p hp => htype p (List.mem_append_left _ hp)
    rw [parameters_of_parts_dots hstripped hdots, List.map_append, List.map_append, hsame]
    exact ⟨rfl, List.forall_mem_append.mpr ⟨hdefault, by simp [variadicParameter]⟩⟩
  · rw [parameters_of_parts hreads (search?_of_parts hreads hdots)] at htype ⊢
    have hafter := not_isDots_kept h hreads (hfine q (by simp)) hdots
    have hkept := filterMap_kept hfine htype
    rw [List.map_append] at hstripped hkept
    rwa [parameters_of_parts hstripped (search?_of_parts hstripped hafter)]

instance (t : Text) : Decidable (Strippable t) :=
  decidable_of_iff (isSettled t ∧ attributesUnescaped (replaceTokens chooseAll all t) ∧
      (∀ p ∈ (parse t).parameters, p.type ≠ []) ∧
      (∀ p ∈ (parse t).parameters.getLast?, p.type = "..." → p.name = "...") ∧
      ∀ k ∈ (keptParts t).dropLast, ¬ EndsInComment k)
    ⟨fun ⟨h₁, h₂, h₃, h₄, h₅⟩ => ⟨h₁, h₂, h₃, h₄, h₅⟩,
      fun h => ⟨h.settled, h.unescaped, h.declared, h.dots, h.uncommented⟩⟩

/-- Default values with commas and brackets, a comment before an equals sign, and dots. -/
theorem parse_stripDefaultValues_keeps_keys_variadic :
    let t := "A<int, char> a = f(1, 2), int (*g)(int) /* , */ = h, [[x]] T n = \x7b','\x7d, ..."
    Strippable t ∧ Types.stripDefaultValues t = "A<int, char> a, int (*g)(int) /* , */, [[x]] T n, ..." ∧
      (parse (Types.stripDefaultValues t)).keys = (parse t).keys ∧ (parse t).parameters.length = 4 :=
  have h : Strippable "A<int, char> a = f(1, 2), int (*g)(int) /* , */ = h, [[x]] T n = \x7b','\x7d, ..." := by decide +kernel
  ⟨h, by decide +kernel, (parse_stripDefaultValues_keeps_keys h).1, by decide +kernel⟩

/-- The comma behind a line comment belongs to the comment. -/
theorem not_parse_stripDefaultValues_keeps_keys :
    let t := "int a // c\n= 3, int b"
    Types.stripDefaultValues t = "int a // c, int b".toList ∧ (parse t).keys = [("int".toList, "a".toList), ("int".toList, "b".toList)] ∧
      (parse (Types.stripDefaultValues t)).keys = [("int".toList, "a".toList)] := by
  decide +kernel

end ParameterList

end CppScaffold
