import CppScaffold.Proofs.ParameterReading

/-!
# Declarations put together again

A declaration that is taken apart and put together with another separator before the name has the same name and, but
for blanks, the same type (`partsOf_compose`).
-/

namespace CppScaffold

open Text Recognizer Mask List Mask.Layer Lexeme Spacing
open Layer renaming parameters → layer

namespace Parameter

/-! ## Words under the mask -/

lemma notMem_of_isWordChar {c : Char} {l : List Char} (hc : isWordChar c) (hl : l.all (!isWordChar ·)) : c ∉ l := by
  intro hmem
  have := all_eq_true.mp hl c hmem
  simp [hc] at this

lemma special_of_isWordChar {c : Char} (hc : isWordChar c) : layer.special c = false := by
  by_contra hspecial
  exact notMem_of_isWordChar hc rfl (mem_of_special_parameters (by simpa using hspecial))

lemma nameSeparator_cases (head : Text) : nameSeparator head = [' '] ∨
    (nameSeparator head = [] ∧ ∀ c, head.getLast? = some c → isWordChar c = false) := by
  rw [nameSeparator]
  split
  next hnone => exact .inr ⟨rfl, by simp [hnone]⟩
  next c hc =>
    have hlast : ∀ d, head.getLast? = some d → d = c := fun d hd => Option.some.inj (hd.symm.trans hc)
    split
    next hopen =>
      refine .inr ⟨rfl, fun d hd => hlast d hd ▸ ?_⟩
      rcases Bool.or_eq_true_iff.mp hopen with h | h
      · exact isWordChar_of_isBlank h
      · rw [beq_iff_eq.mp h]
        decide
    split
    next hmark =>
      have hword : isWordChar c = false := by
        rcases Bool.or_eq_true_iff.mp hmark with h | h <;> rw [beq_iff_eq.mp h] <;> decide
      split
      · split
        · exact .inr ⟨rfl, fun d hd => hlast d hd ▸ hword⟩
        · exact .inl rfl
      · exact .inl rfl
    · exact .inl rfl

lemma isBlank_of_mem_nameSeparator (head : Text) : ∀ c ∈ nameSeparator head, isBlank c := by
  rcases nameSeparator_cases head with hs | ⟨hs, _⟩ <;> simp [hs, isBlank]

/-- The declaration that is put together from a type, a name and the place of the name. -/
def compose (parts : Text × Text × Nat) : Text :=
  if parts.2.1.isEmpty then parts.1
  else parts.1.take parts.2.2 ++ nameSeparator (parts.1.take parts.2.2) ++ parts.2.1 ++ parts.1.drop parts.2.2

def partsOf (declaration : Text) : Text × Text × Nat :=
  splitDeclaration declaration (source.mask declaration) (layer.mask declaration)

/-- A text with other blanks in it: what was apart from it stays so, and it has the same visible ends. -/
structure Respaced (t anew : Text) : Prop where
  within : layer.Within anew t
  mem_mask : ∀ c ∈ layer.mask anew, c = ' ' ∨ c ∈ layer.mask t
  head_mask : (layer.mask anew).head? = (layer.mask t).head?
  last_mask : (layer.mask anew).getLast? = (layer.mask t).getLast?

lemma Respaced.refl (t : Text) : Respaced t t := ⟨.refl t, fun _ => .inr, rfl, rfl⟩

/-! ## Names at the end -/

lemma mask_nameSeparator (s : Text) : layer.mask (nameSeparator s) = nameSeparator s := by
  rcases nameSeparator_cases s with hs | ⟨hs, _⟩ <;> rw [hs] <;> decide

section

variable {head gap y : Text} {c : Char} (hgap : ∀ c ∈ gap, isBlank c = true)
  (hcomment : ¬ Layer.parameters.Swallows head) (hc : isWordChar c = true)
  (hfine : Layer.parameters.Fine (head ++ gap ++ c :: y)) (hcut : Layer.parameters.Cut (head ++ gap) (c :: y))

include hgap

lemma special_gap (hc : gap.head? = some c) : layer.special c = false :=
  layer.special_of_isBlank (hgap c (mem_of_mem_head? hc))

include hcomment

lemma cut_gap : layer.Cut head gap := layer.cut_before_blanks hcomment hgap

omit hgap in
lemma cut_nameSeparator (s : Text) : layer.Cut head (nameSeparator s) :=
  cut_gap (isBlank_of_mem_nameSeparator s) hcomment

lemma within_nameSeparator : layer.Within (head ++ nameSeparator head) (head ++ gap) :=
  .append (cut_nameSeparator hcomment head) (.inr fun _ => special_gap (isBlank_of_mem_nameSeparator head))
    (within_left (cut_gap hgap hcomment)) (within_separator (isSeparator_of_isBlank (isBlank_of_mem_nameSeparator head)) _)

include hc hfine hcut

lemma cut_nameSeparator_word : layer.Cut (head ++ nameSeparator head) (c :: y) := by
  have hswallows : ¬ layer.Swallows (head ++ nameSeparator head) := by
    by_cases hs : nameSeparator head = []
    · rwa [hs, append_nil]
    · exact fun h => layer.not_swallows_separator (isSeparator_of_isBlank (isBlank_of_mem_nameSeparator head))
        (layer.swallows_append (cut_nameSeparator hcomment head) hs h)
  refine layer.cut_of_apart ?_ (.inr ?_) hswallows
  · exact (within_nameSeparator hgap hcomment).left _ (layer.apart_of_cut hfine hcut)
  · rintro d ⟨⟩
    exact special_of_isWordChar hc

lemma respaced_named (hhead : head ≠ []) :
    Respaced (head ++ gap ++ c :: y) (head ++ nameSeparator head ++ c :: y) := by
  have hcut' := cut_nameSeparator_word hgap hcomment hc hfine hcut
  have hmask : layer.mask (head ++ gap ++ c :: y) = layer.mask head ++ (layer.mask gap ++ layer.mask (c :: y)) := by
    rw [layer.mask_append hcut, layer.mask_append (cut_gap hgap hcomment), append_assoc]
  have hmask' : layer.mask (head ++ nameSeparator head ++ c :: y) =
      layer.mask head ++ (nameSeparator head ++ layer.mask (c :: y)) := by
    rw [layer.mask_append hcut', layer.mask_append (cut_nameSeparator hcomment head),
      mask_nameSeparator, append_assoc]
  have hne := (layer.maskedForm head).ne_nil hhead
  have hne' := (layer.maskedForm (c :: y)).ne_nil (cons_ne_nil _ _)
  refine ⟨?_, ?_, ?_, ?_⟩
  · refine .append hcut' (.inr ?_) ((within_nameSeparator hgap hcomment).trans (within_left hcut))
      (within_right hcut)
    rintro d ⟨⟩
    exact special_of_isWordChar hc
  · intro d hd
    rw [hmask', mem_append, mem_append] at hd
    rw [hmask]
    rcases hd with hd | hd | hd
    · exact .inr (mem_append_left _ hd)
    · rcases nameSeparator_cases head with hs | ⟨hs, _⟩
      · exact .inl (by simpa [hs] using hd)
      · simp [hs] at hd
    · exact .inr (mem_append_right _ (mem_append_right _ hd))
  · rw [hmask, hmask', head?_append_of_ne_nil _ hne, head?_append_of_ne_nil _ hne]
  · rw [hmask, hmask', ← append_assoc, ← append_assoc, getLast?_append_of_ne_nil _ hne',
      getLast?_append_of_ne_nil _ hne']

end

lemma partsOf_named {x y : Text} {c : Char} {n : Nat} {prev : Option Char} {parts : Text × Text × Nat}
    (hfine : layer.Fine (x ++ c :: y)) (hc : isWordChar c) (hcut : layer.Cut x (c :: y))
    (hname : nameAtEnd prev (layer.mask (c :: y)) = some n)
    (hparts : splitName (x ++ c :: y) x.length (leadingIdentifier (layer.mask (c :: y))) = some parts)
    (hcomment : ¬ layer.Swallows (parts.1.take parts.2.2)) :
    Respaced (x ++ c :: y) (compose parts) ∧ partsOf (compose parts) = parts := by
  set name := leadingIdentifier (layer.mask (c :: y)) with hnameEq
  obtain ⟨a, _, hidentifier, _, _⟩ := andThen_eq_some_iff.mp hname
  have hne : name ≠ [] := leadingIdentifier_ne_nil hidentifier
  have hwritten : name ++ (c :: y).drop name.length = c :: y := by
    have := leadingIdentifier_written (layer.maskedForm (c :: y)) 0
    simpa using this.symm
  obtain ⟨gap, hgap, hblank⟩ := exists_eq_dropEndWhile_append isBlank x
  change x = trimEnd x ++ gap at hgap
  have hsplit := hparts
  rw [splitName] at hsplit
  split at hsplit
  next hcond =>
    simp only [take_left, drop_length_add_append] at hsplit hcond
    have hhead : trimEnd x ≠ [] := by
      rintro hnil
      simp [hnil] at hcond
    obtain rfl := Option.some.inj hsplit
    simp only [take_left] at hcomment
    have hcompose : compose (trimEnd x ++ (c :: y).drop name.length, name, (trimEnd x).length) =
        trimEnd x ++ nameSeparator (trimEnd x) ++ c :: y := by
      simp only [compose, List.isEmpty_iff, hne, if_false, take_left, drop_left]
      rw [append_assoc, hwritten]
    have hfine' := hgap ▸ hfine
    have hcut' := hgap ▸ hcut
    have hcutName := cut_nameSeparator_word hblank hcomment hc hfine' hcut'
    have hprev : isWord (layer.mask (trimEnd x ++ nameSeparator (trimEnd x))).getLast? = false := by
      rw [layer.mask_append (cut_nameSeparator hcomment _), mask_nameSeparator]
      rcases nameSeparator_cases (trimEnd x) with hs | ⟨hs, hlast⟩
      · rw [hs, getLast?_concat]
        decide
      · rw [hs, append_nil]
        cases hd : (layer.mask (trimEnd x)).getLast? with
        | none => rfl
        | some d =>
          rcases (layer.maskedForm (trimEnd x)).isBlank_or_getLast? hd with hspace | hd
          · exact isWordChar_of_isBlank hspace
          · exact hlast d hd
    have htrim : trimEnd (trimEnd x ++ nameSeparator (trimEnd x)) = trimEnd x :=
      (dropEndWhile_append (isBlank_of_mem_nameSeparator _)).trans
        (dropEndWhile_eq_self fun c hc => getLast?_dropEndWhile hc)
    have hrespaced := respaced_named hblank hcomment hc hfine' hcut' hhead
    rw [← hgap] at hrespaced
    rw [hcompose]
    refine ⟨hrespaced, ?_⟩
    rw [partsOf, layer.mask_append hcutName, splitDeclaration_of_name
      (layer.maskedForm _).length_eq (by simp [hhead]) hprev hname, splitName_congr htrim, hparts]
    rfl
  · cases hsplit

/-! ## Names in nested declarators -/

/-- A declaration with its name, and perhaps comments, before the first closing parenthesis. -/
structure NestedName (declaration head inside rest name gap : Text) : Prop where
  written : declaration = head ++ (inside ++ ')' :: rest)
  cut : source.Cut head (inside ++ ')' :: rest)
  cut_inside : source.Cut head inside
  cut_rest : source.Cut (head ++ inside) (')' :: rest)
  mask_inside : source.mask inside = name ++ gap
  mask_rest : ∃ b, source.mask (')' :: rest) = ')' :: b
  mask_tokens : replaceTokens chooseAll all inside = name ++ gap
  mask_nonSource : nonSource inside true = name ++ gap
  identifier : ∃ prev i, identifierAtEnd prev (name ++ gap) = some i
  name_eq : leadingIdentifier (name ++ gap) = name
  name_ne : name ≠ []
  name_word : ∀ c ∈ name, isWordChar c
  gap_blank : ∀ c ∈ gap, isBlank c

lemma exists_nestedName {declaration : Text} {start close place i : Nat} (hfine : source.Fine declaration)
    (hstart : start ≤ declaration.length) (hclose : findAfter? [')'] (source.mask declaration) start = some close)
    (hplace : identifierAtEnd (before none (nonSource (declaration.take close) true) place)
      ((nonSource (declaration.take close) true).drop place) = some i) :
    ∃ head inside rest gap, NestedName declaration head inside rest
        (leadingIdentifier ((nonSource (declaration.take close) true).drop place)) gap ∧
      head.length = place ∧ (head ++ inside).length = close ∧ start ≤ close ∧
      ')' ∉ (source.mask (head ++ inside)).drop start := by
  have hlength : (source.mask declaration).length = declaration.length := (source.maskedForm declaration).length_eq
  obtain ⟨a, b, hmask, ha, hle, hnot⟩ := (findAfter?_singleton_eq_some_iff (hlength ▸ hstart)).mp hclose
  obtain ⟨inner, rest, rfl, hinner, hrest, hcut⟩ := source.cut_before hfine hmask (stands_source rfl (by decide))
  have hinnerLength : inner.length = close := by rw [← ha, ← hinner, (source.maskedForm inner).length_eq]
  rw [take_left' hinnerLength] at hplace ⊢
  -- the identifier and the blanks after it
  obtain ⟨k, _, hidentifier, hend, _⟩ := andThen_eq_some_iff.mp hplace
  have hname := leadingIdentifier_of_identifier hidentifier
  set shown := (nonSource inner true).drop place with hshown
  have hgap : ∀ c ∈ shown.drop k, isBlank c := (Consists.fills (consists_many fun _ => id) fills_atEnd) _ _ _ hend
  have hsplit : leadingIdentifier shown ++ shown.drop k = shown := by rw [hname, take_append_drop]
  have hword : ∀ c ∈ leadingIdentifier shown, isWordChar c := by
    rw [hname]
    exact isWordChar_of_identifier hidentifier
  have hbracket : ']' ∉ shown := by
    rw [← hsplit, mem_append]
    rintro (h | h)
    · exact absurd (hword _ h) (by decide)
    · exact absurd (hgap _ h) (by decide)
  obtain ⟨⟨t, ht⟩, ⟨a', ha'⟩⟩ := suffix_of_attributes (drop_suffix place (nonSource inner true)) hbracket
  change a' ++ shown = source.mask inner at ha'
  obtain ⟨c, b', _, hc, hcons⟩ := take_of_identifier hidentifier
  have hstands : source.stands c := by
    have hcWord := isWordChar_of_isIdentifierStart hc
    exact stands_source (isBlank_of_isWordChar hcWord) (notMem_of_isWordChar hcWord rfl)
  -- the declaration falls into parts before the identifier
  obtain ⟨head, y, rfl, hhead, hy, hcut'⟩ := source.cut_before (source.fine_of_cut hfine hcut).1
    (ha'.symm.trans (by rw [hcons])) hstands
  have hwhole : source.mask (head ++ c :: y ++ ')' :: rest) = a' ++ c :: (b' ++ ')' :: b) := by
    rw [source.mask_append hcut, hrest, ← ha', hcons]
    simp
  obtain ⟨head', y', heq, hhead', _, hcut''⟩ := source.cut_before hfine hwhole hstands
  have hheadLength : head.length = a'.length := by rw [← hhead, (source.maskedForm head).length_eq]
  have hheadLength' : head'.length = a'.length := by rw [← hhead', (source.maskedForm head').length_eq]
  rw [append_assoc] at heq
  obtain ⟨rfl, htail⟩ := append_inj heq (hheadLength.trans hheadLength'.symm)
  have hshownLength : shown.length = (c :: y).length := by rw [hcons, ← hy, (source.maskedForm (c :: y)).length_eq]
  have hplaceLength : head.length = place := by
    rw [hshown, length_drop, (maskedForm_nonSource (head ++ c :: y) true).length_eq, length_append,
      length_cons] at hshownLength
    omega
  refine ⟨head, c :: y, rest, shown.drop k, ⟨by simp, by rwa [htail], hcut', hcut, ?_, ⟨b, hrest⟩, ?_, ?_, ?_, ?_, ?_,
    hword, hgap⟩, hplaceLength, hinnerLength, hle, ?_⟩
  · rw [hsplit, hy, hcons]
  · rw [hsplit]
    have htokens : replaceTokens chooseAll all (head ++ c :: y) =
        replaceTokens chooseAll all head ++ replaceTokens chooseAll all (c :: y) := literals.mask_append hcut'.1
    rw [htokens] at ht
    refine (append_inj' ht ?_).2.symm
    rw [hshownLength, (maskedForm_replaceTokens chooseAll (c :: y)).length_eq]
  · rw [hsplit, hshown, nonSource_append hcut',
      drop_left' ((maskedForm_nonSource head true).length_eq.trans hplaceLength)]
  · rw [hsplit]
    exact ⟨_, _, hplace⟩
  · rw [hsplit]
  · exact leadingIdentifier_ne_nil hidentifier
  · rwa [hinner]

namespace NestedName

variable {declaration head inside rest name gap : Text} (h : NestedName declaration head inside rest name gap)
  (hfine : Layer.source.Fine declaration) (hcomment : ¬ Layer.source.Swallows head)

include h

lemma head?_inside {z : Text} : ∀ c, (source.mask inside ++ z).head? = some c → isWordChar c := by
  intro c hc
  rw [h.mask_inside, append_assoc, head?_append_of_ne_nil _ h.name_ne] at hc
  exact h.name_word c (mem_of_mem_head? hc)

lemma mask_tail : source.mask (inside ++ ')' :: rest) = source.mask inside ++ source.mask (')' :: rest) := by
  have hwhole := source.mask_append h.cut_rest
  rw [append_assoc, source.mask_append h.cut, source.mask_append h.cut_inside, append_assoc] at hwhole
  exact append_cancel_left hwhole

lemma scan_tail : scan (inside ++ ')' :: rest) = scan inside ++ scan (')' :: rest) := by
  have hwhole : scan (head ++ inside ++ ')' :: rest) = scan (head ++ inside) ++ scan (')' :: rest) :=
    h.cut_rest.1
  have hinside : scan (head ++ inside) = scan head ++ scan inside := h.cut_inside.1
  rw [append_assoc, hinside, append_assoc] at hwhole
  exact (scan_append_inv hwhole (flatMap_written_scan head)).2

include hfine hcomment

lemma cut_space : source.Cut head (' ' :: (inside ++ ')' :: rest)) :=
  source.cut_before_space hcomment (source.apart_of_cut (h.written ▸ hfine) h.cut)

omit hcomment in
lemma fine_inner : source.Fine (head ++ inside) := by
  refine (source.fine_of_cut ?_ h.cut_rest).1
  rwa [append_assoc, ← h.written]

lemma mask_source_space : source.mask (head ++ ' ' :: (inside ++ ')' :: rest)) =
    source.mask head ++ ' ' :: source.mask (inside ++ ')' :: rest) := by
  rw [source.mask_append (h.cut_space hfine hcomment), source.mask_space]

omit hfine hcomment in
lemma ignoresBlank : nested.IgnoresBlank (source.mask head) (source.mask (inside ++ ')' :: rest)) := by
  refine .nested ?_
  rw [h.mask_tail]
  exact h.head?_inside

lemma exists_mask : ∃ a b, layer.mask declaration = a ++ b ∧
    layer.mask (head ++ ' ' :: (inside ++ ')' :: rest)) = a ++ ' ' :: b ∧
    a.length = head.length ∧ b.length = (inside ++ ')' :: rest).length := by
  obtain ⟨a, b, hwithout, hwith, ha, hb⟩ := h.ignoresBlank.mask
  refine ⟨a, b, ?_, ?_, ?_, ?_⟩
  · rw [h.written, parameters, mask_atop, source.mask_append h.cut, hwithout]
  · rw [layer, mask_atop, h.mask_source_space hfine hcomment, hwith]
  · rw [ha.length_eq, (source.maskedForm head).length_eq]
  · rw [hb.length_eq, (source.maskedForm _).length_eq]

lemma respaced (hhead : head ≠ []) : Respaced declaration (head ++ ' ' :: (inside ++ ')' :: rest)) := by
  have hwithin : source.Within (head ++ ' ' :: (inside ++ ')' :: rest)) declaration := by
    rw [h.written]
    refine .append (h.cut_space hfine hcomment) (.inr ?_) (within_left h.cut) (within_space (within_right h.cut))
    rintro c ⟨⟩
    exact source.special_of_isBlank rfl
  obtain ⟨a, b, hwithout, hwith, ha, hb⟩ := h.exists_mask hfine hcomment
  have hane : a ≠ [] := ne_nil_of_length_pos (by rw [ha]; exact length_pos_iff.mpr hhead)
  have hbne : b ≠ [] := ne_nil_of_length_pos (by rw [hb, length_append, length_cons]; omega)
  have hmask : source.mask declaration = source.mask head ++ source.mask (inside ++ ')' :: rest) := by
    rw [h.written, source.mask_append h.cut]
  refine ⟨⟨fun z hz => ?_, fun z hz => ?_⟩, ?_, ?_, ?_⟩
  · rw [layer, apart_atop] at hz ⊢
    rw [hmask] at hz
    rw [h.mask_source_space hfine hcomment]
    exact ⟨hwithin.left z hz.1, h.ignoresBlank.apart_left _ hz.2⟩
  · rw [layer, apart_atop] at hz ⊢
    rw [hmask] at hz
    rw [h.mask_source_space hfine hcomment]
    exact ⟨hwithin.right z hz.1, h.ignoresBlank.apart_right _ hz.2⟩
  · intro c hc
    rw [hwith, mem_append, mem_cons] at hc
    rw [hwithout, mem_append]
    rcases hc with hc | hc | hc
    · exact .inr (.inl hc)
    · exact .inl hc
    · exact .inr (.inr hc)
  · rw [hwith, hwithout, head?_append_of_ne_nil _ hane, head?_append_of_ne_nil _ hane]
  · rw [hwith, hwithout, getLast?_append_of_ne_nil _ (cons_ne_nil _ _), getLast?_append_of_ne_nil _ hbne,
      getLast?_cons, getLast?_eq_some_getLast hbne]
    rfl

omit hfine hcomment in
lemma exists_written : ∃ y, inside = name ++ y := by
  have := leadingIdentifier_written (source.maskedForm inside) 0
  rw [drop_zero, h.mask_inside, h.name_eq] at this
  exact ⟨_, this⟩

omit hfine hcomment in
lemma exists_mask_source : ∃ b, source.mask declaration = source.mask (head ++ inside) ++ ')' :: b ∧
    source.mask (inside ++ ')' :: rest) = source.mask inside ++ ')' :: b := by
  obtain ⟨b, hb⟩ := h.mask_rest
  refine ⟨b, ?_, ?_⟩
  · rw [h.written, ← append_assoc, source.mask_append h.cut_rest, hb]
  · rw [h.mask_tail, hb]

omit hfine hcomment in
/-- The parentheses around the name open before it and close after it. -/
lemma around {start : Nat} {blanks rest' : Text}
    (hdrop : (layer.mask declaration).drop start = '(' :: (blanks ++ ')' :: rest'))
    (hle : start ≤ (head ++ inside).length) (hnot : ')' ∉ (source.mask (head ++ inside)).drop start) :
    start < head.length ∧ (head ++ inside).length ≤ start + (blanks.length + 1) := by
  obtain ⟨b, hmask, _⟩ := h.exists_mask_source
  have hlength : (source.mask (head ++ inside)).length = (head ++ inside).length :=
    (source.maskedForm _).length_eq
  have hvisible : ∀ {i : Nat} {c : Char}, ((layer.mask declaration).drop start)[i]? = some c → c ≠ ' ' →
      (source.mask declaration)[start + i]? = some c := by
    intro i c hc hne
    rw [getElem?_drop, layer, mask_atop] at hc
    exact (nested.maskedForm _).getElem?_of_visible hc hne
  constructor
  · by_contra hge
    have hopen := hvisible (i := 0) (c := '(') (by rw [hdrop]; rfl) (by decide)
    rw [Nat.add_zero, hmask] at hopen
    rcases Nat.lt_or_eq_of_le hle with hlt | rfl
    · -- there is no parenthesis in the name
      have hhead : (source.mask head).length = head.length := (source.maskedForm head).length_eq
      rw [getElem?_append_left (hlength ▸ hlt), source.mask_append h.cut_inside,
        getElem?_append_right (by omega), h.mask_inside] at hopen
      rcases mem_append.mp (mem_of_getElem? hopen) with hmem | hmem
      · exact absurd (h.name_word _ hmem) (by decide)
      · exact absurd (h.gap_blank _ hmem) (by decide)
    · rw [getElem?_append_right (Nat.le_of_eq hlength), hlength, Nat.sub_self] at hopen
      cases hopen
  · by_contra hlt
    have hclose := hvisible (i := blanks.length + 1) (c := ')') (by rw [hdrop]; simp) (by decide)
    rw [hmask, getElem?_append_left (by omega), ← getElem?_drop] at hclose
    exact hnot (mem_of_getElem? hclose)

variable {start n : Nat}
  (hnested : nestedDeclarator (before none (Layer.parameters.mask declaration) start)
    ((Layer.parameters.mask declaration).drop start) = some n)
  (hle : start ≤ (head ++ inside).length) (hnot : ')' ∉ (Layer.source.mask (head ++ inside)).drop start)

include hnested hle hnot

lemma nestedDeclarator_space (prev : Option Char) : start < head.length ∧
    ∃ n', nestedDeclarator prev ((layer.mask (head ++ ' ' :: (inside ++ ')' :: rest))).drop start) = some n' := by
  obtain ⟨blanks, rest', j, hdrop, hblank, hinner, _⟩ := nestedDeclarator_eq_some_iff.mp hnested
  obtain ⟨hlt, hafter⟩ := h.around hdrop hle hnot
  obtain ⟨a, b, hwithout, hwith, ha, _⟩ := h.exists_mask hfine hcomment
  have hstart : start ≤ a.length := by omega
  rw [hwithout, drop_append_of_le_length hstart] at hdrop
  rw [hwith, drop_append_of_le_length hstart]
  -- the blank is put between the parentheses
  cases hopen : a.drop start with
  | nil =>
    have := congrArg length hopen
    rw [length_drop, length_nil] at this
    omega
  | cons c blanks₁ =>
    have hlength := congrArg length hopen
    rw [length_drop, length_cons] at hlength
    rw [hopen] at hdrop
    obtain ⟨rfl, hsplit⟩ := cons_eq_cons.mp hdrop
    rw [length_append] at hafter
    obtain ⟨blanks₂, rfl, rfl⟩ : ∃ blanks₂, blanks = blanks₁ ++ blanks₂ ∧ b = blanks₂ ++ ')' :: rest' := by
      rcases append_eq_append_iff.mp hsplit with ⟨u, hu, hb⟩ | ⟨u, hu, hb⟩
      · exact ⟨u, hu, hb⟩
      · have hu' := congrArg length hu
        rw [length_append] at hu'
        obtain rfl := length_eq_zero_iff.mp (show u.length = 0 by omega)
        exact ⟨[], by simpa using hu.symm, by simpa using hb.symm⟩
    obtain ⟨hblank₁, hblank₂⟩ := forall_mem_append.mp hblank
    exact ⟨hlt, _, nestedDeclarator_eq_some_iff.mpr ⟨blanks₁ ++ ' ' :: blanks₂, rest', j, by simp,
      forall_mem_append.mpr ⟨hblank₁, forall_mem_cons.mpr ⟨by decide, hblank₂⟩⟩, hinner, rfl⟩⟩

lemma partsOf_space (hqualifier : Types.isQualifierWord name = false) :
    partsOf (head ++ ' ' :: (inside ++ ')' :: rest)) =
      (head ++ ' ' :: (inside ++ ')' :: rest).drop name.length, name, head.length + 1) := by
  obtain ⟨hlt, _, hnested'⟩ := h.nestedDeclarator_space hfine hcomment hnested hle hnot
    (before none (layer.mask (head ++ ' ' :: (inside ++ ')' :: rest))) start)
  obtain ⟨b, _, hmask⟩ := h.exists_mask_source
  have hheadLength : (source.mask head).length = head.length := (source.maskedForm head).length_eq
  have hinsideLength : (source.mask inside).length = inside.length := (source.maskedForm inside).length_eq
  have hclose : findAfter? [')'] (source.mask (head ++ ' ' :: (inside ++ ')' :: rest))) start =
      some (head ++ ' ' :: inside).length := by
    rw [h.mask_source_space hfine hcomment, hmask]
    refine (findAfter?_singleton_eq_some_iff (by rw [length_append]; omega)).mpr
      ⟨source.mask head ++ ' ' :: source.mask inside, b, by simp, by simp [hheadLength, hinsideLength], ?_, ?_⟩
    · rw [length_append]
      omega
    · rw [source.mask_append h.cut_inside, drop_append_of_le_length (by omega), mem_append] at hnot
      rw [drop_append_of_le_length (by omega), mem_append, mem_cons]
      rintro (hmem | hmem | hmem)
      · exact hnot (.inl hmem)
      · cases hmem
      · exact hnot (.inr hmem)
  have htake : (head ++ ' ' :: (inside ++ ')' :: rest)).take (head ++ ' ' :: inside).length = head ++ ' ' :: inside := by
    have : head ++ ' ' :: (inside ++ ')' :: rest) = (head ++ ' ' :: inside) ++ ')' :: rest := by simp
    rw [this, take_left]
  have hshown : nonSource (head ++ ' ' :: inside) true = nonSource head true ++ [' '] ++ (name ++ gap) := by
    have hcut := source.cut_before_space hcomment (source.apart_of_cut (h.fine_inner hfine) h.cut_inside)
    rw [nonSource_append hcut, ← singleton_append, nonSource_append (source.cut_space inside), h.mask_nonSource,
      append_assoc]
    rfl
  have hshownLength : (nonSource head true ++ [' ']).length = head.length + 1 := by
    rw [length_append, (maskedForm_nonSource head true).length_eq]
    rfl
  have hbefore : before none (nonSource (head ++ ' ' :: inside) true) (head.length + 1) = some ' ' := by
    rw [hshown, ← hshownLength, ← getLast?_take_of_le (by simp), take_left, getLast?_concat]
  have hdrop : (nonSource (head ++ ' ' :: inside) true).drop (head.length + 1) = name ++ gap := by
    rw [hshown, drop_left' hshownLength]
  obtain ⟨_, i, hidentifier⟩ := h.identifier
  have hplace : identifierAtEnd (before none (nonSource (head ++ ' ' :: inside) true) (head.length + 1))
      ((nonSource (head ++ ' ' :: inside) true).drop (head.length + 1)) = some i := by
    rw [hbefore, hdrop]
    exact andThen_identifier_prev rfl hidentifier
  have hsearch := search?_of_lastWord (fun m k n => lastWord_of_identifierAtEnd) hplace
  simp only [partsOf, splitDeclaration, search?_nameAtEnd_eq_none hnested', splitNestedName,
    search?_nestedDeclarator hnested', Option.bind_eq_bind, Option.bind_some, hclose, htake, hsearch]
  rw [hdrop, h.name_eq, hqualifier, if_neg (by simp)]
  have hsplit : ∀ z : Text, head ++ ' ' :: z = (head ++ [' ']) ++ z := by simp
  have hlength : head.length + 1 = (head ++ [' ']).length := by simp
  rw [hsplit inside, hsplit (inside ++ ')' :: rest), hsplit (drop _ _), hlength, take_left, drop_length_add_append]
  rfl

omit hnested hle hnot in
/-- The blank before the name does not count in the type. -/
lemma normalizeSource_space (hscan : scan (head ++ (inside ++ ')' :: rest).drop name.length) =
      scan head ++ scan ((inside ++ ')' :: rest).drop name.length)) :
    normalizeSource (head ++ ' ' :: (inside ++ ')' :: rest).drop name.length) =
      normalizeSource (head ++ (inside ++ ')' :: rest).drop name.length) := by
  have hfineInside := (source.fine_of_cut (h.fine_inner hfine) h.cut_inside).2
  -- the name, what is blank behind it, and the closing parenthesis
  have hgap : literals.Gap gap := by
    intro c hc
    rw [attributes_of_noBrackets (fun d hd => ?_) false] at hc
    · simp [isSourceGap, isGap, h.gap_blank c hc]
    · have := h.gap_blank d hd
      constructor <;> (rintro rfl; cases this)
  obtain ⟨word, y, rfl, hword, hy, hcut⟩ := literals.cut_end hfineInside.1 h.mask_tokens hgap
    fun c hc => isBlank_of_isWordChar (h.name_word c (mem_of_mem_getLast? hc))
  have hlength : word.length = name.length := by rw [← hword, (literals.maskedForm word).length_eq]
  rw [append_assoc, drop_left' hlength] at hscan ⊢
  have htail : scan (word ++ (y ++ ')' :: rest)) = scan word ++ (scan y ++ scan (')' :: rest)) := by
    have hword : scan (word ++ y) = scan word ++ scan y := hcut
    rw [← append_assoc, h.scan_tail, hword, append_assoc]
  have hrest := (scan_append_inv htail (flatMap_written_scan word)).2
  have hapart : literals.Apart head (y ++ ')' :: rest) := by
    have := literals.apart_of_cut (h.written ▸ hfine).1 h.cut.1
    rw [append_assoc] at this
    exact (literals.apart_of_append_right (by rw [← hrest] at htail; exact htail) this).2
  have hspace : scan (' ' :: (y ++ ')' :: rest)) = .plain ' ' :: scan (y ++ ')' :: rest) :=
    scan_plain (by rfl)
  have hwith := literals.cut_before_space (fun hswallows => hcomment (.inl hswallows)) hapart
  refine normalizeSource_blank (g := removeComments y) (c := ')') (t := removeComments rest) hscan (hspace ▸ hwith) ?_
    (removeComments_blank fun c hc => h.gap_blank c (hy ▸ hc)) rfl rfl (by decide)
  rw [removeComments_eq, hrest, scan_plain (by rfl), flatMap_append, removeComments_eq, removeComments_eq]
  rfl

end NestedName

/-! ## A declaration put together again -/

lemma compose_name (type name : Text) (place : Nat) (hname : name ≠ []) :
    compose (type, name, place) = type.take place ++ nameSeparator (type.take place) ++ (name ++ type.drop place) := by
  simp [compose, hname]

/-- A declaration that is put together again from its parts is taken apart as before, but for blanks. -/
lemma partsOf_compose {declaration : Text} {parts : Text × Text × Nat} (hfine : layer.Fine declaration)
    (hparts : partsOf declaration = parts) (hcomment : parts.2.1 ≠ [] → ¬ EndsInComment (parts.1.take parts.2.2))
    (hscan : scan parts.1 = scan (parts.1.take parts.2.2) ++ scan (parts.1.drop parts.2.2)) :
    Respaced declaration (compose parts) ∧ (partsOf (compose parts)).2.1 = parts.2.1 ∧
      normalizeSource (partsOf (compose parts)).1 = normalizeSource parts.1 := by
  have hsplitting := splitting declaration (source.mask declaration) (layer.mask declaration)
  change Splitting _ _ _ (partsOf declaration) at hsplitting
  rw [hparts] at hsplitting
  cases hsplitting with
  | unnamed =>
    have hcompose : compose (declaration, [], declaration.length) = declaration := rfl
    rw [hcompose, hparts]
    exact ⟨.refl declaration, rfl, rfl⟩
  | @named place n _ hpos hname hsplit =>
    obtain ⟨k, _, hidentifier, _, _⟩ := andThen_eq_some_iff.mp hname
    obtain ⟨c, b, _, hc, hdrop⟩ := take_of_identifier hidentifier
    have hword := isWordChar_of_isIdentifierStart hc
    have hmask : layer.mask declaration = (layer.mask declaration).take place ++ c :: b := by
      rw [← hdrop, take_append_drop]
    obtain ⟨x, y, rfl, hx, hy, hcut⟩ := layer.cut_before hfine hmask
      (stands_parameters (isBlank_of_isWordChar hword) (notMem_of_isWordChar hword rfl))
    have hplace : x.length = place := by
      rw [← (layer.maskedForm x).length_eq, hx, length_take]
      have := congrArg length hdrop
      rw [length_drop, length_cons] at this
      omega
    rw [hdrop, ← hy] at hname hsplit
    rw [← hplace] at hsplit
    have hne : parts.2.1 ≠ [] := by
      rw [name_of_splitName hsplit, hy, ← hdrop]
      exact leadingIdentifier_ne_nil hidentifier
    obtain ⟨hrespaced, heq⟩ := partsOf_named hfine hword hcut hname hsplit (mt swallows_parameters.mp (hcomment hne))
    exact ⟨hrespaced, by rw [heq], by rw [heq]⟩
  | @nested start n close place i hnested hclose hplace hqualifier =>
    have hstart : start ≤ declaration.length := by
      obtain ⟨_, _, _, hdrop, _⟩ := nestedDeclarator_eq_some_iff.mp hnested
      have := congrArg length hdrop
      rw [length_drop, (layer.maskedForm _).length_eq, length_cons] at this
      omega
    obtain ⟨head, inside, rest, gap, h, hhead, hinner, hle, hnot⟩ := exists_nestedName hfine.1 hstart hclose hplace
    generalize leadingIdentifier ((nonSource (declaration.take close) true).drop place) = name at *
    subst hhead
    have htype : (declaration.take close).take head.length ++ declaration.drop (head.length + name.length) =
        head ++ (inside ++ ')' :: rest).drop name.length := by
      rw [h.written, drop_length_add_append, take_take, Nat.min_eq_left, take_left]
      rw [← hinner, length_append]
      omega
    have htail : name ++ (inside ++ ')' :: rest).drop name.length = inside ++ ')' :: rest := by
      obtain ⟨y, hy⟩ := h.exists_written
      rw [hy, append_assoc, drop_left]
    simp only [htype, take_left, drop_left] at hcomment hscan hparts ⊢
    have hswallows : ¬ source.Swallows head := mt swallows_source.mp (hcomment h.name_ne)
    rw [compose_name _ _ _ h.name_ne, take_left, drop_left, htail]
    rcases nameSeparator_cases head with hs | ⟨hs, _⟩
    · rw [hs, append_assoc, singleton_append]
      have hlt := (h.nestedDeclarator_space hfine.1 hswallows hnested (hinner ▸ hle) hnot none).1
      rw [h.partsOf_space hfine.1 hswallows hnested (hinner ▸ hle) hnot hqualifier]
      exact ⟨h.respaced hfine.1 hswallows (ne_nil_of_length_pos (by omega)), rfl,
        h.normalizeSource_space hfine.1 hswallows hscan⟩
    · rw [hs, append_nil, ← h.written, hparts]
      exact ⟨.refl _, rfl, rfl⟩

end Parameter

end CppScaffold
