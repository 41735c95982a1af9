import CppScaffold.Proofs.Actions
import CppScaffold.Proofs.Edits
import CppScaffold.Proofs.Masking
import CppScaffold.Proofs.Recognizers
import CppScaffold.Proofs.Trimming
import CppScaffold.Signature

/-!
# The head of a function

Where the parts of a function's head stand that its signature is made of.
-/

namespace CppScaffold

open Text Recognizer List Mask

namespace Text

lemma resolveIndex_of_nonneg {n : Nat} {i : Int} (h : 0 ≤ i) : resolveIndex n i = min i.toNat n :=
  if_neg (by omega)

lemma length_upTo_le (t : Text) {i : Int} (h : 0 ≤ i) : ((upTo t i).length : Int) ≤ i := by
  rw [upTo, resolveIndex_of_nonneg h, length_take]
  omega

end Text

namespace Entity

/-! ## Before the name -/

/-- The ranges reported for a symbol are nested: the name lies in the symbol. -/
structure Nested (e : Entity) : Prop where
  start_le : e.symbol.range.start ≤ e.selection.start
  selection_le : e.selection.start ≤ e.selection.stop
  /-- The symbol ends no earlier than its name. -/
  le_stop : e.selection.stop ≤ e.symbol.range.stop

variable {e : Entity}

lemma Nested.add_length_leading_le (h : e.Nested) :
    e.startOffset + e.parsableLeadingText.length ≤ e.document.offsetAt e.selection.start := by
  have hstart : e.startOffset ≤ e.document.offsetAt e.selection.start := e.document.offsetAt_mono h.start_le
  have hlength := length_upTo_le e.parsableText (show 0 ≤ e.offsetWithin e.selection.start by
    rw [offsetWithin]
    omega)
  rw [← parsableLeadingText, offsetWithin] at hlength
  omega

lemma bounded_templateStatement : Bounded templateStatement := by
  refine bounded_seq fun r hr => ?_
  simp only [mem_cons, not_mem_nil, or_false] at hr
  rcases hr with rfl | rfl | rfl
  · exact bounded_exactly _
  · exact ((bounded_many _).andThen (bounded_emptyPair _ _)).optional
  · exact bounded_many _

/-- An offset in the text before the name lies before the name. -/
lemma Nested.offsetAt_positionWithin_le (h : e.Nested) {n : Nat} (hn : n ≤ e.parsableLeadingText.length) :
    e.document.offsetAt (e.positionWithin n) ≤ e.document.offsetAt e.selection.start := by
  have hleading := h.add_length_leading_le
  refine e.document.offsetAt_positionAt_le ?_
  omega

lemma Nested.declarationStart_le (h : e.Nested) :
    e.document.offsetAt e.declarationStart ≤ e.document.offsetAt e.selection.start := by
  rw [declarationStart]
  split_ifs
  · split
    next n hn =>
      have hbound := bounded_templateStatement.repeated _ _ _ hn
      rw [(maskedForm_angleBrackets _ _).length_eq] at hbound
      exact h.offsetAt_positionWithin_le hbound
    · exact e.document.offsetAt_mono h.start_le
  · exact e.document.offsetAt_mono h.start_le

lemma Nested.scopesStart_le (h : e.Nested) :
    e.document.offsetAt e.scopesStart ≤ e.document.offsetAt e.selection.start := by
  rw [scopesStart]
  split_ifs
  · split
    next s hs =>
      have hbound := start_lt_of_mem_findAllFrom (mem_of_mem_filter (mem_of_getLast? hs))
      have htrim := length_trimEnd_le e.parsableLeadingText
      rw [(maskedForm_angleBrackets _ _).length_eq] at hbound
      exact h.offsetAt_positionWithin_le (by omega)
    · exact Nat.le_refl _
  · exact Nat.le_refl _

end Entity

namespace Signature

/-! ## The parentheses -/

/-- A character that is looked for in a masked text from the name on lies in the text and not before the
name, if that is in the text. -/
lemma parenthesis_bounds {t : Text} {c : Char} {name offset i : Nat}
    (h : findAfter? [c] (parentheses (nonSource t true) true) ((name : Int) - offset) = some i) :
    i < t.length ∧ (offset ≤ name → name ≤ offset + i) := by
  obtain ⟨hstart, hlt⟩ := findAfter?_bounds h (by simp)
  rw [(maskedForm_parentheses _ _).length_eq, (maskedForm_nonSource _ _).length_eq] at hstart hlt
  rw [length_singleton] at hlt
  refine ⟨hlt, fun hle => ?_⟩
  rw [resolveIndex_of_nonneg (by omega)] at hstart
  omega

variable {e : Entity} {head : Head} {s : Signature}

lemma headOf_ok (h : headOf e = .ok head) :
    head.offset = e.document.offsetAt e.declarationStart ∧
      head.text = e.document.getText ⟨e.declarationStart, e.declarationEnd⟩ ∧
      (head.leftParenthesis < head.text.length ∧ head.rightParenthesis < head.text.length) ∧
      (e.Nested → e.document.offsetAt e.selection.start ≤ head.offset + head.leftParenthesis ∧
        e.document.offsetAt e.selection.start ≤ head.offset + head.rightParenthesis) := by
  unfold headOf at h
  dsimp only at h
  split at h
  next l r hl hr =>
    obtain rfl := Except.ok.inj h
    obtain ⟨hl, hl'⟩ := parenthesis_bounds hl
    obtain ⟨hr, hr'⟩ := parenthesis_bounds hr
    exact ⟨rfl, rfl, ⟨hl, hr⟩, fun hnested => ⟨hl' hnested.declarationStart_le, hr' hnested.declarationStart_le⟩⟩
  next => cases h

lemma length_masked (h : headOf e = .ok head) : head.masked.length = head.text.length := by
  unfold headOf at h
  dsimp only at h
  split at h
  next =>
    obtain rfl := Except.ok.inj h
    rw [(maskedForm_parentheses _ _).length_eq, (maskedForm_nonSource _ _).length_eq]
  next => cases h

/-! ## The parts of a signature -/

/-- The three places of a return type: the name itself, behind an arrow that ends the qualifiers, or before the scopes
and the name. -/
inductive ReturnPlace (e : Entity) (head : Head) (s : Signature) : Prop where
  | atName (hspecial : (e.isConstructor || e.isDestructor)) (hreturn : s.returnRange = e.selection)
      (htrailing : s.trailingRange.stop = e.declarationEnd)
  | behindArrow (arrow gap length : Nat)
      (hreturn : s.returnRange = e.document.rangeAt (head.offset + head.rightParenthesis + 1 + arrow + gap : Nat)
        (head.offset + head.rightParenthesis + 1 + arrow + gap + length : Nat))
      (htrailing : s.trailingRange.stop = e.document.positionAt (head.offset + head.rightParenthesis + 1 + arrow : Nat))
      (hfits : head.rightParenthesis + 1 + arrow + gap + length ≤ head.text.length)
  | beforeName (start stop : Int) (hstart : head.offset ≤ start) (hle : start ≤ stop)
      (hstop : stop ≤ head.offset + (upTo head.text ((e.document.offsetAt e.scopesStart : Int) - head.offset)).length)
      (hreturn : s.returnRange = e.document.rangeAt start stop) (htrailing : s.trailingRange.stop = e.declarationEnd)

lemma length_leadingReturnType_le (t : Text) : (Types.leadingReturnType t).length ≤ t.length := by
  rw [Types.leadingReturnType]
  split
  · rw [length_drop]
    omega
  · exact Nat.le_refl _

lemma length_trailingReturnType_le (t : Text) : (Types.trailingReturnType t).length ≤ t.length := by
  unfold Types.trailingReturnType
  dsimp only
  split
  · exact length_take_le' _ _
  · exact Nat.le_refl _

lemma add_le_of_arrow? {masked : Text} {i n : Nat} (h : arrow? masked = some (i, n)) : i + n ≤ masked.length := by
  unfold arrow? at h
  split at h
  next => simp at h
  next j hj =>
    have hgap : (indentation (masked.drop (j + 2))).length ≤ (masked.drop (j + 2)).length :=
      (takeWhile_sublist _).length_le
    dsimp only at h
    split at h
    · simp at h
    next hrest =>
      have hpos : 0 < (masked.drop (j + 2)).length := length_pos_iff.mpr fun hnil => hrest (by rw [hnil]; rfl)
      obtain ⟨rfl, rfl⟩ := h
      rw [length_drop] at hgap hpos
      split <;> omega

lemma ofEntity_ok (h : ofEntity e = .ok s) :
    ∃ head, headOf e = .ok head ∧ s.range = ⟨e.declarationStart, e.declarationEnd⟩ ∧
      s.parameters.range = e.document.rangeAt (head.offset + (head.leftParenthesis + 1 : Nat))
        (head.offset + (head.leftParenthesis + 1 : Nat) +
          (between head.text (head.leftParenthesis + 1) head.rightParenthesis).length) ∧
      s.trailingRange.start = e.document.positionAt (head.offset + head.rightParenthesis + 1 : Nat) ∧
      ReturnPlace e head s := by
  unfold ofEntity at h
  split at h
  · simp at h
  · dsimp only at h
    obtain ⟨head, hhead, h⟩ := exists_ok_of_bind h
    split at h
    next hspecial =>
      obtain rfl := Except.ok.inj h
      exact ⟨head, hhead, rfl, rfl, rfl, .atName hspecial rfl rfl⟩
    next =>
      split at h
      next arrow gap harrow =>
        obtain rfl := Except.ok.inj h
        have hright := (headOf_ok hhead).2.2.1.2
        have harrow := add_le_of_arrow? harrow
        have htype := length_trailingReturnType_le ((head.text.drop (head.rightParenthesis + 1)).drop (arrow + gap))
        rw [length_drop, length_masked hhead] at harrow
        rw [length_drop, length_drop] at htype
        exact ⟨head, hhead, rfl, rfl, rfl, .behindArrow arrow gap _ rfl rfl (by omega)⟩
      next =>
        obtain rfl := Except.ok.inj h
        -- the type ends where the trimmed text before the scopes does
        have htext := length_trimEnd_le (upTo head.text ((e.document.offsetAt e.scopesStart : Int) - head.offset))
        have htype := (length_trimEnd_le _).trans (length_leadingReturnType_le
          (trimEnd (upTo head.text ((e.document.offsetAt e.scopesStart : Int) - head.offset))))
        exact ⟨head, hhead, rfl, rfl, rfl, .beforeName _ _ (by omega) (by omega) (by omega) rfl rfl⟩

/-- The parts of a signature that can be rewritten: the return type, the parameters and the qualifiers. -/
def parts (s : Signature) : List Range := [s.returnRange, s.parameters.range, s.trailingRange]

/-- The parts of a signature begin in the head, and none of them ends before it begins. -/
lemma parts_in_head (hnested : e.Nested) (h : ofEntity e = .ok s) :
    ∀ r ∈ s.parts, e.document.offsetAt s.range.start ≤ e.document.offsetAt r.start ∧
      e.document.offsetAt r.start ≤ e.document.offsetAt r.stop := by
  obtain ⟨head, hhead, hrange, hparameters, htrailing, hplace⟩ := ofEntity_ok h
  obtain ⟨hoffset, htext, ⟨_, hright⟩, _⟩ := headOf_ok hhead
  -- the qualifiers begin before the head ends
  have hend : head.offset + head.rightParenthesis + 1 ≤ e.document.offsetAt e.declarationEnd := by
    rw [htext, TextDocument.getText, length_between] at hright
    simp only [← hoffset] at hright
    omega
  have hin : ∀ {x : Int}, (head.offset : Int) ≤ x →
      e.document.offsetAt s.range.start ≤ e.document.offsetAt (e.document.positionAt x) := by
    intro x hx
    rw [hrange]
    refine e.document.le_offsetAt_positionAt ?_
    rwa [← hoffset]
  have hreturn : e.document.offsetAt s.range.start ≤ e.document.offsetAt s.returnRange.start ∧
      e.document.offsetAt s.returnRange.start ≤ e.document.offsetAt s.returnRange.stop := by
    cases hplace with
    | atName _ hreturn _ =>
      rw [hreturn, hrange]
      exact ⟨hnested.declarationStart_le, e.document.offsetAt_mono hnested.selection_le⟩
    | behindArrow arrow gap length hreturn _ _ =>
      rw [hreturn]
      exact ⟨hin (by omega), e.document.offsetAt_positionAt_mono (by omega)⟩
    | beforeName start stop hstart hle _ hreturn _ =>
      rw [hreturn]
      exact ⟨hin hstart, e.document.offsetAt_positionAt_mono hle⟩
  have hstop : e.document.offsetAt s.trailingRange.start ≤ e.document.offsetAt s.trailingRange.stop := by
    rw [htrailing]
    cases hplace with
    | atName _ _ hstop | beforeName _ _ _ _ _ _ hstop =>
      rw [hstop]
      exact e.document.offsetAt_positionAt_le (by omega)
    | behindArrow arrow _ _ _ hstop _ =>
      rw [hstop]
      exact e.document.offsetAt_positionAt_mono (by omega)
  refine forall_mem_cons.mpr ⟨hreturn, forall_mem_cons.mpr ⟨?_, forall_mem_singleton.mpr ⟨?_, hstop⟩⟩⟩
  · rw [hparameters]
    exact ⟨hin (by omega), e.document.offsetAt_positionAt_mono (by omega)⟩
  · rw [htrailing]
    exact hin (by omega)

lemma selection_le_parts (hnested : e.Nested) (h : ofEntity e = .ok s) :
    e.document.offsetAt e.selection.start ≤ e.document.offsetAt s.parameters.range.start ∧
    e.document.offsetAt e.selection.start ≤ e.document.offsetAt s.trailingRange.start := by
  obtain ⟨head, hhead, _, hparameters, htrailing, _⟩ := ofEntity_ok h
  obtain ⟨hleft, hright⟩ := (headOf_ok hhead).2.2.2 hnested
  rw [hparameters, htrailing]
  exact ⟨e.document.le_offsetAt_positionAt (by omega), e.document.le_offsetAt_positionAt (by omega)⟩

/-- A head in its usual order: the scopes are written in the declaration, the first parenthesis after the name opens
the parameters, and a name that is the return type ends before them. -/
structure InOrder (e : Entity) (head : Head) : Prop where
  /-- The declaration begins no later than the scopes before the name. -/
  scopes : head.offset ≤ e.document.offsetAt e.scopesStart
  /-- The parameters are opened before they are closed. -/
  parentheses : head.leftParenthesis < head.rightParenthesis
  /-- The name of a constructor or destructor ends before the parameters. -/
  name : (e.isConstructor || e.isDestructor) →
    e.document.offsetAt e.selection.stop ≤ head.offset + head.leftParenthesis

/-- In a head that is in order the parts of the signature are apart. -/
lemma parts_apart (hnested : e.Nested) (h : ofEntity e = .ok s)
    (hhead : headOf e = .ok head) (horder : InOrder e head) : s.parts.Pairwise e.document.Apart := by
  obtain ⟨_, hhead', _, hparameters, htrailing, hplace⟩ := ofEntity_ok h
  obtain rfl := Except.ok.inj (hhead.symm.trans hhead')
  obtain ⟨_, _, ⟨_, hright⟩, hname⟩ := headOf_ok hhead
  have hname := (hname hnested).1
  have hparentheses := horder.parentheses
  have hlength := length_between head.text (head.leftParenthesis + 1) head.rightParenthesis
  have hbetween : e.document.Apart s.parameters.range s.trailingRange := by
    refine Or.inl ?_
    rw [hparameters, htrailing]
    exact e.document.offsetAt_positionAt_mono (by omega)
  have hreturn : e.document.Apart s.returnRange s.parameters.range ∧ e.document.Apart s.returnRange s.trailingRange := by
    cases hplace with
    | atName hspecial hreturn _ =>
      have hstop := horder.name hspecial
      rw [TextDocument.Apart, TextDocument.Apart, hreturn, hparameters, htrailing]
      exact ⟨Or.inl (e.document.le_offsetAt_positionAt (by omega)),
        Or.inl (e.document.le_offsetAt_positionAt (by omega))⟩
    | behindArrow arrow gap length hreturn hstop _ =>
      rw [TextDocument.Apart, TextDocument.Apart, hreturn, hparameters, hstop]
      exact ⟨Or.inr (e.document.offsetAt_positionAt_mono (by omega)),
        Or.inr (e.document.offsetAt_positionAt_mono (by omega))⟩
    | beforeName start stop _ _ hstop hreturn _ =>
      -- the type ends before the scopes, these begin no later than the name, and the parameters follow it
      have hscopes := horder.scopes
      have hscopes' := hnested.scopesStart_le
      have hupTo := length_upTo_le head.text
        (show 0 ≤ (e.document.offsetAt e.scopesStart : Int) - head.offset by omega)
      rw [TextDocument.Apart, TextDocument.Apart, hreturn, hparameters, htrailing]
      exact ⟨Or.inl (e.document.offsetAt_positionAt_mono (by omega)),
        Or.inl (e.document.offsetAt_positionAt_mono (by omega))⟩
  simp only [parts, pairwise_cons, mem_cons, not_mem_nil, or_false, forall_eq_or_imp, forall_eq]
  exact ⟨hreturn, hbetween, by simp⟩

end Signature

end CppScaffold
