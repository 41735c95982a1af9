import CppScaffold.Proofs.Declarators
import CppScaffold.Proofs.Heads

/-!
# What the ranges of a signature denote

The parts of a signature begin and end next to visible characters or where the head does, so the text in each range is
the text that was read.
-/

namespace CppScaffold

open Text Recognizer List Mask ParameterList

namespace Text

variable {t : Text} {i : Nat}

/-- A place at an end of the text, or next to a character that is no blank. -/
inductive Anchored (t : Text) : Nat → Prop where
  | start : Anchored t 0
  | stop : Anchored t t.length
  | before {i : Nat} {c : Char} (hc : t[i]? = some c) (hblank : isBlank c = false) : Anchored t i
  | behind {i : Nat} {c : Char} (hc : t[i]? = some c) (hblank : isBlank c = false) : Anchored t (i + 1)

/-- What holds of the ends of a part and around visible characters holds of the anchored places of the part. -/
lemma Anchored.lift {P : Nat → Prop} {a b : Nat} (h : Anchored (between t a b) i) (hstart : P a)
    (hstop : P (a + (between t a b).length))
    (hvisible : ∀ {k c}, t[k]? = some c → isBlank c = false → P k ∧ P (k + 1)) : P (a + i) := by
  cases h with
  | start => exact hstart
  | stop => exact hstop
  | before hc hblank => exact (hvisible (getElem?_of_between hc) hblank).1
  | behind hc hblank => exact (hvisible (getElem?_of_between hc) hblank).2

lemma Anchored.of_between {a b : Nat} (h : Anchored (between t a b) i) (hstart : Anchored t a) (hstop : Anchored t b)
    (hab : a ≤ b) (hb : b ≤ t.length) : Anchored t (a + i) := by
  refine h.lift hstart ?_ fun hc hblank => ⟨.before hc hblank, .behind hc hblank⟩
  rwa [length_between, show a + min (b - a) (t.length - a) = b by omega]

end Text

/-! ## The text of a part -/

namespace TextDocument

variable (d : TextDocument)

lemma getText_rangeAt {a b : Nat} (hab : a ≤ b) (hb : b ≤ d.text.length) (hstart : ¬ InsideBreak d.text a)
    (hstop : ¬ InsideBreak d.text b) : d.getText (d.rangeAt a b) = between d.text a b := by
  rw [getText, rangeAt]
  rw [d.offsetAt_positionAt (hab.trans hb), if_neg hstart, d.offsetAt_positionAt hb, if_neg hstop]

lemma getText_part {r : Range} {i j : Nat} (hi : Anchored (d.getText r) i) (hj : Anchored (d.getText r) j) (hij : i ≤ j)
    (hle : j ≤ (d.getText r).length) :
    d.getText (d.rangeAt (d.offsetAt r.start + i : Nat) (d.offsetAt r.start + j : Nat)) = between (d.getText r) i j := by
  have hlength := length_between d.text (d.offsetAt r.start) (d.offsetAt r.stop)
  rw [← getText] at hlength
  have hbound := d.offsetAt_le_length r.stop
  have hstart := d.not_insideBreak_offsetAt r.start
  have hstop : ¬ InsideBreak d.text (d.offsetAt r.start + (d.getText r).length) := by
    rcases Nat.le_total (d.offsetAt r.start) (d.offsetAt r.stop) with hle | hle
    · rw [show d.offsetAt r.start + (d.getText r).length = d.offsetAt r.stop by omega]
      exact d.not_insideBreak_offsetAt r.stop
    · rwa [show d.offsetAt r.start + (d.getText r).length = d.offsetAt r.start by omega]
  have hlift : ∀ {i}, Anchored (d.getText r) i → ¬ InsideBreak d.text (d.offsetAt r.start + i) :=
    fun h => h.lift hstart hstop not_insideBreak_of_visible
  have hfirst := d.offsetAt_le_length r.start
  rw [d.getText_rangeAt (by omega) (by omega) (hlift hi) (hlift hj)]
  exact (between_between hle).symm

end TextDocument

/-! ## Where a type ends -/

namespace Recognizer

/-- What a recogniser accepts, if anything, does not end with a blank. -/
def EndsVisible (r : Recognizer) : Prop :=
  ∀ prev t n, r prev t = some (n + 1) → ∃ c, t[n]? = some c ∧ isBlank c = false

variable {r s : Recognizer}

/-- A recogniser accepts at least one character. -/
def Consumes (r : Recognizer) : Prop := ∀ prev t, r prev t ≠ some 0

lemma Consumes.andThen (hs : Consumes s) : Consumes (andThen r s) := by
  intro prev t hn
  obtain ⟨a, b, _, hb, hzero⟩ := andThen_eq_some_iff.mp hn
  obtain rfl : b = 0 := by omega
  exact hs _ _ hb

/-- If the second part always accepts something, then it alone decides. -/
lemma EndsVisible.andThen (hs : EndsVisible s) (hr : EndsVisible r ∨ Consumes s) : EndsVisible (andThen r s) := by
  intro prev t n h
  obtain ⟨a, b, ha, hb, hn⟩ := andThen_eq_some_iff.mp h
  obtain _ | b := b
  · rw [Nat.add_zero] at hn
    exact hr.elim (fun hr => hr prev t n (hn ▸ ha)) fun hpos => absurd hb (hpos _ _)
  · obtain ⟨c, hc, hblank⟩ := hs _ _ b hb
    rw [getElem?_drop] at hc
    obtain rfl : n = a + b := by omega
    exact ⟨c, hc, hblank⟩

lemma EndsVisible.optional (hr : EndsVisible r) : EndsVisible (optional r) := by
  intro prev t n h
  rw [Recognizer.optional, Option.some.injEq] at h
  cases hn : r prev t with
  | none => simp [hn] at h
  | some k =>
    rw [hn, Option.getD_some] at h
    exact hr prev t n (h ▸ hn)

lemma EndsVisible.atMost (hr : EndsVisible r) (k : Nat) : EndsVisible (atMost k r) := by
  induction k with
  | zero =>
    intro prev t n h
    cases h
  | succ k ih =>
    intro prev t n h
    rcases atMost_succ_eq_some h with h | h
    · cases h
    · exact ih.andThen (.inl hr) prev t n h

lemma EndsVisible.repeated (hr : EndsVisible r) : EndsVisible (repeated r) :=
  fun prev t n h => hr.atMost t.length prev t n h

lemma EndsVisible.firstOf {rs : List Recognizer} (h : ∀ r ∈ rs, EndsVisible r) : EndsVisible (firstOf rs) := by
  induction rs with
  | nil =>
    intro prev t n hn
    cases hn
  | cons r rs ih =>
    intro prev t n hn
    rcases firstOf_cons_eq_some_iff.mp hn with hn | ⟨_, hn⟩
    · exact h r (by simp) prev t n hn
    · exact ih (fun s hs => h s (by simp [hs])) prev t n hn

lemma endsVisible_some1 {p : Char → Bool} (h : ∀ c, p c → isBlank c = false) : EndsVisible (some1 p) := by
  intro prev t n hn
  have hlength := (some1_eq_some_iff.mp hn).1
  obtain ⟨c, hc, hp⟩ := exists_getElem?_takeWhile (show n < (t.takeWhile p).length by omega)
  exact ⟨c, hc, h c hp⟩

lemma endsVisible_exactly {w : Text} (h : ∀ c ∈ w, isBlank c = false) : EndsVisible (exactly w) := by
  intro prev t n hn
  obtain ⟨hwritten, hlength⟩ := exactly_eq_some_iff.mp hn
  have hlt : n < w.length := by omega
  exact ⟨w[n], prefix_iff_getElem?.mp hwritten n hlt, h _ (getElem_mem hlt)⟩

lemma endsVisible_emptyPair {left right : Char} (hright : isBlank right = false) : EndsVisible (emptyPair left right) := by
  intro prev t n hn
  obtain ⟨b, rest, rfl, _, hlength⟩ := (emptyPair_eq_some_iff hright).mp hn
  obtain rfl : n = b.length + 1 := by omega
  exact ⟨right, by simp, hright⟩

lemma consumes_emptyPair {left right : Char} (hright : isBlank right = false) : Consumes (emptyPair left right) := by
  intro prev t hn
  obtain ⟨b, _, _, _, hlength⟩ := (emptyPair_eq_some_iff hright).mp hn
  omega

lemma endsVisible_identifierPart : EndsVisible identifierPart := by
  intro prev t n hn
  obtain ⟨c, rest, rfl, hc, hlength⟩ := identifierPart_eq_some_iff.mp hn
  obtain _ | n := n
  · exact ⟨c, rfl, isBlank_of_isWordChar (isWordChar_of_isIdentifierStart hc)⟩
  · obtain ⟨d, hd, hword⟩ := exists_getElem?_takeWhile (show n < (rest.takeWhile isWordChar).length by omega)
    exact ⟨d, hd, isBlank_of_isWordChar hword⟩

lemma consumes_identifierPart : Consumes identifierPart := by
  intro prev t hn
  obtain ⟨c, rest, rfl, hc, hlength⟩ := identifierPart_eq_some_iff.mp hn
  omega

end Recognizer

namespace Types

lemma endsVisible_qualifiedName : EndsVisible qualifiedName := by
  have hname := consumes_identifierPart
  have hpart : EndsVisible (seq [blanks, exactly "::", blanks, identifierPart]) :=
    ((endsVisible_identifierPart.andThen (.inr hname)).andThen (.inr hname.andThen)).andThen (.inr hname.andThen.andThen)
  exact hpart.repeated.andThen (.inl (endsVisible_identifierPart.andThen (.inr hname)))

lemma endsVisible_trailingPiece : EndsVisible trailingPiece := by
  have hpair : ∀ {left right : Char}, isBlank right = false → EndsVisible (andThen blanks (emptyPair left right)) :=
    fun hright => (endsVisible_emptyPair hright).andThen (.inr (consumes_emptyPair hright))
  refine EndsVisible.firstOf fun r hr => ?_
  simp only [mem_cons, not_mem_nil, or_false] at hr
  rcases hr with rfl | rfl | rfl
  · exact (((hpair rfl).atMost 2).andThen (.inl (hpair rfl).optional)).andThen (.inl endsVisible_qualifiedName)
  · refine EndsVisible.firstOf fun r hr => ?_
    simp only [mem_cons, not_mem_nil, or_false] at hr
    rcases hr with rfl | rfl
    · exact endsVisible_exactly (by simp [show isBlank '&' = false by decide])
    · exact endsVisible_exactly (by simp [show isBlank '&' = false by decide])
  · refine endsVisible_some1 fun c hc => ?_
    rw [beq_iff_eq.mp hc]
    decide

lemma leadingStart_mem {masked : Text} {start : Option Nat} {spans : List Span} {i : Nat}
    (h : leadingStart masked start spans = some i) : start = some i ∨ ∃ s ∈ spans, s.start = i := by
  fun_induction leadingStart masked start spans with
  | case1 => exact .inl h
  | case2 s rest ih =>
    rcases ih h with hstart | ⟨s', hs', rfl⟩
    · split at hstart
      · cases hstart
      · exact .inr ⟨s, by simp, Option.some.inj hstart⟩
    · exact .inr ⟨s', by simp [hs'], rfl⟩
  | case3 start s rest _ ih =>
    rcases ih h with hstart | ⟨s', hs', rfl⟩
    · exact .inr ⟨s, by simp, Option.some.inj hstart⟩
    · exact .inr ⟨s', by simp [hs'], rfl⟩
  | case4 => exact .inl h

lemma trailingEnd_mem {masked : Text} {stop : Option Nat} {spans : List Span} {i : Nat}
    (h : trailingEnd masked stop spans = some i) : stop = some i ∨ ∃ s ∈ spans, s.stop = i := by
  fun_induction trailingEnd masked stop spans with
  | case1 => exact .inl h
  | case2 s rest ih =>
    rcases ih h with hstop | ⟨s', hs', rfl⟩
    · split at hstop
      · cases hstop
      · exact .inr ⟨s, by simp, Option.some.inj hstop⟩
    · exact .inr ⟨s', by simp [hs'], rfl⟩
  | case3 stop s rest _ ih =>
    rcases ih h with hstop | ⟨s', hs', rfl⟩
    · exact .inr ⟨s, by simp, Option.some.inj hstop⟩
    · exact .inr ⟨s', by simp [hs'], rfl⟩
  | case4 => exact .inl h

/-- A leading type is the end of the text, from a word on or from its start. -/
lemma exists_leadingReturnType (t : Text) : ∃ i, i ≤ t.length ∧ leadingReturnType t = t.drop i ∧ Anchored t i := by
  rw [leadingReturnType]
  split
  next i hi =>
    obtain hi | ⟨s, hs, rfl⟩ := leadingStart_mem hi
    · cases hi
    · have hform := (maskedForm_nonSource t true).trans (maskedForm_angleBrackets _ true)
      obtain ⟨_, haccept⟩ := accepted_of_mem_findAll (mem_reverse.mp hs)
      obtain ⟨_, _, hname, _, _⟩ := andThen_eq_some_iff.mp haccept
      obtain ⟨_, c, rest, hdrop, hc, _⟩ := identifier_eq_some_iff.mp hname
      have hblank := isBlank_of_isWordChar (isWordChar_of_isIdentifierStart hc)
      have hget : t[s.start]? = some c :=
        hform.getElem?_of_not_isBlank (by rw [← head?_drop, hdrop, head?_cons]) hblank
      exact ⟨s.start, (List.getElem?_eq_some_iff.mp hget).1.le, rfl, .before hget hblank⟩
  · exact ⟨0, Nat.zero_le _, rfl, .start⟩

/-- A trailing type is the start of the text, up to the end of a piece or up to its end. -/
lemma exists_trailingReturnType (t : Text) : ∃ j, j ≤ t.length ∧ trailingReturnType t = t.take j ∧ Anchored t j := by
  rw [trailingReturnType]
  split
  next j hj =>
    obtain hj | ⟨s, hs, rfl⟩ := trailingEnd_mem hj
    · cases hj
    · have hform := ((maskedForm_nonSource t true).trans (maskedForm_parentheses _ true)).trans
        (maskedForm_angleBrackets _ true)
      obtain ⟨hlt, haccept⟩ := accepted_of_mem_findAll hs
      obtain ⟨n, hn⟩ : ∃ n, s.stop - s.start = n + 1 := ⟨s.stop - s.start - 1, by omega⟩
      obtain ⟨c, hc, hblank⟩ := endsVisible_trailingPiece _ _ n (hn ▸ haccept)
      rw [getElem?_drop] at hc
      have hget := hform.getElem?_of_not_isBlank hc hblank
      have hstop : s.stop = s.start + n + 1 := by omega
      rw [hstop]
      exact ⟨_, (List.getElem?_eq_some_iff.mp hget).1, rfl, .behind hget hblank⟩
  · exact ⟨t.length, Nat.le_refl _, by rw [take_length], .stop⟩

end Types

namespace Signature

variable {e : Entity} {s : Signature} {head : Head}

/-! ## The parts of a head -/

variable {i : Nat}

lemma getElem?_of_findAfter? {c : Char} {t : Text} {start : Int} (h : findAfter? [c] t start = some i) :
    t[i]? = some c := by
  rw [findAfter?, findFrom_eq_map, Option.map_eq_some_iff] at h
  obtain ⟨j, hj, rfl⟩ := h
  obtain ⟨a, b, hdrop, rfl, _⟩ := find?_singleton_eq_some_iff.mp hj
  rw [startingAt] at hdrop
  rw [← getElem?_drop, hdrop, getElem?_append_right (Nat.le_refl _), Nat.sub_self, getElem?_cons_zero]

lemma masked_of_headOf (h : headOf e = .ok head) : MaskedForm head.text head.masked ∧
    head.text[head.leftParenthesis]? = some '(' ∧ head.text[head.rightParenthesis]? = some ')' := by
  unfold headOf at h
  dsimp only at h
  split at h
  next l r hl hr =>
    obtain rfl := Except.ok.inj h
    have hform := (maskedForm_nonSource (e.document.getText ⟨e.declarationStart, e.declarationEnd⟩) true).trans
      (maskedForm_parentheses _ true)
    exact ⟨hform, hform.getElem?_of_visible (getElem?_of_findAfter? hl) (by decide),
      hform.getElem?_of_visible (getElem?_of_findAfter? hr) (by decide)⟩
  next => simp at h

inductive ReturnText (e : Entity) (head : Head) (s : Signature) : Prop where
  | none (htype : s.returnType = [])
  | behindArrow (arrow gap : Nat) (harrow : arrow? (head.masked.drop (head.rightParenthesis + 1)) = some (arrow, gap))
      (htype : s.returnType = Types.trailingReturnType ((head.text.drop (head.rightParenthesis + 1)).drop (arrow + gap)))
      (hrange : s.returnRange = e.document.rangeAt (head.offset + head.rightParenthesis + 1 + arrow + gap : Nat)
        (head.offset + head.rightParenthesis + 1 + arrow + gap + s.returnType.length : Nat))
  | beforeName (leading : Text)
      (hleading : leading = trimEnd (upTo head.text ((e.document.offsetAt e.scopesStart : Int) - head.offset)))
      (htype : s.returnType = trimEnd (Types.leadingReturnType leading))
      (hrange : s.returnRange = e.document.rangeAt ((head.offset + leading.length : Nat) - (s.returnType.length : Int))
        ((head.offset + leading.length : Nat) - (s.returnType.length : Int) + s.returnType.length))

/-- The parameters in the head of a function. -/
abbrev parametersIn (e : Entity) (head : Head) : ParameterList :=
  parseIn e.document.toTextDocument (head.offset + (head.leftParenthesis + 1 : Nat))
    (between head.text (head.leftParenthesis + 1) head.rightParenthesis)

lemma ofEntity_texts (h : ofEntity e = .ok s) (hhead : headOf e = .ok head) :
    s.parameters = parametersIn e head ∧ ReturnText e head s := by
  unfold ofEntity at h
  split at h
  · simp at h
  · dsimp only at h
    rw [hhead] at h
    simp only [bind, Except.bind] at h
    split at h
    · obtain rfl := Except.ok.inj h
      exact ⟨rfl, .none rfl⟩
    · split at h
      next arrow gap harrow =>
        obtain rfl := Except.ok.inj h
        refine ⟨?_, .behindArrow arrow gap harrow ?_ ?_⟩ <;> dsimp only
      next =>
        obtain rfl := Except.ok.inj h
        refine ⟨?_, .beforeName _ rfl ?_ ?_⟩ <;> dsimp only

/-- The place behind the arrow and its gap: a visible character, or the last one of the text. -/
lemma arrow?_gap {masked : Text} {n : Nat} (h : arrow? masked = some (i, n)) :
    (∃ c, masked[i + n]? = some c ∧ isBlank c = false) ∨ i + n + 1 = masked.length := by
  unfold arrow? at h
  split at h
  next => simp at h
  next j hj =>
    dsimp only at h
    split at h
    · simp at h
    next hrest =>
      have hpos : 0 < (masked.drop (j + 2)).length := length_pos_iff.mpr fun hnil => hrest (by rw [hnil]; rfl)
      rw [Option.some.injEq, Prod.mk.injEq] at h
      obtain ⟨rfl, rfl⟩ := h
      have hbehind := drop_length_takeWhile isBlank (masked.drop (j + 2))
      rw [← indentation] at hbehind
      split
      next hgap =>
        rw [length_drop] at hpos hgap
        omega
      next hgap =>
        left
        cases hvisible : (masked.drop (j + 2)).dropWhile isBlank with
        | nil =>
          rw [hvisible, drop_eq_nil_iff] at hbehind
          exact absurd (Nat.le_antisymm (takeWhile_sublist _).length_le hbehind) hgap
        | cons c rest =>
          refine ⟨c, ?_, ?_⟩
          · rw [← Nat.add_assoc, ← getElem?_drop, ← head?_drop, hbehind, hvisible, head?_cons]
          · have hnot := head?_dropWhile_not isBlank (masked.drop (j + 2))
            rwa [hvisible] at hnot

/-! ## The texts in the ranges -/

lemma getText_headPart (hhead : headOf e = .ok head) {j : Nat} (hi : Anchored head.text i)
    (hj : Anchored head.text j) (hij : i ≤ j) (hle : j ≤ head.text.length) :
    e.document.getText (e.document.rangeAt (head.offset + i : Nat) (head.offset + j : Nat)) = between head.text i j := by
  obtain ⟨hoffset, htext, _, _⟩ := headOf_ok hhead
  have hpart := @TextDocument.getText_part e.document.toTextDocument ⟨e.declarationStart, e.declarationEnd⟩ i j
  rw [← htext, ← hoffset] at hpart
  exact hpart hi hj hij hle

lemma getText_returnRange_behindArrow (hhead : headOf e = .ok head) {arrow gap : Nat}
    (harrow : arrow? (head.masked.drop (head.rightParenthesis + 1)) = some (arrow, gap)) {type : Text}
    (htype : type = Types.trailingReturnType ((head.text.drop (head.rightParenthesis + 1)).drop (arrow + gap)))
    (hvisible : isAllBlank type = false) :
    e.document.getText (e.document.rangeAt (head.offset + head.rightParenthesis + 1 + arrow + gap : Nat)
      (head.offset + head.rightParenthesis + 1 + arrow + gap + type.length : Nat)) = type := by
  set k := head.rightParenthesis + 1 + (arrow + gap) with hk
  rw [drop_drop] at htype
  obtain ⟨hform, _, _⟩ := masked_of_headOf hhead
  obtain ⟨j, hj, htake, hstop⟩ := Types.exists_trailingReturnType (head.text.drop k)
  rw [htake] at htype
  have hkle : k ≤ head.text.length := by
    have hbound := add_le_of_arrow? harrow
    have hright := (headOf_ok hhead).2.2.1.2
    rw [length_drop, length_masked hhead] at hbound
    omega
  have hstart : Anchored head.text k := by
    rcases arrow?_gap harrow with ⟨c, hc, hblank⟩ | hlast
    · rw [getElem?_drop] at hc
      exact .before (hform.getElem?_of_not_isBlank hc hblank) hblank
    · -- one character is left for the type, which is not blank
      have hlength : (head.text.drop k).length = 1 := by
        rw [length_drop] at hlast ⊢
        rw [length_masked hhead] at hlast
        omega
      obtain ⟨c, hc⟩ := length_eq_one_iff.mp hlength
      refine .before (c := c) (by rw [← head?_drop, hc, head?_cons]) ?_
      by_contra hblank
      have hall : isAllBlank type := by
        refine all_eq_true.mpr fun d hd => ?_
        rw [htype, hc] at hd
        rw [mem_singleton.mp (mem_of_mem_take hd)]
        exact eq_true_of_ne_false hblank
      rw [hall] at hvisible
      cases hvisible
  have hlength : type.length = j := by
    rw [htype, length_take_of_le hj]
  rw [length_drop] at hj
  have hend : Anchored head.text (k + j) := by
    refine Anchored.of_between (b := head.text.length) ?_ hstart .stop hkle (Nat.le_refl _)
    rwa [between, take_of_length_le (by rw [length_drop])]
  have hpart := getText_headPart hhead hstart hend (Nat.le_add_right ..) (by omega)
  rw [between, Nat.add_sub_cancel_left] at hpart
  convert hpart using 4 <;> omega

lemma getText_returnRange_beforeName (hhead : headOf e = .ok head) {place : Int} {leading type : Text}
    (hleading : leading = trimEnd (upTo head.text place)) (htype : type = trimEnd (Types.leadingReturnType leading)) :
    e.document.getText (e.document.rangeAt ((head.offset + leading.length : Nat) - (type.length : Int))
      ((head.offset + leading.length : Nat) - (type.length : Int) + type.length)) = type := by
  have hlast : ∀ c, leading.getLast? = some c → isBlank c = false := by
    intro c hc
    rw [hleading] at hc
    exact getLast?_dropEndWhile hc
  have hwritten : leading <+: head.text := by
    obtain ⟨x, hx, _⟩ := exists_eq_dropEndWhile_append isBlank (upTo head.text place)
    rw [← trimEnd, ← hleading] at hx
    exact IsPrefix.trans ⟨x, hx.symm⟩ <| take_prefix ..
  obtain ⟨i, hi, hdrop, hstart⟩ := Types.exists_leadingReturnType leading
  -- the text before the name is trimmed, so the type at its end is
  have htype : type = leading.drop i := by
    rw [htype, hdrop, trimEnd, dropEndWhile_eq_self]
    intro c hc
    refine hlast c ?_
    rw [← take_append_drop i leading, getLast?_append, hc]
    rfl
  have hend : Anchored head.text leading.length := by
    rcases eq_nil_or_concat' leading with hnil | ⟨x, c, hx⟩
    · rw [hnil]
      exact .start
    · rw [hx, length_append]
      refine .behind (c := c) ?_ (hlast c (by simp [hx]))
      refine prefix_iff_getElem?.mp hwritten x.length (by simp [hx]) |>.trans ?_
      simp [hx]
  have hwhole : leading = between head.text 0 leading.length := by
    exact prefix_iff_eq_take.mp hwritten
  have hbegin : Anchored head.text i := by
    rw [hwhole] at hstart
    simpa using hstart.of_between .start hend (Nat.zero_le _) hwritten.length_le
  have hpart := getText_headPart hhead hbegin hend hi hwritten.length_le
  have hbetween : between head.text i leading.length = type := by
    rw [between, ← drop_take, ← prefix_iff_eq_take.mp hwritten, htype]
  rw [hbetween] at hpart
  have hlength : type.length = leading.length - i := by
    rw [htype, length_drop]
  convert hpart using 4 <;> omega

lemma getText_parameters (hhead : headOf e = .ok head) :
    e.document.getText (parametersIn e head).range =
      between head.text (head.leftParenthesis + 1) head.rightParenthesis ∧
    ∀ p ∈ (parametersIn e head).parameters, e.document.getText p.range = p.raw := by
  obtain ⟨_, hleft, hright⟩ := masked_of_headOf hhead
  obtain ⟨_, _, ⟨hl, hr⟩, _⟩ := headOf_ok hhead
  unfold parametersIn
  set a := head.leftParenthesis + 1
  set text := between head.text a head.rightParenthesis with htext
  have hstart : Anchored head.text a := .behind hleft rfl
  have hpart : ∀ {i j : Nat}, Anchored text i → Anchored text j → i ≤ j → j ≤ text.length →
      e.document.getText (e.document.rangeAt (head.offset + (a : Nat) + i) (head.offset + (a : Nat) + j)) =
        between text i j := by
    intro i j hi hj hij hle
    have hlength : text.length = min (head.rightParenthesis - a) (head.text.length - a) := length_between ..
    rcases Nat.le_total a head.rightParenthesis with har | hra
    · have hstop : Anchored head.text head.rightParenthesis := .before hright rfl
      have hpart := getText_headPart hhead (hi.of_between hstart hstop har hr.le) (hj.of_between hstart hstop har hr.le)
        (Nat.add_le_add_left hij _) (by omega)
      rw [← between_between hle] at hpart
      convert hpart using 4 <;> omega
    · -- nothing stands between the parentheses
      obtain ⟨rfl, rfl⟩ : i = 0 ∧ j = 0 := by omega
      have hpart := getText_headPart hhead hstart hstart (Nat.le_refl _) hl
      rw [between, Nat.sub_self] at hpart
      congr 2
  have hform : MaskedForm text (nestedGroups (nonSource text false)) :=
    (maskedForm_nonSource text false).trans (maskedForm_nestedGroups _)
  obtain ⟨named, dots, hparameters, hplaces, hdots⟩ :=
    exists_places_parseIn e.document.toTextDocument (head.offset + (a : Nat)) text
  have hplace : ∀ s ∈ named ++ dots, e.document.getText (e.document.rangeAt (head.offset + (a : Nat) + s.start)
      (head.offset + (a : Nat) + s.stop)) = extract text s := by
    intro s hs
    obtain ⟨k, c, d, hc, hcBlank, hk, hd, hdBlank⟩ := hplaces.ends hform hs
    obtain ⟨_, hlt, hle⟩ := hplaces.inside s hs
    exact hpart (.before hc hcBlank) (hk ▸ .behind hd hdBlank) hlt.le (hform.length_eq ▸ hle)
  constructor
  · have hall := hpart .start .stop (Nat.zero_le _) (Nat.le_refl _)
    rw [between, drop_zero, Nat.sub_zero, take_length] at hall
    rwa [Int.natCast_zero, Int.add_zero] at hall
  · intro p hp
    rw [hparameters, mem_append, mem_map, mem_map] at hp
    rcases hp with ⟨s, hs, rfl⟩ | ⟨s, hs, rfl⟩
    · rw [parameterAt, Parameter.range_ofPiece, Parameter.raw_ofPiece]
      exact hplace s (mem_append_left _ hs)
    · have hwritten : "..." <+: extract text s :=
        (hform.extract s).prefix_of_visible (by rw [hdots s hs]) (by decide)
      have hraw : "..." = extract text s :=
        hwritten.eq_of_length (by rw [← (hform.extract s).length_eq, hdots s hs])
      exact (hplace s (mem_append_right _ hs)).trans hraw.symm

/-- **The ranges of a signature denote what was read**: the return type, before the name or behind an arrow, unless it
is blank; what is between the two parentheses; and each parameter as written. -/
theorem ranges_denote_texts (h : ofEntity e = .ok s) : ∃ head, headOf e = .ok head ∧
    e.document.getText s.range = head.text ∧
    head.text[head.leftParenthesis]? = some '(' ∧ head.text[head.rightParenthesis]? = some ')' ∧
    (isAllBlank s.returnType = false → e.document.getText s.returnRange = s.returnType) ∧
    e.document.getText s.parameters.range = between head.text (head.leftParenthesis + 1) head.rightParenthesis ∧
    ∀ p ∈ s.parameters.parameters, e.document.getText p.range = p.raw := by
  obtain ⟨head, hhead, hrange, _⟩ := ofEntity_ok h
  obtain ⟨hparameters, hreturn⟩ := ofEntity_texts h hhead
  obtain ⟨_, hleft, hright⟩ := masked_of_headOf hhead
  have htype : isAllBlank s.returnType = false → e.document.getText s.returnRange = s.returnType := by
    intro hvisible
    cases hreturn with
    | none htype =>
      rw [htype] at hvisible
      cases hvisible
    | behindArrow arrow gap harrow htype hrange =>
      rw [hrange]
      exact getText_returnRange_behindArrow hhead harrow htype hvisible
    | beforeName leading hleading htype hrange =>
      rw [hrange]
      exact getText_returnRange_beforeName hhead hleading htype
  refine ⟨head, hhead, ?_, hleft, hright, htype, ?_⟩
  · rw [hrange, (headOf_ok hhead).2.1]
  · rw [hparameters]
    exact getText_parameters hhead

/-- A method over several lines, with the return type behind an arrow. -/
def arrowMethod : Entity where
  document := {
    uri := "file:///p/a.h"
    text := "struct S \x7b\r\n    auto f(const char *a,\r\n           ...) const\r\n        ->\r\n        int *;\r\n\x7d;\r\n"
    opening := 0 }
  node := ⟨⟨"f", "f", [], .method, ⟨⟨1, 4⟩, ⟨4, 13⟩⟩, ⟨⟨1, 9⟩, ⟨1, 10⟩⟩, []⟩, []⟩

/-- Every part of it is found at its place. -/
theorem ranges_denote_texts_arrowMethod : ∃ s, ofEntity arrowMethod = .ok s ∧ s.returnType = "int *" ∧
    arrowMethod.document.getText s.returnRange = "int *" ∧
    s.parameters.parameters.map (·.raw) = ["const char *a", "..."] ∧
    ∀ p ∈ s.parameters.parameters, arrowMethod.document.getText p.range = p.raw := by
  obtain ⟨s, hs, hsignature⟩ := @exists_ok_of_any _ (ofEntity arrowMethod) (fun s => decide (
    s.returnType = "int *" ∧ s.parameters.parameters.map (·.raw) = ["const char *a", "..."]))
    (by decide +kernel)
  obtain ⟨htype, hraw⟩ := of_decide_eq_true hsignature
  obtain ⟨_, _, _, _, _, hreturn, _, hparameters⟩ := ranges_denote_texts hs
  refine ⟨s, hs, htype, ?_, hraw, hparameters⟩
  rw [hreturn (by rw [htype]; decide), htype]

end Signature

end CppScaffold
