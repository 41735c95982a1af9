import CppScaffold.Parameters
import CppScaffold.Proofs.Recognizers
import CppScaffold.Proofs.Masking
import CppScaffold.Proofs.Positions
import CppScaffold.Proofs.Trimming

/-!
# The pieces of a parameter list

A parameter list is cut at the commas of its masked text. `Places` says what the cut is, `Parameter.Recomposes` how the
parts of a parameter are put together to its piece again.
-/

namespace CppScaffold

open Text List

namespace ParameterList

open Recognizer

/-- The spans are the pieces of the masked text between the offsets `lo` and `hi`. -/
structure Places (masked : Text) (lo hi : Nat) (spans : List Span) : Prop where
  /-- A piece is not empty and lies between the offsets. -/
  inside : ∀ s ∈ spans, lo ≤ s.start ∧ s.start < s.stop ∧ s.stop ≤ hi
  no_comma : ∀ s ∈ spans, ',' ∉ extract masked s
  /-- A piece begins and ends with visible characters. -/
  trimmed : ∀ s ∈ spans, Trimmed (extract masked s)
  divided : spans.Pairwise fun a b => ∃ k, a.stop ≤ k ∧ k < b.start ∧ masked[k]? = some ','
  /-- Every visible character that is no comma lies in a piece. -/
  covered : ∀ k c, lo ≤ k → k < hi → masked[k]? = some c → isBlank c = false → c ≠ ',' →
    ∃ s ∈ spans, s.start ≤ k ∧ k < s.stop

def parameterAt (document : TextDocument) (offset : Int) (text partlyMasked masked : Text) (s : Span) : Parameter :=
  Parameter.ofPiece (extract text s) (extract partlyMasked s) (extract masked s)
    (document.rangeAt (offset + s.start) (offset + s.stop))

/-! ## Places -/

variable {masked : Text}

lemma Places.nil {lo hi : Nat}
    (h : ∀ k c, lo ≤ k → k < hi → masked[k]? = some c → c ≠ ',' → isBlank c) : Places masked lo hi [] where
  inside := by simp
  no_comma := by simp
  trimmed := by simp
  divided := .nil
  covered k c hlo hhi hc hblank hcomma := by
    rw [h k c hlo hhi hc hcomma] at hblank
    cases hblank

lemma Places.singleton {pre l core r post : Text} (hl : ∀ c ∈ l, isBlank c) (hr : ∀ c ∈ r, isBlank c) (hcore : Trimmed
    core) (hcomma : ',' ∉ core) : Places (pre ++ (l ++ (core ++ r) ++ post)) pre.length (pre.length + (l ++ (core ++
    r)).length) [⟨pre.length + l.length, pre.length + l.length + core.length⟩] := by
  have hextract : extract (pre ++ (l ++ (core ++ r) ++ post))
      ⟨pre.length + l.length, pre.length + l.length + core.length⟩ = core := by
    have h := extract_append (pre ++ l) core (r ++ post)
    simpa using h
  refine ⟨?_, ?_, ?_, pairwise_singleton _ _, fun k c hlo hhi hc hblank _ => ?_⟩
  · have := length_pos_iff.mpr hcore.ne_nil
    simp only [mem_singleton, forall_eq, length_append]
    omega
  · simpa only [mem_singleton, forall_eq, hextract] using hcomma
  · simpa only [mem_singleton, forall_eq, hextract] using hcore
  · -- the characters before and after the core are blanks
    refine ⟨_, mem_singleton_self _, ?_, ?_⟩
    · change pre.length + l.length ≤ k
      by_contra hk
      have hget : l[k - pre.length]? = some c := by
        rw [← hc, getElem?_append_right hlo, append_assoc, getElem?_append_left (by omega)]
      rw [hl c (mem_of_getElem? hget)] at hblank
      cases hblank
    · change k < pre.length + l.length + core.length
      by_contra hk
      simp only [length_append] at hhi
      have hget : r[k - pre.length - l.length - core.length]? = some c := by
        rw [← hc, getElem?_append_right hlo, append_assoc, getElem?_append_right (by omega),
          append_assoc, getElem?_append_right (by omega), getElem?_append_left (by omega)]
      rw [hr c (mem_of_getElem? hget)] at hblank
      cases hblank

lemma Places.append {lo mid hi : Nat} {a b : List Span} (ha : Places masked lo mid a)
    (hb : Places masked (mid + 1) hi b) (hcomma : masked[mid]? = some ',') (hlo : lo ≤ mid) (hhi : mid < hi) :
    Places masked lo hi (a ++ b) where
  inside s hs := by
    rcases mem_append.mp hs with hs | hs
    · have := ha.inside s hs
      omega
    · have := hb.inside s hs
      omega
  no_comma s hs := (mem_append.mp hs).elim (ha.no_comma s) (hb.no_comma s)
  trimmed s hs := (mem_append.mp hs).elim (ha.trimmed s) (hb.trimmed s)
  divided := by
    refine pairwise_append.mpr ⟨ha.divided, hb.divided, fun x hx y hy => ⟨mid, ?_, ?_, hcomma⟩⟩
    · exact (ha.inside x hx).2.2
    · have := hb.inside y hy
      omega
  covered k c hk hk' hc hblank hne := by
    rcases Nat.lt_trichotomy k mid with hlt | rfl | hgt
    · obtain ⟨s, hs, h⟩ := ha.covered k c hk hlt hc hblank hne
      exact ⟨s, mem_append_left _ hs, h⟩
    · exact absurd (Option.some.inj (hc.symm.trans hcomma)) hne
    · obtain ⟨s, hs, h⟩ := hb.covered k c hgt hk' hc hblank hne
      exact ⟨s, mem_append_right _ hs, h⟩

/-! ## Cutting at commas -/

/-- A text is one piece, or a piece up to its first comma and the text behind. -/
lemma piece_or_comma (t : Text) : (∀ c ∈ t, (c != ',')) ∨ ∃ m rest, t = m ++ ',' :: rest ∧ ∀ c ∈ m, (c != ',') := by
  by_cases h : ',' ∈ t
  · obtain ⟨m, rest, rfl, hm⟩ := eq_append_cons_of_mem h
    exact .inr ⟨m, rest, rfl, fun c hc => bne_iff_ne.mpr fun heq => hm (heq ▸ hc)⟩
  · exact .inl fun c hc => bne_iff_ne.mpr fun heq => h (heq ▸ hc)

section

variable (document : TextDocument) (offset : Int) (text partlyMasked : Text)

lemma parsePiece_of_core {pre l core r post : Text} (hl : ∀ c ∈ l, isBlank c) (hr : ∀ c ∈ r, isBlank c) (hcore :
    Trimmed core) : parsePiece document offset text partlyMasked (pre ++ (l ++ (core ++ r) ++ post)) ⟨pre.length,
    pre.length + (l ++ (core ++ r)).length⟩ = some (parameterAt document offset text partlyMasked (pre ++ (l ++ (core ++
    r) ++ post)) ⟨pre.length + l.length, pre.length + l.length + core.length⟩) := by
  have hstop : pre.length + (l ++ core).length = pre.length + l.length + core.length := by
    rw [length_append, Nat.add_assoc]
  simp only [parsePiece, extract_append, hcore.isAllBlank_append l r, Bool.false_eq_true, if_false, hcore.indentation_append hl,
    hcore.trimEnd_append l hr, hstop]
  rfl

lemma exists_places_piece (pre : Text) {m : Text} (post : Text) (hm : ∀ c ∈ m, (c != ',')) : ∃ spans, (if m = [] then
    [] else [⟨pre.length, pre.length + m.length⟩]).filterMap (parsePiece document offset text partlyMasked (pre ++ (m ++
    post))) = spans.map (parameterAt document offset text partlyMasked (pre ++ (m ++ post))) ∧ Places (pre ++ (m ++
    post)) pre.length (pre.length + m.length) spans := by
  cases hblank : isAllBlank m with
  | true =>
    refine ⟨[], ?_, Places.nil fun k c hlo hhi hc _ => ?_⟩
    · split
      · rfl
      · simp [parsePiece, extract_append, hblank]
    · rw [getElem?_append_right hlo, getElem?_append_left (by omega)] at hc
      exact all_eq_true.mp hblank c (mem_of_getElem? hc)
  | false =>
    obtain ⟨l, core, r, rfl, hl, hr, hcore⟩ := exists_core hblank
    have hne : l ++ (core ++ r) ≠ [] := by simp [hcore.ne_nil]
    have hcomma : ',' ∉ core := fun h => absurd (hm ',' (by simp [h])) (by decide)
    refine ⟨_, ?_, Places.singleton hl hr hcore hcomma⟩
    rw [if_neg hne, filterMap_cons_some (parsePiece_of_core document offset text partlyMasked hl hr hcore)]
    rfl

/-- The parameters that are read from the pieces of a text stand at the places of the text. -/
lemma exists_places (pre rest : Text) : ∃ spans, (findAllFrom (some1 (· != ',')) none pre.length 0 rest).filterMap
    (parsePiece document offset text partlyMasked (pre ++ rest)) = spans.map (parameterAt document offset text
    partlyMasked (pre ++ rest)) ∧ Places (pre ++ rest) pre.length (pre ++ rest).length spans := by
  -- each step takes the piece up to the next comma away
  induction hn : rest.length using Nat.strong_induction_on generalizing pre rest with
  | _ n ih =>
    rcases piece_or_comma rest with hall | ⟨m, more, rfl, hm⟩
    · rw [findAllFrom_all hall]
      have h := exists_places_piece document offset text partlyMasked pre [] hall
      simpa using h
    · obtain ⟨a, ha, hplaces⟩ := exists_places_piece document offset text partlyMasked pre
        (',' :: more) hm
      obtain ⟨b, hb, hplaces'⟩ := ih more.length (by simp at hn; omega) (pre ++ m ++ [',']) more rfl
      have hassoc : pre ++ m ++ [','] ++ more = pre ++ (m ++ ',' :: more) := by simp
      have hlength : (pre ++ m ++ [',']).length = pre.length + m.length + 1 := by simp [Nat.add_assoc]
      rw [hassoc, hlength] at hb hplaces'
      refine ⟨a ++ b, ?_, hplaces.append hplaces' ?_ (by omega) (by simp)⟩
      · rw [findAllFrom_append_separator hm rfl, filterMap_append, ha, hb, map_append]
      · rw [getElem?_append_right (by omega), Nat.add_sub_cancel_left, getElem?_append_right (by omega),
          Nat.sub_self, getElem?_cons_zero]

end

/-! ## The dots at the end -/

/-- Three dots between blanks. -/
def IsDots (m : Text) : Prop := ∃ l r, m = l ++ ("..." ++ r) ∧ (∀ c ∈ l, isBlank c) ∧ ∀ c ∈ r, isBlank c

lemma trimmed_dots : Trimmed "..." := ⟨by decide, by rintro c ⟨⟩; rfl, by rintro c ⟨⟩; rfl⟩

lemma IsDots.eq_or_isBlank {m : Text} {c : Char} (h : IsDots m) (hc : c ∈ m) : c = '.' ∨ isBlank c := by
  obtain ⟨l, r, rfl, hl, hr⟩ := h
  simp only [mem_append] at hc
  rcases hc with hc | hc | hc
  · exact .inr (hl c hc)
  · exact .inl (by simpa using hc)
  · exact .inr (hr c hc)

lemma isDots_of_seq {prev : Option Char} {t : Text} {n : Nat}
    (h : seq [blanks, exactly "...", blanks, atEnd] prev t = some n) : IsDots t := by
  simp only [seq, blanks, andThen_eq_some_iff, many_eq_some_iff, exactly_eq_some_iff, atEnd_eq_some_iff] at h
  obtain ⟨_, _, rfl, ⟨_, _, ⟨hdots, rfl⟩, ⟨_, _, rfl, ⟨hend, rfl⟩, rfl⟩, rfl⟩, rfl⟩ := h
  simp only [drop_length_takeWhile] at hdots hend
  obtain ⟨r, hr⟩ := hdots
  rw [← hr, dropWhile_eq_nil_iff] at hend
  refine ⟨t.takeWhile isBlank, r, ?_, fun c hc => mem_takeWhile_imp hc, hend⟩
  rw [hr, takeWhile_append_dropWhile]

lemma exists_dots_of_search? {s : Span} (h : search? variadicTail masked = some s) :
    ∃ pre m, masked = pre ++ m ∧ IsDots m ∧ ((s.start = 0 ∧ pre = []) ∨ pre = masked.take s.start ++ [',']) := by
  obtain ⟨_, hle, haccept, _⟩ := search?_eq_some_iff.mp h
  have hsplit := take_append_drop s.start masked
  rw [variadicTail, firstOf_cons_eq_some_iff, firstOf_cons_eq_some_iff] at haccept
  rcases haccept with haccept | ⟨_, haccept | ⟨_, haccept⟩⟩
  · -- nothing stands before the place, so it is the start of the list
    split at haccept
    next hnone =>
      have hstart : s.start = 0 := by
        by_contra hpos
        rw [before, if_neg hpos, Option.isNone_iff_eq_none, getElem?_eq_none_iff] at hnone
        omega
      have hdots := isDots_of_seq haccept
      rw [hstart, drop_zero] at hdots
      exact ⟨[], masked, rfl, hdots, .inl ⟨hstart, rfl⟩⟩
    · cases haccept
  · obtain ⟨_, _, hcomma, hdots, _⟩ := andThen_eq_some_iff.mp haccept
    obtain ⟨c, rest, hcons, hc, rfl⟩ := char_eq_some_iff.mp hcomma
    rw [beq_iff_eq] at hc
    rw [hcons, drop_one] at hdots
    refine ⟨masked.take s.start ++ [','], rest, ?_, isDots_of_seq hdots, .inr rfl⟩
    rw [append_assoc, singleton_append, ← hc, ← hcons, hsplit]
  · cases haccept

lemma findAfter?_dots {pre l r : Text} (hl : ∀ c ∈ l, isBlank c) {start : Nat} (hstart : start ≤ pre.length)
    (hpre : '.' ∉ pre.drop start) :
    findAfter? "..." (pre ++ (l ++ ("..." ++ r))) start = some (pre.length + l.length) := by
  have hresolve : resolveIndex (pre ++ (l ++ ("..." ++ r))).length (start : Int) = start := by
    rw [resolveIndex, if_neg (by omega), length_append]
    omega
  rw [findAfter?, startingAt, hresolve, drop_append_of_le_length hstart, findFrom_eq_some_iff]
  refine ⟨(pre.drop start).length + l.length, ?_, ?_, fun j hj hprefix => ?_⟩
  · rw [length_drop]
    omega
  · rw [← append_assoc, ← length_append, drop_left]
    exact prefix_append ..
  · -- a dot before would stand in `pre` or among the blanks
    obtain ⟨rest, hrest⟩ := hprefix
    have hdot : (pre.drop start ++ l)[j]? = some '.' := by
      have hget : (pre.drop start ++ (l ++ ("..." ++ r)))[j]? = some '.' := by
        rw [← head?_drop, ← hrest]
        rfl
      rwa [← append_assoc, getElem?_append_left (by rw [length_append]; omega)] at hget
    rcases mem_append.mp (mem_of_getElem? hdot) with hmem | hmem
    · exact hpre hmem
    · exact absurd (hl '.' hmem) (by decide)

end ParameterList

/-! ## The parts of a parameter -/

namespace Parameter

open Recognizer Mask

/-- The parts of a parameter, with blanks before the name, are the parameter as written; behind the first visible
equals sign stands the default value. -/
def Recomposes (p : Parameter) (masked : Text) : Prop :=
  ∃ blank rest, isAllBlank blank ∧
    p.raw = p.type.take p.nameIndex ++ blank ++ p.name ++ p.type.drop p.nameIndex ++ rest ∧
    ((rest = [] ∧ p.defaultValue = [] ∧ '=' ∉ masked) ∨
      ∃ gap value front maskedGap back, rest = gap ++ '=' :: value ∧ trim value = p.defaultValue ∧
        masked = front ++ maskedGap ++ '=' :: back ∧ '=' ∉ front ∧ isAllBlank maskedGap ∧
        maskedGap.length = gap.length ∧ back.length = value.length)

lemma prefix_leadingIdentifier (t : Text) : leadingIdentifier t <+: t :=
  take_prefix ..

lemma space_notMem_leadingIdentifier (t : Text) : ' ' ∉ leadingIdentifier t := by
  rw [leadingIdentifier]
  cases h : identifierPart none t with
  | none => simp
  | some n =>
    obtain ⟨c, rest, rfl, hc, rfl⟩ := identifierPart_eq_some_iff.mp h
    have htake : rest.take (rest.takeWhile isWordChar).length = rest.takeWhile isWordChar := by
      exact Eq.symm <| prefix_iff_eq_take.mp <| takeWhile_prefix _
    rw [Option.getD_some, Nat.add_comm, take_succ_cons, htake]
    rintro (_ | hmem)
    · exact absurd hc (by decide)
    · next hmem => exact absurd (mem_takeWhile_imp hmem) (by decide)

/-- The identifier that is read from the masked text stands in the text at the same place. -/
lemma leadingIdentifier_written {t m : Text} (h : MaskedForm t m) (k : Nat) :
    t = t.take k ++ leadingIdentifier (m.drop k) ++ t.drop (k + (leadingIdentifier (m.drop k)).length) := by
  obtain ⟨rest, hrest⟩ := (h.drop k).prefix_of_visible (prefix_leadingIdentifier _) (space_notMem_leadingIdentifier _)
  rw [← drop_drop, ← hrest, drop_left, append_assoc, hrest, take_append_drop]

/-- The declaration is its type with the name put in, with blanks before it. -/
def SplitsTo (declaration : Text) (parts : Text × Text × Nat) : Prop :=
  ∃ blank, isAllBlank blank ∧
    declaration = parts.1.take parts.2.2 ++ blank ++ parts.2.1 ++ parts.1.drop parts.2.2

lemma splitsTo_unnamed (declaration : Text) : SplitsTo declaration (declaration, [], declaration.length) :=
  ⟨[], rfl, by simp⟩

variable {declaration masked : Text}

lemma splitsTo_splitName (h : MaskedForm declaration masked) {start : Nat} {parts : Text × Text × Nat} (hparts :
    splitName declaration start (leadingIdentifier (masked.drop start)) = some parts) : SplitsTo declaration parts := by
  rw [splitName] at hparts
  split at hparts
  · obtain rfl := Option.some.inj hparts
    obtain ⟨blank, hblank, hall⟩ := exists_eq_dropEndWhile_append isBlank (declaration.take start)
    refine ⟨blank, all_eq_true.mpr hall, ?_⟩
    simp only [take_left, drop_left]
    rw [trimEnd, ← hblank]
    exact leadingIdentifier_written h start
  · cases hparts

lemma splitsTo_splitNestedName {partlyMasked : Text} {parts : Text × Text × Nat}
    (hparts : splitNestedName declaration partlyMasked masked = some parts) : SplitsTo declaration parts := by
  simp only [splitNestedName, Option.bind_eq_bind, Option.bind_eq_some_iff] at hparts
  obtain ⟨nested, _, close, _, place, hplace, hparts⟩ := hparts
  split at hparts
  · cases hparts
  · obtain rfl := Option.some.inj hparts
    have hform := maskedForm_nonSource (declaration.take close) true
    have hwritten := leadingIdentifier_written hform place.start
    set inner := declaration.take close
    set name := leadingIdentifier ((nonSource inner true).drop place.start)
    have hle : place.start ≤ inner.length := hform.length_eq ▸ (search?_eq_some_iff.mp hplace).2.1
    have hname : place.start + name.length ≤ inner.length := by
      have := congrArg length hwritten
      simp only [length_append, length_take, length_drop] at this
      omega
    have hlength : (inner.take place.start).length = place.start := by
      rw [length_take]
      omega
    have hdrop : declaration.drop (place.start + name.length) =
        inner.drop (place.start + name.length) ++ declaration.drop close := by
      rw [← drop_append_of_le_length hname, take_append_drop]
    refine ⟨[], rfl, ?_⟩
    simp only [take_left' hlength, drop_left' hlength, append_nil]
    calc declaration
        = inner ++ declaration.drop close := (take_append_drop ..).symm
      _ = inner.take place.start ++ name ++ declaration.drop (place.start + name.length) := by
        rw [hdrop, ← append_assoc, ← hwritten]

lemma splitsTo_splitDeclaration (h : MaskedForm declaration masked)
    (partlyMasked : Text) : SplitsTo declaration (splitDeclaration declaration partlyMasked masked) := by
  rw [splitDeclaration]
  split
  next place _ =>
    split
    · cases hparts : splitName declaration place.start (leadingIdentifier (masked.drop place.start)) with
      | none => exact splitsTo_unnamed declaration
      | some parts => exact splitsTo_splitName h hparts
    · exact splitsTo_unnamed declaration
  · cases hparts : splitNestedName declaration partlyMasked masked with
    | none => exact splitsTo_unnamed declaration
    | some parts => exact splitsTo_splitNestedName hparts

@[simp] lemma raw_ofPiece (raw partlyMasked masked : Text) (range : Range) :
    (ofPiece raw partlyMasked masked range).raw = raw := by
  rw [ofPiece]
  split <;> rfl

@[simp] lemma range_ofPiece (raw partlyMasked masked : Text) (range : Range) :
    (ofPiece raw partlyMasked masked range).range = range := by
  rw [ofPiece]
  split <;> rfl

lemma recomposes_ofPiece {raw : Text} (h : MaskedForm raw masked) (partlyMasked : Text) (range : Range) :
    (ofPiece raw partlyMasked masked range).Recomposes masked := by
  rw [ofPiece]
  split
  next hnone =>
    obtain ⟨blank, hblank, hraw⟩ := splitsTo_splitDeclaration h partlyMasked
    refine ⟨blank, [], hblank, ?_, .inl ⟨rfl, rfl, ?_⟩⟩
    · simpa using hraw
    · exact find?_singleton_eq_none_iff.mp hnone
  next i hi =>
    obtain ⟨a, b, rfl, rfl, ha⟩ := find?_singleton_eq_some_iff.mp hi
    obtain ⟨maskedGap, hgap, hgapblank⟩ := exists_eq_dropEndWhile_append isBlank a
    change a = trimEnd a ++ maskedGap at hgap
    have hfront : '=' ∉ trimEnd a := fun hmem => ha (hgap ▸ mem_append_left _ hmem)
    -- the text is cut where the masked one is
    obtain ⟨declared, _, rfl, hdeclared, hrest⟩ := h.append_inv
    obtain ⟨value, rfl, hvalue⟩ := hrest.cons_inv (by decide)
    obtain ⟨declaration, gap, rfl, hform, hgapForm⟩ := MaskedForm.append_inv (hgap ▸ hdeclared)
    have hmasked : trimEnd ((a ++ '=' :: b).take a.length) = trimEnd a := by rw [take_left]
    have hdeclaration : (declaration ++ gap ++ '=' :: value).take (trimEnd a).length = declaration := by
      rw [append_assoc, take_left' hform.length_eq.symm]
    have hvalueText : (declaration ++ gap ++ '=' :: value).drop (a.length + 1) = value := by
      rw [hdeclared.length_eq, ← drop_drop, drop_left, drop_one, tail_cons]
    simp only [hmasked, hdeclaration, hvalueText]
    obtain ⟨blank, hblank, hsplit⟩ := splitsTo_splitDeclaration hform (partlyMasked.take (trimEnd a).length)
    refine ⟨blank, gap ++ '=' :: value, hblank, ?_, .inr ⟨gap, value, trimEnd a, maskedGap, b, rfl, rfl, ?_, hfront,
      all_eq_true.mpr hgapblank, hgapForm.length_eq, hvalue.length_eq⟩⟩
    · rw [← hsplit, append_assoc]
    · rw [← hgap]

end Parameter

namespace ParameterList

open Recognizer Mask

/-! ## The list -/

variable {t masked : Text} {s : Span} {lo : Nat} {spans : List Span}

lemma extract_append_of_le {x : Text} (h : s.stop ≤ t.length) : extract (t ++ x) s = extract t s := by
  rw [Text.extract, Text.extract, between, between]
  by_cases hle : s.start ≤ t.length
  · rw [drop_append_of_le_length hle, take_append_of_le_length (by rw [length_drop]; omega)]
  · rw [Nat.sub_eq_zero_of_le (by omega), take_zero, take_zero]

lemma Places.extend (h : Places masked lo masked.length spans)
    (x : Text) : Places (masked ++ x) lo masked.length spans where
  inside := h.inside
  no_comma s hs := by
    rw [extract_append_of_le (h.inside s hs).2.2]
    exact h.no_comma s hs
  trimmed s hs := by
    rw [extract_append_of_le (h.inside s hs).2.2]
    exact h.trimmed s hs
  divided := h.divided.imp fun ⟨k, hk, hk', hc⟩ =>
    ⟨k, hk, hk', by rw [getElem?_append_left (List.getElem?_eq_some_iff.mp hc).1, hc]⟩
  covered k c hlo hhi hc := h.covered k c hlo hhi (by rwa [getElem?_append_left hhi] at hc)

@[simp] lemma isVariadic_variadicParameter (range : Range) : (variadicParameter range).isVariadic :=
  rfl

/-- The dots at the end of a list, with what stands before them. -/
lemma exists_places_dots (h : search? variadicTail masked = some s)
    (hspans : Places (masked.take s.start) 0 (masked.take s.start).length spans) :
    ∃ dots, findAfter? "..." masked s.start = some dots ∧
      Places masked 0 masked.length (spans ++ [⟨dots, dots + 3⟩]) ∧ extract masked ⟨dots, dots + 3⟩ = "..." := by
  obtain ⟨pre, _, hmasked, ⟨l, r, rfl, hl, hr⟩, hpre⟩ := exists_dots_of_search? h
  have hextract : extract masked ⟨pre.length + l.length, pre.length + l.length + 3⟩ = "..." := by
    have := extract_append (pre ++ l) "..." r
    rwa [length_append, append_assoc, ← hmasked] at this
  have hlast : Places masked pre.length masked.length [⟨pre.length + l.length, pre.length + l.length + 3⟩] := by
    have : Places (pre ++ (l ++ ("...".toList ++ r) ++ [])) pre.length _ _ :=
      Places.singleton hl hr trimmed_dots (by decide)
    rwa [append_nil, ← length_append, ← hmasked] at this
  rcases hpre with ⟨hstart, rfl⟩ | hpre
  · -- nothing stands before the dots
    have hnil : spans = [] := by
      refine eq_nil_iff_forall_not_mem.mpr fun a ha => ?_
      have := hspans.inside a ha
      rw [hstart, take_zero, length_nil] at this
      omega
    refine ⟨l.length, ?_, ?_, ?_⟩
    · rw [hmasked]
      have hdots : findAfter? "...".toList ([] ++ (l ++ ("...".toList ++ r))) 0 =
          some (([] : Text).length + l.length) := findAfter?_dots hl (Nat.zero_le _) (by simp)
      simpa [hstart] using hdots
    · simpa [hnil] using hlast
    · simpa using hextract
  · have hbody : (masked.take s.start).length = s.start := by
      have hle := (search?_eq_some_iff.mp h).2.1
      rw [length_take]
      omega
    have hlength : pre.length = s.start + 1 := by rw [hpre, length_append, hbody, length_singleton]
    have hcomma : masked[s.start]? = some ',' := by
      rw [hmasked, hpre, append_assoc, getElem?_append_right (by omega), hbody, Nat.sub_self]
      rfl
    refine ⟨pre.length + l.length, ?_, ?_, hextract⟩
    · rw [hmasked]
      refine findAfter?_dots hl (by omega) ?_
      rw [hpre, ← hbody]
      simp
    · have hext := hspans.extend (masked.drop s.start)
      rw [take_append_drop, hbody] at hext
      rw [hlength] at hlast ⊢
      exact hext.append hlast hcomma (Nat.zero_le _) (List.getElem?_eq_some_iff.mp hcomma).1

/-- The parameters of a list stand at the places of its masked text; the last of them may be dots. -/
lemma exists_places_parseIn (document : TextDocument) (offset : Int) (text : Text) : ∃ spans last,
    (parseIn document offset text).parameters =
      spans.map (parameterAt document offset text (nonSource text false) (nestedGroups (nonSource text false))) ++
        last.map (fun s => variadicParameter (document.rangeAt (offset + s.start) (offset + s.stop))) ∧
    Places (nestedGroups (nonSource text false)) 0 (nestedGroups (nonSource text false)).length (spans ++ last) ∧
    ∀ s ∈ last, extract (nestedGroups (nonSource text false)) s = "..." := by
  rw [parseIn]
  set partlyMasked := nonSource text false
  set masked := nestedGroups partlyMasked
  cases htail : search? variadicTail masked with
  | none =>
    obtain ⟨spans, hspans, hplaces⟩ := exists_places document offset text partlyMasked [] masked
    refine ⟨spans, [], ?_, ?_, by simp⟩
    · simpa [findAll] using hspans
    · simpa using hplaces
  | some s =>
    obtain ⟨spans, hspans, hplaces⟩ := exists_places document offset text partlyMasked [] (masked.take s.start)
    obtain ⟨dots, hdots, hplaces', hextract⟩ := exists_places_dots htail hplaces
    refine ⟨spans, [⟨dots, dots + 3⟩], ?_, hplaces', by simpa using hextract⟩
    have hcut : ∀ a ∈ spans, parameterAt document offset text partlyMasked (masked.take s.start) a =
        parameterAt document offset text partlyMasked masked a := by
      intro a ha
      have hextract := extract_append_of_le (x := masked.drop s.start) (hplaces.inside a ha).2.2
      rw [nil_append, take_append_drop] at hextract
      rw [parameterAt, parameterAt, hextract]
    rw [nil_append, map_congr_left hcut] at hspans
    have hstop : offset + ((dots + 3 : Nat) : Int) = offset + dots + 3 := by omega
    simp only [hdots, Option.getD_some, map_cons, map_nil, hstop]
    rw [← hspans]
    rfl

lemma Places.ends (hform : MaskedForm t masked) (h : Places masked lo masked.length spans) (hs : s ∈ spans) : ∃ k c d,
    t[s.start]? = some c ∧ isBlank c = false ∧ s.stop = k + 1 ∧ t[k]? = some d ∧ isBlank d = false := by
  obtain ⟨_, hlt, hle⟩ := h.inside s hs
  have hget : ∀ i, i < s.stop - s.start → (extract masked s)[i]? = masked[s.start + i]? := by
    intro i hi
    rw [Text.extract, between, getElem?_take_of_lt hi, getElem?_drop]
  have hlength : (extract masked s).length = s.stop - s.start := by
    rw [Text.extract, length_between]
    omega
  obtain ⟨k, hk⟩ : ∃ k, s.stop = k + 1 := Nat.exists_eq_succ_of_ne_zero (by omega)
  have hfirst := hget 0 (by omega)
  rw [Nat.add_zero, getElem?_eq_getElem (by omega : s.start < masked.length)] at hfirst
  have hfirstBlank := (h.trimmed s hs).head _ (head?_eq_getElem?.trans hfirst)
  have hlast := hget (s.stop - s.start - 1) (by omega)
  rw [show s.start + (s.stop - s.start - 1) = k by omega, getElem?_eq_getElem (by omega : k < masked.length)]
    at hlast
  have hlastBlank := (h.trimmed s hs).last _ (by rw [getLast?_eq_getElem?, hlength, hlast])
  exact ⟨k, _, _, hform.getElem?_of_not_isBlank (getElem?_eq_getElem (by omega)) hfirstBlank, hfirstBlank, hk,
    hform.getElem?_of_not_isBlank (getElem?_eq_getElem (by omega)) hlastBlank, hlastBlank⟩

lemma Places.not_insideBreak (hform : MaskedForm t masked) (h : Places masked lo masked.length spans) (hs : s ∈ spans)
    : ¬ InsideBreak t s.start ∧ ¬ InsideBreak t s.stop := by
  obtain ⟨k, c, d, hc, hcBlank, hk, hd, hdBlank⟩ := h.ends hform hs
  rw [hk]
  exact ⟨(not_insideBreak_of_visible hc hcBlank).1, (not_insideBreak_of_visible hd hdBlank).2⟩

/-- The offsets at which a parameter begins and ends. -/
def spanIn (document : TextDocument) (p : Parameter) : Span :=
  ⟨document.offsetAt p.range.start, document.offsetAt p.range.stop⟩

lemma Places.existsUnique (h : Places masked 0 masked.length spans)
    {k : Nat} {c : Char} (hc : masked[k]? = some c) (hblank : isBlank c = false) (hcomma : c ≠ ',') :
    ∃! i : Nat, ∃ s, spans[i]? = some s ∧ s.start ≤ k ∧ k < s.stop := by
  obtain ⟨s, hs, hk⟩ := h.covered k c (Nat.zero_le _) (List.getElem?_eq_some_iff.mp hc).1 hc hblank hcomma
  obtain ⟨i, hi⟩ := getElem?_of_mem hs
  refine ⟨i, ⟨s, hi, hk⟩, ?_⟩
  -- two pieces are divided, so `k` cannot lie in both
  have hapart : ∀ {i j : Nat} {a b : Span}, i < j → spans[i]? = some a → spans[j]? = some b → a.stop ≤ b.start := by
    intro i j a b hij ha hb
    obtain ⟨hi, rfl⟩ := List.getElem?_eq_some_iff.mp ha
    obtain ⟨hj, rfl⟩ := List.getElem?_eq_some_iff.mp hb
    obtain ⟨m, hm, hm', _⟩ := pairwise_iff_getElem.mp h.divided i j hi hj hij
    omega
  rintro j ⟨s', hj, hk'⟩
  rcases Nat.lt_trichotomy j i with hlt | rfl | hgt
  · have := hapart hlt hj hi
    omega
  · rfl
  · have := hapart hgt hi hj
    omega

/-- Nothing of a parameter list is lost or invented: each parameter is what is written at its place, every visible
character but the commas belongs to exactly one, and all but dots are made of their parts. -/
theorem parse_loses_nothing (t : Text) :
    let masked := nestedGroups (nonSource t false)
    let document : TextDocument := { uri := "untitled:parameters", text := t }
    let spans := (parse t).parameters.map (spanIn document)
    Places masked 0 masked.length spans ∧
    (∀ k c, masked[k]? = some c → isBlank c = false → c ≠ ',' →
      ∃! i : Nat, ∃ s, spans[i]? = some s ∧ s.start ≤ k ∧ k < s.stop) ∧
    ∀ p ∈ (parse t).parameters, p.raw = extract t (spanIn document p) ∧
      (p.isVariadic = false → p.Recomposes (extract masked (spanIn document p))) := by
  intro masked document spans
  have hform : MaskedForm t masked := (maskedForm_nonSource t false).trans (maskedForm_nestedGroups _)
  obtain ⟨named, dots, hparameters, hplaces, hdots⟩ := exists_places_parseIn document 0 t
  have hspan : ∀ (p : Parameter) (s : Span), s ∈ named ++ dots →
      p.range = document.rangeAt (0 + (s.start : Int)) (0 + (s.stop : Int)) → spanIn document p = s := by
    intro p s hs hrange
    obtain ⟨hstart, hstop⟩ := hplaces.not_insideBreak hform hs
    obtain ⟨_, hlt, hle⟩ := hplaces.inside s hs
    rw [Int.zero_add, Int.zero_add] at hrange
    have hlength : s.stop ≤ document.text.length := hform.length_eq ▸ hle
    rw [spanIn, hrange, TextDocument.rangeAt]
    simp only [document.offsetAt_positionAt (hlt.le.trans hlength), document.offsetAt_positionAt hlength]
    rw [if_neg (by exact hstart), if_neg (by exact hstop)]
  have hspans : spans = named ++ dots := by
    change (parseIn document 0 t).parameters.map (spanIn document) = _
    have hid : ∀ (f : Span → Parameter) (l : List Span), (∀ s ∈ l, spanIn document (f s) = s) →
        (l.map f).map (spanIn document) = l := by
      intro f l h
      rw [List.map_map]
      exact (List.map_congr_left h).trans (List.map_id l)
    rw [hparameters, List.map_append, hid _ named, hid _ dots]
    · exact fun s hs => hspan _ s (List.mem_append_right _ hs) rfl
    · exact fun s hs => hspan _ s (List.mem_append_left _ hs) (Parameter.range_ofPiece ..)
  rw [hspans]
  refine ⟨hplaces, fun k c hc hblank hcomma => hplaces.existsUnique hc hblank hcomma, fun p hp => ?_⟩
  change p ∈ (parseIn document 0 t).parameters at hp
  rw [hparameters, List.mem_append, List.mem_map, List.mem_map] at hp
  rcases hp with ⟨s, hs, rfl⟩ | ⟨s, hs, rfl⟩
  · have hs' := hspan (parameterAt document 0 t (nonSource t false) masked s) s (List.mem_append_left _ hs)
      (Parameter.range_ofPiece ..)
    rw [hs']
    exact ⟨Parameter.raw_ofPiece .., fun _ => Parameter.recomposes_ofPiece (hform.extract s) _ _⟩
  · rw [hspan _ s (List.mem_append_right _ hs) rfl]
    have hwritten : "..." <+: extract t s :=
      (hform.extract s).prefix_of_visible (by rw [hdots s hs]) (by decide)
    refine ⟨hwritten.eq_of_length ?_, fun hvariadic => ?_⟩
    · rw [← (hform.extract s).length_eq, hdots s hs]
    · rw [isVariadic_variadicParameter] at hvariadic
      cases hvariadic

end ParameterList

end CppScaffold
