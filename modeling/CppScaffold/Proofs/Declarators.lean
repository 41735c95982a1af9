import CppScaffold.Proofs.ParameterMask
import CppScaffold.Proofs.ParameterPieces

/-!
# Names in declarations

A declaration ends with its name, apart from array brackets, or has it inside of a nested declarator such as
`(*f)(int)`. Either way only one place can be that of the name.
-/

namespace CppScaffold

open Text Recognizer List Mask

/-! ## Words -/

namespace Text

variable {c : Char} {m : Text} {k : Nat}

lemma isAlpha_iff : c.isAlpha ↔ (65 ≤ c.toNat ∧ c.toNat ≤ 90) ∨ (97 ≤ c.toNat ∧ c.toNat ≤ 122) := by
  delta Char.isAlpha Char.isUpper Char.isLower
  simp only [Bool.or_eq_true, Bool.and_eq_true, decide_eq_true_eq, ge_iff_le, UInt32.le_iff_toNat_le]
  rfl

lemma isDigit_iff : c.isDigit ↔ 48 ≤ c.toNat ∧ c.toNat ≤ 57 := by
  change (decide ('0'.val ≤ c.val) && decide (c.val ≤ '9'.val)) ↔ _
  simp only [Bool.and_eq_true, decide_eq_true_eq, UInt32.le_iff_toNat_le]
  rfl

lemma isWordChar_of_isBlank (h : isBlank c) : isWordChar c = false := by
  have htable : ∀ n ∈ [0x85, 0xa0, 0x1680, 0x2000, 0x2001, 0x2002, 0x2003, 0x2004, 0x2005, 0x2006, 0x2007, 0x2008,
      0x2009, 0x200a, 0x2028, 0x2029, 0x202f, 0x205f, 0x3000], inRuns n wordRuns = false := by
    decide +kernel
  simp only [isBlank, Bool.or_eq_true, Bool.and_eq_true, decide_eq_true_eq, beq_iff_eq] at h
  have hne : c ≠ '_' := by
    rintro rfl
    simp at h
  have hletter : isLetterOrDigit c = false := by
    rw [isLetterOrDigit]
    split
    next hlt =>
      rw [Bool.eq_false_iff, Char.isAlphanum, Ne, Bool.or_eq_true, isAlpha_iff, isDigit_iff]
      omega
    next hge =>
      refine htable _ ?_
      simp only [mem_cons, not_mem_nil, or_false]
      omega
  simp [isWordChar, hne, hletter]

lemma isWordChar_of_isIdentifierStart (h : isIdentifierStart c) : isWordChar c := by
  simp only [isIdentifierStart, Bool.or_eq_true, beq_iff_eq] at h
  rcases h with rfl | h
  · decide
  · have hlt := isAlpha_iff.mp h
    simp only [isWordChar, isLetterOrDigit, if_pos (show c.toNat < 128 by omega), Char.isAlphanum, h, Bool.true_or,
      Bool.or_true]

lemma isBlank_of_isWordChar (h : isWordChar c) : isBlank c = false := by
  by_contra hblank
  rw [isWordChar_of_isBlank (by simpa using hblank)] at h
  cases h

/-- The last word of a text begins at an offset. -/
def LastWord (m : Text) (k : Nat) : Prop :=
  isWord (before none m k) = false ∧
    ∃ w e, m.drop k = w ++ e ∧ w ≠ [] ∧ (∀ c ∈ w, isWordChar c) ∧ ∀ c ∈ e, isWordChar c = false

lemma getLast?_take_of_le (h : k ≤ m.length) : (m.take k).getLast? = before none m k := by
  rw [before]
  split
  next hzero => simp [hzero]
  next hne => rw [getLast?_eq_getElem?, length_take_of_le h, getElem?_take_of_lt (by omega)]

lemma LastWord.take_eq (h : LastWord m k) :
    k < m.length ∧ m.take k = dropEndWhile isWordChar (dropEndWhile (!isWordChar ·) m) := by
  obtain ⟨hprev, w, e, hdrop, hne, hw, he⟩ := h
  have hlt : k < m.length := by
    by_contra hge
    rw [drop_eq_nil_of_le (by omega), eq_comm, append_eq_nil_iff] at hdrop
    exact hne hdrop.1
  refine ⟨hlt, ?_⟩
  have hlast : ∀ c, (m.take k).getLast? = some c → isWordChar c = false := by
    intro c hc
    rw [getLast?_take_of_le hlt.le] at hc
    rwa [hc] at hprev
  have hlast' : ∀ c, (m.take k ++ w).getLast? = some c → (!isWordChar c) = false := by
    intro c hc
    rw [getLast?_append_of_ne_nil _ hne] at hc
    rw [hw c (mem_of_getLast? hc)]
    rfl
  calc m.take k
      = dropEndWhile isWordChar (m.take k ++ w) := by rw [dropEndWhile_append hw, dropEndWhile_eq_self hlast]
    _ = dropEndWhile isWordChar (dropEndWhile (!isWordChar ·) (m.take k ++ w ++ e)) := by
      rw [dropEndWhile_append (x := e) (fun c hc => by rw [he c hc]; rfl), dropEndWhile_eq_self hlast']
    _ = dropEndWhile isWordChar (dropEndWhile (!isWordChar ·) m) := by
      rw [append_assoc, ← hdrop, take_append_drop]

lemma LastWord.unique {j : Nat} (hj : LastWord m j) (hk : LastWord m k) : j = k := by
  have hlength := congrArg length (hj.take_eq.2.trans hk.take_eq.2.symm)
  rwa [length_take_of_le hj.take_eq.1.le, length_take_of_le hk.take_eq.1.le] at hlength

/-- What is accepted only at the last word is found there. -/
lemma search?_of_lastWord {r : Recognizer}
    (hr : ∀ m k n, r (before none m k) (m.drop k) = some n → LastWord m k) {n : Nat}
    (h : r (before none m k) (m.drop k) = some n) : search? r m = some ⟨k, k + n⟩ := by
  have hword := hr m k n h
  exact search?_of_unique hword.take_eq.1.le h fun j i hi => (hr m j i hi).unique hword

/-- A visible character does not occur among blanks. -/
lemma notMem_of_isBlank {t : Text} (hc : isBlank c = false) (h : ∀ c ∈ t, isBlank c) : c ∉ t := by
  intro hmem
  rw [h c hmem] at hc
  cases hc

end Text

namespace Recognizer

variable {prev prev' : Option Char} {t : Text} {n : Nat}

lemma identifier_eq_some_iff : identifier prev t = some n ↔ isWord prev = false ∧
    ∃ c rest, t = c :: rest ∧ isIdentifierStart c ∧ n = 1 + (rest.takeWhile isWordChar).length := by
  simp only [identifier, andThen_eq_some_iff, boundary_eq_some_iff]
  constructor
  · rintro ⟨a, b, ⟨hboundary, rfl⟩, hpart, rfl⟩
    obtain ⟨c, rest, rfl, hc, rfl⟩ := identifierPart_eq_some_iff.mp hpart
    have hword : isWord (some c) := isWordChar_of_isIdentifierStart hc
    rw [head?_cons, hword] at hboundary
    exact ⟨by simpa using hboundary, c, rest, rfl, hc, by omega⟩
  · rintro ⟨hprev, c, rest, rfl, hc, rfl⟩
    have hword : isWord (some c) := isWordChar_of_isIdentifierStart hc
    refine ⟨0, _, ⟨?_, rfl⟩, identifierPart_eq_some_iff.mpr ⟨c, rest, rfl, hc, rfl⟩, by omega⟩
    rw [hprev, head?_cons, hword]
    decide

/-- A recogniser that begins with an identifier ignores the character before it, if this is no part of a word. -/
lemma andThen_identifier_prev {s : Recognizer} (hprev' : isWord prev' = false)
    (h : andThen identifier s prev t = some n) : andThen identifier s prev' t = some n := by
  obtain ⟨a, b, ha, hb, rfl⟩ := andThen_eq_some_iff.mp h
  refine andThen_eq_some_iff.mpr ⟨a, b, identifier_eq_some_iff.mpr ⟨hprev', (identifier_eq_some_iff.mp ha).2⟩, ?_, rfl⟩
  obtain ⟨_, c, rest, rfl, _, rfl⟩ := identifier_eq_some_iff.mp ha
  rw [before, if_neg (by omega)] at hb ⊢
  exact hb

lemma take_of_identifier (h : identifier prev t = some n) :
    ∃ c rest, t.take n = c :: rest.takeWhile isWordChar ∧ isIdentifierStart c ∧ t = c :: rest := by
  obtain ⟨_, c, rest, rfl, hc, rfl⟩ := identifier_eq_some_iff.mp h
  refine ⟨c, rest, ?_, hc, rfl⟩
  rw [Nat.add_comm, take_succ_cons, ← prefix_iff_eq_take.mp <| takeWhile_prefix _]

lemma isWordChar_of_identifier (h : identifier prev t = some n) : ∀ c ∈ t.take n, isWordChar c := by
  obtain ⟨d, rest, htake, hd, _⟩ := take_of_identifier h
  rw [htake]
  exact forall_mem_cons.mpr ⟨isWordChar_of_isIdentifierStart hd, fun c hc => mem_takeWhile_imp hc⟩

lemma lastWord_of_identifier {m : Text} {k a : Nat} (h : identifier (before none m k) (m.drop k) = some a)
    (he : ∀ c ∈ (m.drop k).drop a, isWordChar c = false) : LastWord m k := by
  obtain ⟨hprev, c, rest, hdrop, hc, rfl⟩ := identifier_eq_some_iff.mp h
  refine ⟨hprev, c :: rest.takeWhile isWordChar, rest.dropWhile isWordChar, ?_, by simp, ?_, ?_⟩
  · rw [hdrop, cons_append, takeWhile_append_dropWhile]
  · exact forall_mem_cons.mpr ⟨isWordChar_of_isIdentifierStart hc, fun d hd => mem_takeWhile_imp hd⟩
  · rwa [hdrop, Nat.add_comm, drop_succ_cons, drop_length_takeWhile] at he

lemma emptyPair_eq_some_iff {left right : Char} (hright : isBlank right = false) :
    emptyPair left right prev t = some n ↔
      ∃ b rest, t = left :: (b ++ right :: rest) ∧ (∀ c ∈ b, isBlank c) ∧ n = b.length + 2 := by
  simp only [emptyPair, seq, blanks, andThen_eq_some_iff, char_eq_some_iff, many_eq_some_iff]
  constructor
  · rintro ⟨_, _, ⟨c, u, rfl, hc, rfl⟩, ⟨_, _, rfl, ⟨d, rest, hd, hright, rfl⟩, rfl⟩, rfl⟩
    rw [drop_succ_cons, drop_zero, drop_length_takeWhile] at hd
    refine ⟨u.takeWhile isBlank, rest, ?_, fun c hc => mem_takeWhile_imp hc, ?_⟩
    · rw [beq_iff_eq.mp hc, ← beq_iff_eq.mp hright, ← hd, takeWhile_append_dropWhile]
    · rw [drop_succ_cons, drop_zero]
      omega
  · rintro ⟨b, rest, rfl, hb, rfl⟩
    have htake : (b ++ right :: rest).takeWhile isBlank = b := takeWhile_append_cons hb hright rest
    refine ⟨1, _, ⟨left, _, rfl, by simp, rfl⟩, ⟨_, 1, rfl, ⟨right, rest, ?_, by simp, rfl⟩, rfl⟩, ?_⟩
    · rw [drop_succ_cons, drop_zero, htake, drop_left]
    · rw [drop_succ_cons, drop_zero, htake]
      omega

/-- What a recogniser accepts consists of characters with a property. -/
def Consists (r : Recognizer) (p : Char → Prop) : Prop := ∀ prev t n, r prev t = some n → ∀ c ∈ t.take n, p c

section

variable {r s : Recognizer} {p : Char → Prop}

lemma consists_many {q : Char → Bool} (h : ∀ c, q c → p c) : Consists (many q) p := by
  intro prev t n hn c hc
  rw [many_eq_some_iff.mp hn, ← prefix_iff_eq_take.mp <| takeWhile_prefix q] at hc
  exact h c (mem_takeWhile_imp hc)

lemma consists_char {q : Char → Bool} (h : ∀ c, q c → p c) : Consists (char q) p := by
  intro prev t n hn c hc
  obtain ⟨d, rest, rfl, hd, rfl⟩ := char_eq_some_iff.mp hn
  obtain rfl : c = d := by simpa using hc
  exact h c hd

lemma Consists.andThen (hr : Consists r p) (hs : Consists s p) : Consists (andThen r s) p := by
  intro prev t n hn c hc
  obtain ⟨a, b, ha, hb, rfl⟩ := andThen_eq_some_iff.mp hn
  rw [take_add] at hc
  rcases mem_append.mp hc with hc | hc
  · exact hr _ _ _ ha c hc
  · exact hs _ _ _ hb c hc

lemma Consists.atMost (hr : Consists r p) (count : Nat) : Consists (atMost count r) p := by
  induction count with
  | zero =>
    intro prev t n hn c hc
    obtain rfl : 0 = n := by simpa [Recognizer.atMost] using hn
    simp at hc
  | succ count ih =>
    intro prev t n hn c hc
    rcases atMost_succ_eq_some hn with rfl | hn
    · cases hc
    · exact hr.andThen ih prev t n hn c hc

lemma Consists.repeated (hr : Consists r p) : Consists (repeated r) p :=
  fun prev t n h => hr.atMost t.length prev t n h

lemma consists_emptyPair {left right : Char} (hleft : p left) (hright : p right) (h : ∀ c, isBlank c → p c) :
    Consists (emptyPair left right) p := by
  refine Consists.andThen (consists_char fun c hc => ?_) ((consists_many h).andThen (consists_char fun c hc => ?_))
  · rwa [beq_iff_eq.mp hc]
  · rwa [beq_iff_eq.mp hc]

end

lemma atLastLineEnd_eq_some_iff : atLastLineEnd prev t = some n ↔ (t = [] ∨ t = ['\n']) ∧ n = 0 := by
  simp only [atLastLineEnd, Bool.or_eq_true, List.isEmpty_iff, beq_iff_eq]
  split
  next h => simp [h, eq_comm]
  next h => simp [h]

/-- A text is accepted only as a whole, and if it consists of characters with a property. -/
def Fills (r : Recognizer) (p : Char → Prop) : Prop := ∀ prev t n, r prev t = some n → ∀ c ∈ t, p c

variable {p : Char → Prop}

lemma fills_atEnd : Fills atEnd p := by
  intro prev t n h c hc
  simp [(atEnd_eq_some_iff.mp h).1] at hc

lemma fills_atLastLineEnd (hfeed : p '\n') : Fills atLastLineEnd p := by
  intro prev t n h c hc
  rcases (atLastLineEnd_eq_some_iff.mp h).1 with rfl | rfl
  · simp at hc
  · rwa [mem_singleton.mp hc]

lemma Consists.fills {r s : Recognizer} (hr : Consists r p) (hs : Fills s p) : Fills (Recognizer.andThen r s) p := by
  intro prev t n h c hc
  obtain ⟨a, b, ha, hb, rfl⟩ := andThen_eq_some_iff.mp h
  rw [← take_append_drop a t] at hc
  rcases mem_append.mp hc with hc | hc
  · exact hr _ _ _ ha c hc
  · exact hs _ _ _ hb c hc

end Recognizer

namespace Parameter

open Recognizer

variable {prev : Option Char} {t m : Text} {n k : Nat}

/-! ## Where names are found -/

def IsBracketing (c : Char) : Prop := isBlank c ∨ c = '[' ∨ c = ']'

lemma consists_emptyBrackets : Consists emptyBrackets IsBracketing :=
  Consists.repeated ((consists_many fun _ => .inl).andThen
    (consists_emptyPair (.inr (.inl rfl)) (.inr (.inr rfl)) fun _ => .inl))

variable {c : Char} {a : Nat}

lemma IsBracketing.not_word (h : IsBracketing c) : isWordChar c = false := by
  rcases h with h | rfl | rfl
  · exact isWordChar_of_isBlank h
  · decide
  · decide

lemma isBracketing_of_nameAtEnd (h : nameAtEnd prev t = some n) (ha : identifier prev t = some a)
    (hc : c ∈ t.drop a) : IsBracketing c := by
  obtain ⟨a', b, ha', hb, rfl⟩ := andThen_eq_some_iff.mp h
  obtain rfl := Option.some.inj (ha.symm.trans ha')
  exact (consists_emptyBrackets.fills (fills_atLastLineEnd (.inl rfl))) _ _ _ hb c hc

lemma lastWord_of_nameAtEnd (h : nameAtEnd (before none m k) (m.drop k) = some n) : LastWord m k := by
  obtain ⟨a, b, ha, hb, rfl⟩ := andThen_eq_some_iff.mp h
  exact lastWord_of_identifier ha fun c hc => (isBracketing_of_nameAtEnd h ha hc).not_word

lemma lastWord_of_identifierAtEnd (h : identifierAtEnd (before none m k) (m.drop k) = some n) : LastWord m k := by
  obtain ⟨a, b, ha, hb, rfl⟩ := andThen_eq_some_iff.mp h
  refine lastWord_of_identifier ha fun c hc => isWordChar_of_isBlank ?_
  exact (Consists.fills (consists_many fun _ => id) fills_atEnd) _ _ _ hb c hc

/-! ## Nested declarators -/

/-- Accepts what stands after the parentheses around the name. -/
def afterInner : Recognizer :=
  firstOf [
    seq [blanks, emptyPair '(' ')', atLastLineEnd],
    seq [blanks, emptyPair '[' ']', emptyBrackets, atLastLineEnd]]

lemma nestedDeclarator_eq_some_iff : nestedDeclarator prev t = some n ↔
    ∃ gap rest j, t = '(' :: (gap ++ ')' :: rest) ∧ (∀ c ∈ gap, isBlank c) ∧ afterInner (some ')') rest = some j ∧
      n = gap.length + 2 + j := by
  have hbefore : ∀ (gap rest : Text), before prev ('(' :: (gap ++ ')' :: rest)) (gap.length + 2) = some ')' := by
    simp [before]
  have hdrop : ∀ (gap rest : Text), ('(' :: (gap ++ ')' :: rest)).drop (gap.length + 2) = rest := by
    simp
  change andThen (emptyPair '(' ')') afterInner prev t = some n ↔ _
  rw [andThen_eq_some_iff]
  constructor
  · rintro ⟨a, j, ha, hj, rfl⟩
    obtain ⟨gap, rest, rfl, hgap, rfl⟩ := (emptyPair_eq_some_iff rfl).mp ha
    rw [hbefore, hdrop] at hj
    exact ⟨gap, rest, j, rfl, hgap, hj, rfl⟩
  · rintro ⟨gap, rest, j, rfl, hgap, hj, rfl⟩
    refine ⟨gap.length + 2, j, (emptyPair_eq_some_iff rfl).mpr ⟨gap, rest, rfl, hgap, rfl⟩, ?_, rfl⟩
    rwa [hbefore, hdrop]

/-- Either one more pair of parentheses or only brackets stand after the parentheses around the name. -/
lemma afterInner_cases (h : afterInner prev t = some n) :
    (∃ gap gap' rest, t = gap ++ '(' :: (gap' ++ ')' :: rest) ∧ ∀ c ∈ gap ++ gap' ++ rest, isBlank c) ∨
    ((∀ c ∈ t, IsBracketing c) ∧ '[' ∈ t) := by
  rw [afterInner, firstOf_cons_eq_some_iff, firstOf_cons_eq_some_iff] at h
  rcases h with h | ⟨_, h | ⟨_, h⟩⟩
  · refine .inl ?_
    obtain ⟨a, b, ha, hb, rfl⟩ := andThen_eq_some_iff.mp h
    obtain ⟨a', b', ha', hb', rfl⟩ := andThen_eq_some_iff.mp hb
    obtain rfl := many_eq_some_iff.mp ha
    obtain ⟨gap', rest, hrest, hgap', rfl⟩ := (emptyPair_eq_some_iff rfl).mp ha'
    refine ⟨t.takeWhile isBlank, gap', rest, ?_, ?_⟩
    · rw [← hrest, drop_length_takeWhile, takeWhile_append_dropWhile]
    · rw [hrest, drop_succ_cons, drop_length_add_append, drop_succ_cons, drop_zero] at hb'
      exact forall_mem_append.mpr ⟨forall_mem_append.mpr ⟨fun c hc => mem_takeWhile_imp hc, hgap'⟩,
        fills_atLastLineEnd (p := fun c => isBlank c) rfl _ _ _ hb'⟩
  · refine .inr ⟨?_, ?_⟩
    · have hblanks : Consists blanks IsBracketing := consists_many fun _ => .inl
      have hpair : Consists (emptyPair '[' ']') IsBracketing :=
        consists_emptyPair (.inr (.inl rfl)) (.inr (.inr rfl)) fun _ => .inl
      exact (hblanks.fills (hpair.fills (consists_emptyBrackets.fills (fills_atLastLineEnd (.inl rfl))))) _ _ _ h
    · obtain ⟨a, b, ha, hb, rfl⟩ := andThen_eq_some_iff.mp h
      obtain ⟨a', b', ha', hb', rfl⟩ := andThen_eq_some_iff.mp hb
      obtain ⟨gap', rest, hrest, hgap', rfl⟩ := (emptyPair_eq_some_iff rfl).mp ha'
      rw [← take_append_drop a t, hrest]
      simp
  · cases h

lemma count_afterInner (h : afterInner prev t = some n) :
    (t.count '(' = 1 ∧ '[' ∉ t) ∨ (t.count '(' = 0 ∧ '[' ∈ t) := by
  rcases afterInner_cases h with ⟨gap, gap', rest, rfl, hblank⟩ | ⟨hall, hmem⟩
  · have hopen := notMem_of_isBlank (c := '(') rfl hblank
    have hbracket := notMem_of_isBlank (c := '[') rfl hblank
    simp only [mem_append, not_or] at hopen hbracket
    refine .inl ⟨?_, by simp [hbracket]⟩
    simp [count_eq_zero_of_not_mem, hopen]
  · refine .inr ⟨count_eq_zero_of_not_mem fun hopen => ?_, hmem⟩
    exact absurd (hall _ hopen) (by simp [IsBracketing, isBlank])

lemma not_word_of_nestedDeclarator (h : nestedDeclarator prev t = some n) : ∀ c ∈ t, isWordChar c = false := by
  have hnot : ∀ {gap : Text}, (∀ c ∈ gap, isBlank c) → ∀ c ∈ gap, isWordChar c = false :=
    fun h c hc => isWordChar_of_isBlank (h c hc)
  obtain ⟨gap, rest, j, rfl, hgap, hj, rfl⟩ := nestedDeclarator_eq_some_iff.mp h
  have hrest : ∀ c ∈ rest, isWordChar c = false := by
    rcases afterInner_cases hj with ⟨gap', gap'', rest', rfl, hblank⟩ | ⟨hall, _⟩
    · simp only [forall_mem_append, forall_mem_cons] at hblank ⊢
      exact ⟨hnot hblank.1.1, by decide, hnot hblank.1.2, by decide, hnot hblank.2⟩
    · exact fun c hc => (hall c hc).not_word
  exact forall_mem_cons.mpr ⟨by decide, forall_mem_append.mpr ⟨hnot hgap, forall_mem_cons.mpr ⟨by decide, hrest⟩⟩⟩

lemma nestedDeclarator_unique {j n' : Nat} (h : nestedDeclarator (before none m k) (m.drop k) = some n)
    (h' : nestedDeclarator (before none m j) (m.drop j) = some n') : j = k := by
  have hlater : ∀ {j k n n' : Nat}, nestedDeclarator (before none m k) (m.drop k) = some n →
      nestedDeclarator (before none m j) (m.drop j) = some n' → ¬ j < k := by
    intro j k n n' h h' hlt
    obtain ⟨gap, rest, _, hk, _, hinner, _⟩ := nestedDeclarator_eq_some_iff.mp h
    obtain ⟨gap', rest', _, hj, hgap', hinner', _⟩ := nestedDeclarator_eq_some_iff.mp h'
    -- the parentheses and brackets after the later place stand after the earlier one, too
    have hsuffix : m.drop k <:+ gap' ++ ')' :: rest' := by
      have hdrop : m.drop k = (m.drop j).drop (k - j - 1 + 1) := by
        rw [drop_drop]
        congr 1
        omega
      rw [hdrop, hj, drop_succ_cons]
      exact drop_suffix ..
    have hcount : rest.count '(' + 1 ≤ rest'.count '(' := by
      have := hsuffix.sublist.count_le '('
      rw [hk] at this
      simp [count_eq_zero_of_not_mem (notMem_of_isBlank (c := '(') rfl hgap')] at this
      omega
    have hmem : '[' ∈ rest → '[' ∈ rest' := by
      intro hmem
      have := hsuffix.subset (a := '[') (by rw [hk]; simp [hmem])
      simpa [notMem_of_isBlank (c := '[') rfl hgap'] using this
    rcases count_afterInner hinner with hleft | hleft
    · rcases count_afterInner hinner' with hright | hright <;> omega
    · rcases count_afterInner hinner' with hright | hright
      · exact hright.2 (hmem hleft.2)
      · omega
  exact Nat.le_antisymm (Nat.not_lt.mp (hlater h' h)) (Nat.not_lt.mp (hlater h h'))

lemma search?_nestedDeclarator (h : nestedDeclarator (before none m k) (m.drop k) = some n) :
    search? nestedDeclarator m = some ⟨k, k + n⟩ := by
  have hle : k ≤ m.length := by
    by_contra hgt
    obtain ⟨_, _, _, hdrop, _⟩ := nestedDeclarator_eq_some_iff.mp h
    rw [drop_eq_nil_of_le (by omega)] at hdrop
    cases hdrop
  exact search?_of_unique hle h fun j i hi => nestedDeclarator_unique h hi

/-- A text that ends with a nested declarator does not end with a name. -/
lemma search?_nameAtEnd_eq_none (h : nestedDeclarator (before none m k) (m.drop k) = some n) :
    search? nameAtEnd m = none := by
  rw [Option.eq_none_iff_forall_ne_some]
  intro s hs
  obtain ⟨_, hle, haccept, _⟩ := search?_eq_some_iff.mp hs
  obtain ⟨a, b, ha, hb, hsum⟩ := andThen_eq_some_iff.mp haccept
  rcases Nat.le_total k s.start with hks | hsk
  · -- the name would stand in the declarator
    obtain ⟨c, rest, _, hc, hdrop⟩ := take_of_identifier ha
    have hmem : c ∈ m.drop k := by
      refine (drop_suffix_drop_left m hks).subset ?_
      rw [hdrop]
      exact mem_cons_self ..
    have hword := isWordChar_of_isIdentifierStart hc
    rw [not_word_of_nestedDeclarator h c hmem] at hword
    cases hword
  · -- the parentheses would stand after the name
    obtain ⟨_, _, _, hk, _⟩ := nestedDeclarator_eq_some_iff.mp h
    have hmem : '(' ∈ m.drop s.start := by
      refine (drop_suffix_drop_left m hsk).subset ?_
      rw [hk]
      exact mem_cons_self ..
    rw [← take_append_drop a (m.drop s.start), mem_append] at hmem
    rcases hmem with hmem | hmem
    · exact absurd (isWordChar_of_identifier ha _ hmem) (by decide)
    · exact absurd (isBracketing_of_nameAtEnd haccept ha hmem) (by simp [IsBracketing, isBlank])

/-! ## Taking a declaration apart again -/

lemma leadingIdentifier_of_identifier (h : identifier prev t = some a) : leadingIdentifier t = t.take a := by
  obtain ⟨_, c, rest, rfl, hc, rfl⟩ := identifier_eq_some_iff.mp h
  rw [leadingIdentifier, identifierPart_eq_some_iff.mpr ⟨c, rest, rfl, hc, rfl⟩, Option.getD_some]

lemma leadingIdentifier_ne_nil (h : identifier prev t = some a) : leadingIdentifier t ≠ [] := by
  obtain ⟨c, rest, htake, _⟩ := take_of_identifier h
  rw [leadingIdentifier_of_identifier h, htake]
  simp

lemma splitDeclaration_of_name {x y mx my : Text} (hlength : mx.length = x.length) (hx : x ≠ [])
    (hprev : isWord mx.getLast? = false) (hname : nameAtEnd prev my = some n) (partlyMasked : Text) :
    splitDeclaration (x ++ y) partlyMasked (mx ++ my) =
      (splitName (x ++ y) x.length (leadingIdentifier my)).getD (x ++ y, [], (x ++ y).length) := by
  have hpos := length_pos_iff.mpr hx
  have hbefore : before none (mx ++ my) mx.length = mx.getLast? := by
    rw [← getLast?_take_of_le (by simp), take_left]
  have hsearch := search?_of_lastWord (fun m k n => lastWord_of_nameAtEnd) (m := mx ++ my) (k := mx.length) (n := n)
    (by rw [hbefore, drop_left]; exact andThen_identifier_prev hprev hname)
  simp only [splitDeclaration, hsearch, hlength]
  rw [if_pos hpos, ← hlength, drop_left]

lemma splitName_congr {x x' y name : Text} (h : trimEnd x' = trimEnd x) :
    splitName (x' ++ y) x'.length name = splitName (x ++ y) x.length name := by
  simp [splitName, h]

/-- The ways in which a declaration is taken apart. -/
inductive Splitting (declaration partlyMasked masked : Text) : Text × Text × Nat → Prop where
  | unnamed : Splitting declaration partlyMasked masked (declaration, [], declaration.length)
  | named {place n : Nat} {parts : Text × Text × Nat} (hpos : 0 < place)
      (hname : nameAtEnd (before none masked place) (masked.drop place) = some n)
      (hparts : splitName declaration place (leadingIdentifier (masked.drop place)) = some parts) :
      Splitting declaration partlyMasked masked parts
  | nested {start n close place i : Nat}
      (hnested : nestedDeclarator (before none masked start) (masked.drop start) = some n)
      (hclose : findAfter? [')'] partlyMasked start = some close)
      (hplace : identifierAtEnd (before none (nonSource (declaration.take close) true) place)
        ((nonSource (declaration.take close) true).drop place) = some i)
      (hname : Types.isQualifierWord (leadingIdentifier ((nonSource (declaration.take close) true).drop place)) = false) :
      Splitting declaration partlyMasked masked
        ((declaration.take close).take place ++ declaration.drop (place +
          (leadingIdentifier ((nonSource (declaration.take close) true).drop place)).length),
          leadingIdentifier ((nonSource (declaration.take close) true).drop place), place)

lemma splitting (declaration partlyMasked masked : Text) :
    Splitting declaration partlyMasked masked (splitDeclaration declaration partlyMasked masked) := by
  rw [splitDeclaration]
  split
  next place hplace =>
    split
    next hpos =>
      cases hparts : splitName declaration place.start (leadingIdentifier (masked.drop place.start)) with
      | none => exact .unnamed
      | some parts => exact .named hpos (search?_eq_some_iff.mp hplace).2.2.1 hparts
    next => exact .unnamed
  next =>
    cases hparts : splitNestedName declaration partlyMasked masked with
    | none => exact .unnamed
    | some parts =>
      simp only [splitNestedName, Option.bind_eq_bind, Option.bind_eq_some_iff] at hparts
      obtain ⟨nested, hnested, close, hclose, place, hplace, hparts⟩ := hparts
      split at hparts
      · cases hparts
      next hname =>
        obtain rfl := Option.some.inj hparts
        exact .nested (search?_eq_some_iff.mp hnested).2.2.1 hclose (search?_eq_some_iff.mp hplace).2.2.1
          (by simpa using hname)

lemma name_of_splitName {declaration name : Text} {start : Nat} {parts : Text × Text × Nat}
    (h : splitName declaration start name = some parts) : parts.2.1 = name := by
  rw [splitName] at h
  split at h
  · rw [← Option.some.inj h]
  · cases h

lemma isWordChar_name (declaration partlyMasked masked : Text)
    (hc : c ∈ (splitDeclaration declaration partlyMasked masked).2.1) : isWordChar c := by
  have hword : ∀ {prev : Option Char} {t : Text} {r : Recognizer} {n : Nat}, andThen identifier r prev t = some n →
      c ∈ leadingIdentifier t → isWordChar c := by
    intro prev t r n h hmem
    obtain ⟨a, _, hidentifier, _⟩ := andThen_eq_some_iff.mp h
    rw [leadingIdentifier_of_identifier hidentifier] at hmem
    exact isWordChar_of_identifier hidentifier c hmem
  generalize hparts : splitDeclaration declaration partlyMasked masked = parts at hc
  have hsplitting := hparts ▸ splitting declaration partlyMasked masked
  cases hsplitting with
  | unnamed => cases hc
  | named _ hname hsplit => exact hword hname (name_of_splitName hsplit ▸ hc)
  | nested _ _ hplace _ => exact hword hplace hc

end Parameter

end CppScaffold
