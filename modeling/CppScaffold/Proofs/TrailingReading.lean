import CppScaffold.Proofs.Actions
import CppScaffold.Proofs.TrailingPieces

/-!
# Reading the specifiers behind the parameters

A recogniser accepts the pieces of its specifier and nothing else (`Finds`), so the specifiers read from a text are the
pieces that stand for them (`read_text`).
-/

namespace CppScaffold

open Text Recognizer List Signature Mask

namespace Trailing

/-! ## Words in a text -/

lemma searchFrom_eq_none_iff {r : Recognizer} {prev : Option Char} {offset : Nat} {t : Text} :
    searchFrom r prev offset t = none ↔ ∀ k ≤ t.length, r (before prev t k) (t.drop k) = none := by
  induction t generalizing prev offset with
  | nil => simp [searchFrom, before]
  | cons c rest ih =>
    rw [searchFrom]
    cases hr : r prev (c :: rest) with
    | some m => simpa using ⟨0, Nat.zero_le _, by simp [before, hr]⟩
    | none =>
      refine ih.trans ⟨fun h k hk => ?_, fun h k hk => ?_⟩
      · cases k with
        | zero => exact hr
        | succ k =>
          rw [before_cons_succ]
          exact h k (Nat.le_of_succ_le_succ hk)
      · have := h (k + 1) (Nat.succ_le_succ hk)
        rwa [before_cons_succ] at this

lemma search?_eq_none_iff {r : Recognizer} {t : Text} :
    search? r t = none ↔ ∀ k ≤ t.length, r (before none t k) (t.drop k) = none :=
  searchFrom_eq_none_iff

/-- The word stands between two texts, and neither of them continues it. -/
structure Occurs (k a b t : Text) : Prop where
  eq : t = a ++ (k ++ b)
  before : isWord a.getLast? = false
  after : isWord b.head? = false

section Words

variable {k a b x y : Text}

/-- A word of a text stands on one side of a place where no word goes on. -/
lemma Occurs.cases (hk : ∀ c ∈ k, isWordChar c) (h : Occurs k a b (x ++ y))
    (hcut : isWord x.getLast? = false ∨ isWord y.head? = false) :
    (∃ b', b = b' ++ y ∧ Occurs k a b' x) ∨ ∃ a', a = x ++ a' ∧ Occurs k a' b y := by
  obtain ⟨heq, hbefore, hafter⟩ := h
  rcases append_eq_append_iff.mp heq with ⟨a', rfl, hy⟩ | ⟨u, rfl, hu⟩
  · refine .inr ⟨a', rfl, hy, ?_, hafter⟩
    cases a' with
    | nil => rfl
    | cons c a' => rwa [getLast?_append_of_ne_nil _ (by simp)] at hbefore
  · rcases append_eq_append_iff.mp hu with ⟨b', rfl, rfl⟩ | ⟨v, rfl, rfl⟩
    · refine .inl ⟨b', rfl, rfl, hbefore, ?_⟩
      cases b' with
      | nil => rfl
      | cons c b' => exact hafter
    · -- the place is inside of the word, or at one of its ends
      rcases eq_nil_or_concat' u with rfl | ⟨u, c, rfl⟩
      · exact .inr ⟨[], by simp, rfl, rfl, hafter⟩
      · cases v with
        | nil => exact .inl ⟨[], rfl, by simp, hbefore, rfl⟩
        | cons d v =>
          have hc := hk c (by simp)
          have hd := hk d (by simp)
          simp [isWord, hc, hd] at hcut

variable {t : Text}

lemma word_eq_some_iff (hk : ∀ c ∈ k, isWordChar c) (hne : k ≠ []) {prev : Option Char} {n : Nat} :
    word k prev t = some n ↔ isWord prev = false ∧ n = k.length ∧ ∃ b, t = k ++ b ∧ isWord b.head? = false := by
  have hlast : isWord k.getLast? := by
    rw [getLast?_eq_getLast_of_ne_nil hne]
    exact hk _ (getLast_mem hne)
  have hhead : ∀ b, isWord (k ++ b).head? := by
    intro b
    obtain ⟨c, k, rfl⟩ := exists_cons_of_ne_nil hne
    exact hk c mem_cons_self
  have hpos : 0 < k.length := length_pos_iff.mpr hne
  have hend : ∀ p b, before p (k ++ b) k.length = k.getLast? := by
    intro p b
    rw [before, if_neg hpos.ne', getElem?_append_left (by omega), getLast?_eq_getElem?]
  simp only [word, seq, andThen_eq_some_iff, boundary_eq_some_iff, exactly_eq_some_iff]
  constructor
  · rintro ⟨_, _, ⟨hprev, rfl⟩, ⟨_, _, ⟨⟨b, hb⟩, rfl⟩, ⟨hnext, rfl⟩, rfl⟩, rfl⟩
    rw [drop_zero] at hb hnext
    subst hb
    rw [hhead] at hprev
    rw [hend, hlast] at hnext
    exact ⟨by simpa using hprev, by simp, b, rfl, by simpa using hnext.symm⟩
  · rintro ⟨hprev, rfl, b, rfl, hb⟩
    refine ⟨0, k.length, ⟨by rw [hprev, hhead]; decide, rfl⟩, ⟨k.length, 0, ⟨prefix_append k b, rfl⟩, ⟨?_, rfl⟩, rfl⟩,
      (Nat.zero_add _).symm⟩
    rw [drop_zero, hend, hlast, drop_left, hb]
    decide

lemma word_at_eq_some_iff (hk : ∀ c ∈ k, isWordChar c) (hne : k ≠ []) {i n : Nat} (hi : i ≤ t.length) :
    word k (before none t i) (t.drop i) = some n ↔
      n = k.length ∧ ∃ a b, a.length = i ∧ Occurs k a b t := by
  rw [word_eq_some_iff hk hne, ← getLast?_take_of_le hi]
  constructor
  · rintro ⟨hbefore, rfl, b, hb, hafter⟩
    exact ⟨rfl, t.take i, b, length_take_of_le hi, by rw [← hb, take_append_drop], hbefore, hafter⟩
  · rintro ⟨rfl, a, b, rfl, rfl, hbefore, hafter⟩
    rw [take_left, drop_left]
    exact ⟨hbefore, rfl, b, rfl, hafter⟩

lemma hasMatch_word_iff (hk : ∀ c ∈ k, isWordChar c) (hne : k ≠ []) :
    hasMatch (word k) t ↔ ∃ a b, Occurs k a b t := by
  rw [hasMatch, ← not_iff_not, Bool.not_eq_true, Option.isSome_eq_false_iff, Option.isNone_iff_eq_none,
    search?_eq_none_iff]
  constructor
  · rintro hnone ⟨a, b, hoccurs⟩
    have hle : a.length ≤ t.length := by rw [hoccurs.eq, length_append]; omega
    have haccepts := (word_at_eq_some_iff hk hne hle).mpr ⟨rfl, a, b, rfl, hoccurs⟩
    rw [hnone _ hle] at haccepts
    cases haccepts
  · intro hnone i hi
    refine Option.eq_none_iff_forall_ne_some.mpr fun n hn => hnone ?_
    obtain ⟨_, a, b, _, hoccurs⟩ := (word_at_eq_some_iff hk hne hi).mp hn
    exact ⟨a, b, hoccurs⟩

end Words

/-! ## Words among pieces -/

section Pieces

variable {s : Specifier} {p : Piece} {l m : List Piece} {keep free : Bool}

lemma isWordChar_keyword (s : Specifier) : ∀ c ∈ s.keyword, isWordChar c := by
  -- stated with `List.all`, as a quantifier over characters would be decided by trying all of them
  have hall : s.keyword.all isWordChar := by cases s <;> decide +kernel
  exact all_eq_true.mp hall

lemma keyword_ne_nil (h : s ≠ .ref) : s.keyword ≠ [] := by
  cases s with
  | ref => exact absurd rfl h
  | const | volatile | noexcept => decide

lemma mem_of_ne_ref (h : s ≠ .ref) : s ∈ [Specifier.const, .volatile, .noexcept] := by
  cases s with
  | ref => exact absurd rfl h
  | const | volatile | noexcept => decide

lemma isWord_head?_keyword (h : s ≠ .ref) (x : Text) : isWord (s.keyword ++ x).head? := by
  obtain ⟨c, k, hk⟩ := exists_cons_of_ne_nil (keyword_ne_nil h)
  rw [hk]
  exact isWordChar_keyword s c (hk ▸ mem_cons_self)

lemma specifier_word (hs : s ≠ .ref) (argument : Option Argument) :
    Piece.specifier (.word s.keyword argument) = some s := by
  cases s with
  | ref => exact absurd rfl hs
  | const | volatile | noexcept => rfl

lemma specifier_eq_some_iff : p.specifier = some s ↔
    (s = .ref ∧ ∃ double, p = .ref double) ∨ (s ≠ .ref ∧ ∃ argument, p = .word s.keyword argument) := by
  constructor
  · intro h
    cases p with
    | blank | lineComment | blockComment | bracketed => cases h
    | ref double =>
      obtain rfl := Option.some.inj h
      exact .inl ⟨rfl, double, rfl⟩
    | word w argument =>
      have hw : s.keyword = w := by simpa using find?_some h
      have hs := mem_of_find?_eq_some h
      refine .inr ⟨?_, argument, by rw [hw]⟩
      rintro rfl
      simp at hs
  · rintro (⟨rfl, double, rfl⟩ | ⟨hs, argument, rfl⟩)
    · rfl
    · exact specifier_word hs argument

lemma not_isWordChar_of_mem (h : p.WellFormed) (hp : ∀ w argument, p ≠ .word w argument) {c : Char}
    (hc : c ∈ p.under (.full keep)) : isWordChar c = false := by
  rcases mem_piece_under h keep hc with hc | hc
  · exact isWordChar_of_isBlank hc
  · have hmarks : p.visible.all (!isWordChar ·) := by
      cases p with
      | word w argument => exact absurd rfl (hp w argument)
      | blank | lineComment | blockComment | bracketed | ref => rfl
    simpa using all_eq_true.mp hmarks c hc

variable {argument : Option Argument}

lemma not_isWordChar_of_mem_argument (h : ∀ a ∈ argument, a.WellFormed) {c : Char}
    (hc : c ∈ argument.elim [] (Argument.under (.full keep))) : isWordChar c = false := by
  rcases mem_argument_under h hc with hc | rfl | rfl
  exacts [isWordChar_of_isBlank hc, by decide, by decide]

lemma isWord_head?_argument (h : ∀ a ∈ argument, a.WellFormed) {y : Text} (hy : isWord y.head? = false) :
    isWord (argument.elim [] (Argument.under (.full keep)) ++ y).head? = false := by
  cases hx : argument.elim [] (Argument.under (.full keep)) with
  | nil => exact hy
  | cons c x => exact not_isWordChar_of_mem_argument h (hx ▸ mem_cons_self)

lemma spacedFrom_mono (h : spacedFrom false l) : spacedFrom free l := by
  cases free with
  | false => exact h
  | true =>
    induction l with
    | nil => rfl
    | cons p l ih =>
      simp only [spacedFrom, Bool.and_eq_true] at h ⊢
      cases p with
      | ref double => exact ⟨rfl, ih h.2⟩
      | word w argument => exact ⟨rfl, h.2⟩
      | blank | lineComment | blockComment | bracketed => exact h

lemma spacedFrom_of_spaced (h : spaced l) : spacedFrom true l := by
  cases l with
  | nil => rfl
  | cons p l =>
    have htail : spacedFrom (p.allows true) l := by
      cases p with
      | ref double => exact spacedFrom_mono h
      | blank | lineComment | blockComment | bracketed | word => exact h
    cases p <;> exact htail

lemma WellFormed.spacedFrom (h : WellFormed l) : spacedFrom true l := spacedFrom_of_spaced h.spaced

/-- Whether a word may begin behind some pieces. -/
def freeAfter (free : Bool) (l : List Piece) : Bool := l.foldl (fun f p => p.allows f) free

lemma spacedFrom_append : spacedFrom free (l ++ m) = (spacedFrom free l && spacedFrom (freeAfter free l) m) := by
  induction l generalizing free with
  | nil => rfl
  | cons p l ih => rw [cons_append, spacedFrom, ih, spacedFrom, Bool.and_assoc]; rfl

lemma isWord_head?_under (hpieces : ∀ p ∈ l, p.WellFormed) (h : spacedFrom false l) :
    isWord (under (.full keep) l).head? = false := by
  cases l with
  | nil => rfl
  | cons p l =>
    obtain ⟨hp, -⟩ := forall_mem_cons.mp hpieces
    obtain ⟨c, x, hx⟩ := exists_cons_of_ne_nil (piece_under_ne_nil hp (.full keep))
    rw [under_cons, hx, cons_append]
    by_cases hword : ∃ w argument, p = .word w argument
    · obtain ⟨w, argument, rfl⟩ := hword
      obtain ⟨d, w, rfl⟩ := exists_cons_of_ne_nil hp.1
      obtain rfl : d = c := (cons_eq_cons.mp hx).1
      simpa [Piece.fits] using (Bool.and_eq_true_iff.mp h).1
    · exact not_isWordChar_of_mem hp (fun w argument hw => hword ⟨w, argument, hw⟩) (hx ▸ mem_cons_self)

lemma exists_piece_of_occurs (hs : s ≠ .ref) (hpieces : ∀ p ∈ l, p.WellFormed) (hspaced : spacedFrom free l)
    {a b : Text} (h : Occurs s.keyword a b (under (.full keep) l)) :
    ∃ l₁ argument l₂, l = l₁ ++ .word s.keyword argument :: l₂ ∧ a = under (.full keep) l₁ := by
  have hletters := isWordChar_keyword s
  -- a text without word characters has no place for the word
  have hnot : ∀ {a b x : Text}, (∀ c ∈ x, isWordChar c = false) → ¬ Occurs s.keyword a b x := by
    intro a b x hx hoccurs
    obtain ⟨c, k, hk⟩ := exists_cons_of_ne_nil (keyword_ne_nil hs)
    have hc := hx c (by rw [hoccurs.eq, hk]; simp)
    rw [hletters c (hk ▸ mem_cons_self)] at hc
    cases hc
  induction l generalizing a free with
  | nil => exact absurd h (hnot (by simp))
  | cons p l ih =>
    obtain ⟨hp, htail⟩ := forall_mem_cons.mp hpieces
    have hrest : spacedFrom (p.allows free) l := (Bool.and_eq_true_iff.mp hspaced).2
    -- what stands behind the first piece
    have hlater : ∀ a' : Text, a = p.under (.full keep) ++ a' → Occurs s.keyword a' b (under (.full keep) l) →
        ∃ l₁ argument l₂, p :: l = l₁ ++ .word s.keyword argument :: l₂ ∧ a = under (.full keep) l₁ := by
      rintro a' rfl hoccurs
      obtain ⟨l₁, argument, l₂, rfl, rfl⟩ := ih htail hrest hoccurs
      exact ⟨p :: l₁, argument, l₂, rfl, rfl⟩
    by_cases hword : ∃ w argument, p = .word w argument
    · obtain ⟨w, argument, rfl⟩ := hword
      obtain ⟨_, _, hkeyword, _, hargument⟩ := hp
      rcases h.cases hletters (.inr (isWord_head?_under htail hrest)) with ⟨b', rfl, hin⟩ | ⟨a', ha, hout⟩
      · have hend : isWord (argument.elim [] (Argument.under (.full keep))).head? = false := by
          simpa using isWord_head?_argument hargument (y := []) rfl
        rcases hin.cases hletters (.inr hend) with ⟨b'', rfl, hw⟩ | ⟨a', rfl, hout⟩
        · have hmatch := (hasMatch_word_iff hletters (keyword_ne_nil hs)).mpr ⟨a, b'', hw⟩
          obtain rfl : w = s.keyword := by
            rcases hkeyword s (mem_of_ne_ref hs) with heq | hnone
            · exact heq
            · rw [hmatch] at hnone
              cases hnone
          have hlength := congrArg length hw.eq
          simp only [length_append] at hlength
          obtain rfl : a = [] := eq_nil_of_length_eq_zero (by omega)
          exact ⟨[], argument, l, rfl, rfl⟩
        · exact absurd hout (hnot fun c => not_isWordChar_of_mem_argument hargument)
      · exact hlater a' ha hout
    · have hletter : ∀ c ∈ p.under (.full keep), isWordChar c = false := fun c =>
        not_isWordChar_of_mem hp fun w argument hw => hword ⟨w, argument, hw⟩
      have hlast : isWord (p.under (.full keep)).getLast? = false := by
        rw [getLast?_eq_getLast_of_ne_nil (piece_under_ne_nil hp _)]
        exact hletter _ (getLast_mem _)
      rcases h.cases hletters (.inl hlast) with ⟨_, _, hin⟩ | ⟨a', ha, hout⟩
      · exact absurd hin (hnot hletter)
      · exact hlater a' ha hout

/-- A word that begins with a word character stands at the start or behind one that is none. -/
lemma isWord_getLast?_under {w : Text} (hw : isWord w.head?) (hpieces : ∀ p ∈ l, p.WellFormed)
    (hspaced : spacedFrom true (l ++ .word w argument :: m)) :
    isWord (under (.full keep) l).getLast? = false := by
  rcases eq_nil_or_concat' l with rfl | ⟨l', p, rfl⟩
  · rfl
  · have hp := hpieces p (by simp)
    rw [under_append, under_cons, under_nil, append_nil, getLast?_append_of_ne_nil _ (piece_under_ne_nil hp _),
      getLast?_eq_getLast_of_ne_nil (piece_under_ne_nil hp _)]
    refine not_isWordChar_of_mem hp ?_ (getLast_mem _)
    rintro v a rfl
    rw [append_assoc, spacedFrom_append] at hspaced
    simp [spacedFrom, Piece.allows, Piece.fits, hw] at hspaced

lemma occurs_of_piece (hs : s ≠ .ref) (hpieces : ∀ p ∈ l ++ .word s.keyword argument :: m, p.WellFormed)
    (hspaced : spacedFrom true (l ++ .word s.keyword argument :: m)) :
    Occurs s.keyword (under (.full keep) l)
      (argument.elim [] (Argument.under (.full keep)) ++ under (.full keep) m)
      (under (.full keep) (l ++ .word s.keyword argument :: m)) := by
  obtain ⟨hl, hm⟩ := forall_mem_append.mp hpieces
  obtain ⟨hword, hm⟩ := forall_mem_cons.mp hm
  refine ⟨?_, ?_, ?_⟩
  · rw [under_append, under_cons, Piece.under, append_assoc]
  · exact isWord_getLast?_under (by simpa using isWord_head?_keyword hs []) hl hspaced
  · refine isWord_head?_argument hword.2.2.2.2 (isWord_head?_under hm ?_)
    rw [spacedFrom_append] at hspaced
    exact (Bool.and_eq_true_iff.mp (Bool.and_eq_true_iff.mp hspaced).2).2

/-! ## Pieces of a specifier -/

@[simp] lemma pick_append (s : Specifier) (l m : List Piece) : pick s (l ++ m) = pick s l ++ pick s m :=
  filter_append ..

lemma pick_cons_of_eq (h : p.specifier = some s) : pick s (p :: l) = p :: pick s l :=
  filter_cons_of_pos (by simp [h])

lemma pick_cons_of_ne (h : p.specifier ≠ some s) : pick s (p :: l) = pick s l :=
  filter_cons_of_neg (by simpa using h)

lemma pick_cons_eq_nil_iff : pick s (p :: l) = [] ↔ p.specifier ≠ some s ∧ pick s l = [] := by
  by_cases hp : p.specifier = some s
  · simp [pick_cons_of_eq hp, hp]
  · simp [pick_cons_of_ne hp, hp]

lemma pick_split (hp : p.specifier = some s) (h₁ : pick s l = []) (h₂ : pick s m = []) :
    pick s (l ++ p :: m) = [p] := by
  rw [pick_append, pick_cons_of_eq hp, h₁, h₂]
  rfl

lemma mem_pick : p ∈ pick s l ↔ p ∈ l ∧ p.specifier = some s := by
  simp [pick]

/-- A specifier that is not repeated stands in one place. -/
lemma exists_split (honce : (pick s l).length ≤ 1) (h : pick s l ≠ []) :
    ∃ l₁ p l₂, l = l₁ ++ p :: l₂ ∧ p.specifier = some s ∧ pick s l₁ = [] ∧ pick s l₂ = [] := by
  obtain ⟨p, hp⟩ := exists_mem_of_ne_nil _ h
  obtain ⟨hmem, hspecifier⟩ := mem_pick.mp hp
  obtain ⟨l₁, l₂, rfl⟩ := append_of_mem hmem
  rw [pick_append, pick_cons_of_eq hspecifier, length_append, length_cons] at honce
  exact ⟨l₁, p, l₂, rfl, hspecifier, eq_nil_of_length_eq_zero (by omega), eq_nil_of_length_eq_zero (by omega)⟩

lemma exists_word (hs : s ≠ .ref) (honce : (pick s l).length ≤ 1) (h : pick s l ≠ []) :
    ∃ l₁ argument l₂, l = l₁ ++ .word s.keyword argument :: l₂ ∧ pick s l₁ = [] ∧ pick s l₂ = [] := by
  obtain ⟨l₁, p, l₂, rfl, hp, h₁, h₂⟩ := exists_split honce h
  obtain ⟨href, _⟩ | ⟨_, argument, rfl⟩ := specifier_eq_some_iff.mp hp
  · exact absurd href hs
  · exact ⟨l₁, argument, l₂, rfl, h₁, h₂⟩

lemma exists_ref (honce : (pick .ref l).length ≤ 1) (h : pick .ref l ≠ []) :
    ∃ l₁ double l₂, l = l₁ ++ .ref double :: l₂ ∧ pick .ref l₁ = [] ∧ pick .ref l₂ = [] := by
  obtain ⟨l₁, p, l₂, rfl, hp, h₁, h₂⟩ := exists_split honce h
  obtain ⟨_, double, rfl⟩ | ⟨hne, _⟩ := specifier_eq_some_iff.mp hp
  · exact ⟨l₁, double, l₂, rfl, h₁, h₂⟩
  · exact absurd rfl hne

lemma split_unique {l₁ l₂ m₁ m₂ : List Piece} {q : Piece} (h : l₁ ++ p :: l₂ = m₁ ++ q :: m₂)
    (hq : q.specifier = some s) (h₁ : pick s l₁ = []) (h₂ : pick s l₂ = []) : l₁ = m₁ ∧ p = q ∧ l₂ = m₂ := by
  have hnot : ∀ {k : List Piece}, pick s k = [] → q ∉ k := fun hk hmem =>
    eq_nil_iff_forall_not_mem.mp hk q (mem_pick.mpr ⟨hmem, hq⟩)
  exact (append_cons_inj_of_notMem (hnot h₁) (hnot h₂)).mp h

/-! ## Searching for a specifier -/

/-- The recogniser accepts the pieces of a specifier, up to the given size, and nothing else. -/
def Finds (r : Recognizer) (s : Specifier) (size : Option Argument → Nat) : Prop :=
  ∀ keep l, (∀ p ∈ l, p.WellFormed) → spacedFrom true l → ∀ i ≤ (under (.full keep) l).length, ∀ n,
    r (Recognizer.before none (under (.full keep) l) i) ((under (.full keep) l).drop i) = some n ↔
      ∃ l₁ argument l₂, l = l₁ ++ .word s.keyword argument :: l₂ ∧ i = (under (.full keep) l₁).length ∧
        n = size argument

lemma finds_word (hs : s ≠ .ref) : Finds (word s.keyword) s fun _ => s.keyword.length := by
  intro keep l hpieces hspaced i hi n
  rw [word_at_eq_some_iff (isWordChar_keyword s) (keyword_ne_nil hs) hi]
  constructor
  · rintro ⟨rfl, a, b, rfl, hoccurs⟩
    obtain ⟨l₁, argument, l₂, hl, rfl⟩ := exists_piece_of_occurs hs hpieces hspaced hoccurs
    exact ⟨l₁, argument, l₂, hl, rfl, rfl⟩
  · rintro ⟨l₁, argument, l₂, rfl, rfl, rfl⟩
    exact ⟨rfl, _, _, rfl, occurs_of_piece hs hpieces hspaced⟩

/-- A piece is blank under a mask, or begins with a mark or a character of a word. -/
lemma blank_or_head (h : p.WellFormed) (keep : Bool) :
    (∀ c ∈ p.under (.full keep), isBlank c) ∨
      ∃ c x, p.under (.full keep) = c :: x ∧ (c ∈ ['/', '[', '&'] ∨ isOrdinary c) := by
  cases p with
  | blank b => exact .inl (forall_mem_singleton.mpr h)
  | lineComment w b =>
    cases keep with
    | true => exact .inr ⟨_, _, rfl, by simp⟩
    | false =>
      exact .inl (forall_mem_append.mpr
        ⟨fun c => isBlank_of_mem_all, forall_mem_singleton.mpr (isBlank_of_isBreak h.2)⟩)
  | blockComment w =>
    cases keep with
    | true => exact .inr ⟨_, _, rfl, by simp⟩
    | false => exact .inl fun c hc => isBlank_of_mem_all hc
  | bracketed w => exact .inr ⟨_, _, rfl, by simp⟩
  | ref double => cases double <;> exact .inr ⟨_, _, rfl, by simp⟩
  | word w argument =>
    obtain ⟨c, w, rfl⟩ := exists_cons_of_ne_nil h.1
    exact .inr ⟨_, _, rfl, .inr (h.2.1 c mem_cons_self)⟩

lemma head?_dropWhile_under (hpieces : ∀ p ∈ l, p.WellFormed) :
    ((under (.full keep) l).dropWhile isBlank).head? ≠ some '(' := by
  induction l with
  | nil => simp
  | cons p l ih =>
    obtain ⟨hp, hpieces⟩ := forall_mem_cons.mp hpieces
    rw [under_cons]
    rcases blank_or_head hp keep with hblank | ⟨c, x, hx, hc⟩
    · rw [dropWhile_append_of_pos hblank]
      exact ih hpieces
    · have hc' : isBlank c = false ∧ c ≠ '(' := by
        rcases hc with hc | hc
        · simp only [mem_cons, not_mem_nil, or_false] at hc
          rcases hc with rfl | rfl | rfl <;> decide
        · obtain ⟨_, hblank, hother⟩ := isOrdinary_iff.mp hc
          refine ⟨hblank, ?_⟩
          rintro rfl
          simp at hother
      rw [hx, cons_append, dropWhile_cons_of_neg (by simp [hc'.1]), head?_cons]
      simpa using hc'.2

lemma no_parenthesis (hpieces : ∀ p ∈ l, p.WellFormed) (prev : Option Char) :
    andThen blanks (emptyPair '(' ')') prev (under (.full keep) l) = none := by
  refine Option.eq_none_iff_forall_ne_some.mpr fun n hn => ?_
  obtain ⟨_, _, hblanks, hpair, _⟩ := andThen_eq_some_iff.mp hn
  obtain rfl := many_eq_some_iff.mp hblanks
  rw [drop_length_takeWhile] at hpair
  obtain ⟨_, _, hleft, _⟩ := andThen_eq_some_iff.mp hpair
  obtain ⟨c, rest, heq, hc, _⟩ := char_eq_some_iff.mp hleft
  obtain rfl : c = '(' := by simpa using hc
  exact head?_dropWhile_under hpieces (by rw [heq]; rfl)

lemma many_append {q : Char → Bool} {x rest : Text} {c : Char} (hx : ∀ d ∈ x, q d) (hc : q c = false)
    (prev : Option Char) : many q prev (x ++ c :: rest) = some x.length := by
  rw [many, takeWhile_append_cons hx hc]

lemma emptyPair_argument {a : Argument} (h : a.WellFormed) (prev : Option Char) (y : Text) :
    andThen blanks (emptyPair '(' ')') prev (a.under (.full keep) ++ y) = some (a.under (.full keep)).length := by
  have htext : a.under (.full keep) ++ y = a.gap ++ '(' :: (Mask.all a.inner ++ ')' :: y) := by
    simp [Argument.under, enclosed, Cover.full]
  have hlength : (a.under (.full keep)).length = a.gap.length + (1 + ((Mask.all a.inner).length + 1)) := by
    simp [Argument.under, Mask.all]
  have hpair : ∀ p, emptyPair '(' ')' p ('(' :: (Mask.all a.inner ++ ')' :: y)) =
      some (1 + ((Mask.all a.inner).length + 1)) := by
    intro p
    simp only [emptyPair, seq]
    refine andThen_eq_some_iff.mpr ⟨1, _, rfl, andThen_eq_some_iff.mpr ⟨(Mask.all a.inner).length, 1, ?_, ?_, rfl⟩, rfl⟩
    · rw [drop_succ_cons]
      exact many_append (fun c => Mask.isBlank_of_mem_all) rfl _
    · rw [drop_succ_cons, drop_zero, drop_left]
      rfl
  rw [htext, hlength]
  refine andThen_eq_some_iff.mpr ⟨_, _, many_append h.1 rfl _, ?_, rfl⟩
  rw [drop_left, hpair]

lemma finds_noexcept : Finds noexceptSpecifier .noexcept fun argument =>
    Specifier.noexcept.keyword.length + (argument.elim [] (Argument.under {})).length := by
  intro keep l hpieces hspaced i hi n
  have hfinds := finds_word (s := .noexcept) (by decide) keep l hpieces hspaced i hi
  have hargument : ∀ {l₁ argument l₂}, l = l₁ ++ .word Specifier.noexcept.keyword argument :: l₂ → ∀ prev,
      optional (andThen blanks (emptyPair '(' ')')) prev
        (((under (.full keep) l).drop (under (.full keep) l₁).length).drop Specifier.noexcept.keyword.length) =
      some (argument.elim [] (Argument.under {})).length := by
    rintro l₁ argument l₂ rfl prev
    rw [under_append, drop_left, under_cons, Piece.under, append_assoc, drop_left, Recognizer.optional]
    cases argument with
    | none =>
      rw [Option.elim, nil_append, no_parenthesis fun p hp => hpieces p (by simp [hp])]
      rfl
    | some a =>
      have ha : a.WellFormed := (hpieces (.word Specifier.noexcept.keyword (some a)) (by simp)).2.2.2.2 a rfl
      rw [Option.elim, emptyPair_argument ha]
      simp [Argument.under]
  rw [noexceptSpecifier, andThen_eq_some_iff]
  constructor
  · rintro ⟨a, b, hword, hoptional, rfl⟩
    obtain ⟨l₁, argument, l₂, hl, rfl, rfl⟩ := (hfinds a).mp hword
    rw [hargument hl] at hoptional
    exact ⟨l₁, argument, l₂, hl, rfl, by rw [← Option.some.inj hoptional]⟩
  · rintro ⟨l₁, argument, l₂, hl, rfl, rfl⟩
    exact ⟨_, _, (hfinds _).mpr ⟨l₁, argument, l₂, hl, rfl, rfl⟩, hargument hl _, rfl⟩

end Pieces

/-! ## Reading the specifiers -/

/-- The specifiers behind the parameters, as a signature holds them. -/
structure Specifiers extends Qualifiers where
  noexceptText : Text

/-- The specifiers without regard to the spacing of the exception specification. -/
def Specifiers.normalized (v : Specifiers) : Specifiers :=
  { v with noexceptText := Spacing.normalizeSource v.noexceptText }

def specifiersOf (s : Signature) : Specifiers := ⟨⟨s.isConst, s.isVolatile, s.refQualifier⟩, s.noexceptText⟩

/-- The specifiers in a text behind the parameters, given masked too. In a trailing return type only the exception
specification counts. -/
def readIn (masked t : Text) : Specifiers :=
  ⟨qualifiersIn (((arrow? masked).map fun a => masked.take a.1).getD masked),
    ((search? noexceptSpecifier masked).map (extract t)).getD []⟩

def read (t : Text) : Specifiers := readIn (parentheses (nonSource t true) true) t

section Reading

variable {s : Specifier} {l l₁ l₂ : List Piece} {r : Recognizer} {size : Option Argument → Nat} {keep : Bool}

lemma Finds.search?_eq_none (hr : Finds r s size) (hs : s ≠ .ref) (h : WellFormed l) (hnone : pick s l = []) :
    search? r (under (.full keep) l) = none := by
  refine search?_eq_none_iff.mpr fun i hi => Option.eq_none_iff_forall_ne_some.mpr fun n hn => ?_
  obtain ⟨l₁, argument, l₂, rfl, _⟩ := (hr keep l h.pieces h.spacedFrom i hi n).mp hn
  rw [pick_append, pick_cons_of_eq (specifier_word hs argument)] at hnone
  simp at hnone

lemma Finds.search?_eq_some (hr : Finds r s size) (hs : s ≠ .ref) {argument : Option Argument}
    (h : WellFormed (l₁ ++ .word s.keyword argument :: l₂)) (h₁ : pick s l₁ = []) (h₂ : pick s l₂ = []) :
    search? r (under (.full keep) (l₁ ++ .word s.keyword argument :: l₂)) =
      some ⟨(under (.full keep) l₁).length, (under (.full keep) l₁).length + size argument⟩ := by
  have hle : (under (.full keep) l₁).length ≤ (under (.full keep) (l₁ ++ .word s.keyword argument :: l₂)).length := by
    rw [under_append, length_append]
    omega
  refine search?_eq_some_iff.mpr ⟨by simp, hle, ?_, fun j hj => ?_⟩
  · rw [Nat.add_sub_cancel_left]
    exact (hr keep _ h.pieces h.spacedFrom _ hle _).mpr ⟨l₁, argument, l₂, rfl, rfl, rfl⟩
  · refine Option.eq_none_iff_forall_ne_some.mpr fun n hn => ?_
    obtain ⟨m₁, a, m₂, heq, rfl, _⟩ := (hr keep _ h.pieces h.spacedFrom j ((Nat.le_of_lt hj).trans hle) n).mp hn
    obtain ⟨rfl, _⟩ := split_unique heq (specifier_word hs a) h₁ h₂
    exact Nat.lt_irrefl _ hj

lemma hasWord_under (hs : s ≠ .ref) {name : String} (hname : name.toList = s.keyword) (h : WellFormed l) :
    Entity.hasWord [name] (under (.full keep) l) = !(pick s l).isEmpty := by
  have hone : anyWord [name.toList] = word s.keyword := by
    funext prev t
    rw [hname, anyWord, map_singleton]
    cases hw : word s.keyword prev t <;> simp [hw, firstOf]
  rw [Entity.hasWord, map_singleton, hone, hasMatch]
  by_cases hnone : pick s l = []
  · rw [(finds_word hs).search?_eq_none hs h hnone, hnone]
    rfl
  · obtain ⟨l₁, argument, l₂, rfl, h₁, h₂⟩ := exists_word hs (h.once s) hnone
    rw [(finds_word hs).search?_eq_some hs h h₁ h₂]
    simpa using hnone

lemma notMem_under {c : Char} (hpieces : ∀ p ∈ l, p.WellFormed) (hblank : isBlank c = false)
    (hvisible : ∀ p ∈ l, c ∉ p.visible) : c ∉ under (.full keep) l := by
  intro hc
  obtain ⟨p, hp, hc⟩ := mem_flatMap.mp hc
  rcases mem_piece_under (hpieces p hp) keep hc with hc | hc
  · rw [hblank] at hc
    cases hc
  · exact hvisible p hp hc

lemma ampersand_notMem (hpieces : ∀ p ∈ l, p.WellFormed) (hnone : pick .ref l = []) (keep : Bool) :
    '&' ∉ under (.full keep) l := by
  refine notMem_under hpieces rfl fun p hp hc => ?_
  cases p with
  | ref double =>
    exact eq_nil_iff_forall_not_mem.mp hnone _ (mem_pick.mpr ⟨hp, rfl⟩)
  | word w argument =>
    have hc : '&' ∈ w := by simpa [Piece.visible] using hc
    exact absurd ((hpieces _ hp).2.1 _ hc) (by decide)
  | blank | lineComment | blockComment | bracketed => simp [Piece.visible] at hc

lemma refQualifierOf_under (h : WellFormed l) : refQualifierOf (under (.full keep) l) = text (pick .ref l) := by
  by_cases hnone : pick .ref l = []
  · have hnot := ampersand_notMem h.pieces hnone keep
    have hdouble : occursIn "&&" (under (.full keep) l) = false := by
      rw [occursIn, Option.isSome_eq_false_iff, Option.isNone_iff_eq_none, find?_eq_none_iff]
      exact fun hpart => hnot (hpart.subset (by decide))
    rw [refQualifierOf, hdouble, hnone]
    simp [hnot, text]
  · obtain ⟨l₁, double, l₂, rfl, h₁, h₂⟩ := exists_ref (h.once .ref) hnone
    obtain ⟨hpieces₁, hpieces₂⟩ := forall_mem_append.mp h.pieces
    have hnot₁ := ampersand_notMem hpieces₁ h₁ keep
    have hnot₂ := ampersand_notMem (forall_mem_cons.mp hpieces₂).2 h₂ keep
    rw [pick_split rfl h₁ h₂, under_append, under_cons, refQualifierOf, occursIn]
    cases double with
    | true =>
      have hfound : find? "&&" (under (.full keep) l₁ ++ (['&', '&'] ++ under (.full keep) l₂)) =
          some (under (.full keep) l₁).length := find?_of_notMem hnot₁ _
      rw [show Piece.under (.full keep) (.ref true) = ['&', '&'] from rfl, hfound]
      rfl
    | false =>
      have hnone : find? "&&" (under (.full keep) l₁ ++ (['&'] ++ under (.full keep) l₂)) = none := by
        refine find?_eq_none_iff.mpr fun hpart => ?_
        have hcount := hpart.sublist.count_le '&'
        simp [count_eq_zero_of_not_mem hnot₁, count_eq_zero_of_not_mem hnot₂] at hcount
      rw [show Piece.under (.full keep) (.ref false) = ['&'] from rfl, hnone]
      simp
      rfl

lemma arrow?_under (hpieces : ∀ p ∈ l, p.WellFormed) : arrow? (under (.full keep) l) = none := by
  have hnot : '-' ∉ under (.full keep) l := by
    refine notMem_under hpieces rfl fun p hp hc => ?_
    cases p with
    | word w argument =>
      have hc : '-' ∈ w := by simpa [Piece.visible] using hc
      exact absurd ((hpieces _ hp).2.1 _ hc) (by decide)
    | blank | lineComment | blockComment | bracketed | ref => simp [Piece.visible] at hc
  have hnone : find? "->" (under (.full keep) l) = none :=
    find?_eq_none_iff.mpr fun hpart => hnot (hpart.subset (by decide))
  rw [arrow?, hnone]

def specifiersIn (l : List Piece) : Specifiers :=
  ⟨⟨!(pick .const l).isEmpty, !(pick .volatile l).isEmpty, text (pick .ref l)⟩, text (pick .noexcept l)⟩

lemma read_text (h : WellFormed l) : read (text l) = specifiersIn l := by
  rw [read, readingMask_text h.pieces, readIn, arrow?_under h.pieces, Option.map_none, Option.getD_none,
    qualifiersIn, hasWord_under (s := .const) (by decide) rfl h,
    hasWord_under (s := .volatile) (by decide) rfl h, refQualifierOf_under h, specifiersIn]
  congr 1
  by_cases hnone : pick .noexcept l = []
  · rw [finds_noexcept.search?_eq_none (by decide) h hnone, hnone]
    rfl
  · obtain ⟨l₁, argument, l₂, rfl, h₁, h₂⟩ := exists_word (by decide) (h.once .noexcept) hnone
    rw [finds_noexcept.search?_eq_some (by decide) h h₁ h₂, pick_split rfl h₁ h₂]
    simp only [Option.map_some, Option.getD_some, text, under_append, under_cons, under_nil, append_nil]
    rw [length_under (.full false) {}, ← length_append]
    exact extract_append _ _ _

end Reading

end Trailing

end CppScaffold
