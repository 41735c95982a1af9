import CppScaffold.Proofs.TrailingReading

/-!
# Updating the specifiers behind the parameters

An update changes one specifier after the other, in a text and its mask at once; each `Step` changes the pieces of its
specifier only. One that is to go is not found directly after a line feed, so the steps keep which others stand there
(`startsLine`).
-/

namespace CppScaffold

open Text Recognizer List SignatureUpdate Spacing

namespace Trailing

variable {s t : Specifier} {p q : Piece} {l l' l₁ l₂ m : List Piece}

/-! ## The ends of pieces -/

/-- The last character of a piece is a blank, the break after a comment, or visible. -/
lemma getLast?_piece (h : p.WellFormed) :
    ∃ c, (p.under {}).getLast? = some c ∧ (p.under (.full true)).getLast? = some c ∧
      (p = .blank c ∨ (∃ w, p = .lineComment w c) ∨ isBlank c = false) := by
  cases p with
  | blank b => exact ⟨b, rfl, rfl, .inl rfl⟩
  | lineComment w b => exact ⟨b, by simp [Piece.under], by simp [Piece.under], .inr (.inl ⟨w, rfl⟩)⟩
  | blockComment w =>
    exact ⟨'/', by simp [Piece.under, enclosed, getLast?_cons],
      by simp [Piece.under, enclosed, Cover.full, getLast?_cons], .inr (.inr rfl)⟩
  | bracketed w =>
    exact ⟨']', by simp [Piece.under, enclosed, getLast?_cons],
      by simp [Piece.under, enclosed, Cover.full, getLast?_cons], .inr (.inr rfl)⟩
  | ref double => cases double <;> exact ⟨'&', rfl, rfl, .inr (.inr rfl)⟩
  | word w argument =>
    cases argument with
    | none =>
      have hlast := getLast?_eq_getLast_of_ne_nil h.1
      exact ⟨w.getLast h.1, by simpa [Piece.under] using hlast, by simpa [Piece.under] using hlast,
        .inr (.inr (isOrdinary_iff.mp (h.2.1 _ (getLast_mem h.1))).2.1)⟩
    | some a =>
      refine ⟨')', ?_, ?_, .inr (.inr rfl)⟩
      · simp [Piece.under, Argument.under, enclosed, getLast?_cons]
      · simp [Piece.under, Argument.under, enclosed, Cover.full, getLast?_cons]

/-- Blanks of any kind. -/
def Blanks (l : List Piece) : Prop := ∀ q ∈ l, ∃ c, q = .blank c

/-- Spaces and tabs. -/
def Spaces (l : List Piece) : Prop := ∀ q ∈ l, ∃ c, q = .blank c ∧ isSpaceOrTab c

lemma Spaces.blanks (h : Spaces l) : Blanks l := fun q hq => (h q hq).imp fun _ => And.left

lemma getLast?_under_concat (hp : p.WellFormed) (c : Cover) (l : List Piece) :
    (under c (l ++ [p])).getLast? = (p.under c).getLast? := by
  rw [under_append, under_cons, under_nil, append_nil, getLast?_append_of_ne_nil _ (piece_under_ne_nil hp _)]

lemma exists_spaces (hpieces : ∀ p ∈ l, p.WellFormed) {x y : Text} (h : under (.full true) l = x ++ y)
    (hy : ∀ c ∈ y, isSpaceOrTab c) : ∃ m b, l = m ++ b ∧ under (.full true) m = x ∧ Spaces b := by
  induction l using reverseRecOn generalizing y with
  | nil =>
    obtain ⟨rfl, rfl⟩ := append_eq_nil_iff.mp h.symm
    exact ⟨[], [], rfl, rfl, forall_mem_nil _⟩
  | append_singleton l p ih =>
    obtain ⟨hinner, hp⟩ := forall_mem_append.mp hpieces
    rcases eq_nil_or_concat' y with rfl | ⟨y, c, rfl⟩
    · exact ⟨l ++ [p], [], by simp, by simpa using h, forall_mem_nil _⟩
    · have hp := forall_mem_singleton.mp hp
      obtain ⟨hspaces, hc⟩ := forall_mem_append.mp hy
      have hc := forall_mem_singleton.mp hc
      obtain ⟨d, _, hlast, hd⟩ := getLast?_piece hp
      have heq := congrArg getLast? h
      rw [getLast?_under_concat hp, hlast, ← append_assoc, getLast?_concat] at heq
      obtain rfl := Option.some.inj heq
      rcases hd with rfl | ⟨w, rfl⟩ | hd
      · have hinit : under (.full true) l = x ++ y := by
          rw [under_append, ← append_assoc] at h
          exact append_cancel_right h
        obtain ⟨m, b, rfl, hm, hb⟩ := ih hinner hinit hspaces
        exact ⟨m, b ++ [.blank d], by simp, hm, forall_mem_append.mpr ⟨hb, forall_mem_singleton.mpr ⟨d, rfl, hc⟩⟩⟩
      · rcases Bool.or_eq_true_iff.mp hc with hc | hc <;> rw [beq_iff_eq.mp hc] at hp <;> cases hp.2
      · rw [isBlank_of_isSpaceOrTab hc] at hd
        cases hd

lemma getLast?_under (hpieces : ∀ p ∈ l, p.WellFormed) : (under (.full true) l).getLast? = (text l).getLast? := by
  rcases eq_nil_or_concat' l with rfl | ⟨l, p, rfl⟩
  · rfl
  · have hp := hpieces p (by simp)
    obtain ⟨c, hshown, hmasked, _⟩ := getLast?_piece hp
    rw [text, getLast?_under_concat hp, getLast?_under_concat hp, hshown, hmasked]

/-! ## Searching with the blanks before a specifier -/

/-- With the blanks before it a specifier is accepted everywhere in them, but not directly after a line feed. -/
lemma notAfterBreak_eq_some_iff {r : Recognizer} {u : Text} {j n : Nat} :
    notAfterBreak (andThen (many isSpaceOrTab) r) (before none u j) (u.drop j) = some n ↔
      before none u j ≠ some '\n' ∧
        ∃ k, r (before none u (j + ((u.drop j).takeWhile isSpaceOrTab).length))
            (u.drop (j + ((u.drop j).takeWhile isSpaceOrTab).length)) = some k ∧
          n = ((u.drop j).takeWhile isSpaceOrTab).length + k := by
  unfold notAfterBreak
  by_cases hprev : before none u j = some '\n'
  · simp [hprev]
  · simp only [beq_iff_eq, hprev, if_false, not_false_eq_true, true_and, ne_eq, andThen_eq_some_iff, many_eq_some_iff]
    constructor
    · rintro ⟨_, k, rfl, hk, rfl⟩
      rw [before_before, drop_drop] at hk
      exact ⟨k, hk, rfl⟩
    · rintro ⟨k, hk, rfl⟩
      refine ⟨_, k, rfl, ?_, rfl⟩
      rwa [before_before, drop_drop]

lemma before_takeWhile (q : Char → Bool) (u : Text) (j : Nat) :
    ((u.drop j).takeWhile q).length = 0 ∨
      ∃ c, before none u (j + ((u.drop j).takeWhile q).length) = some c ∧ q c := by
  by_cases hzero : ((u.drop j).takeWhile q).length = 0
  · exact .inl hzero
  · have hlt : ((u.drop j).takeWhile q).length - 1 < ((u.drop j).takeWhile q).length := by omega
    obtain ⟨c, hget, hc⟩ := exists_getElem?_takeWhile hlt
    rw [getElem?_drop, ← Nat.add_sub_assoc (by omega)] at hget
    refine .inr ⟨c, ?_, hc⟩
    rw [before, if_neg (by omega), hget]

section Search

variable {r : Recognizer} {size : Option Argument → Nat} {argument : Option Argument}

lemma not_isSpaceOrTab_keyword (hs : s ≠ .ref) (x : Text) : (s.keyword ++ x).takeWhile isSpaceOrTab = [] := by
  obtain ⟨c, k, hk⟩ := exists_cons_of_ne_nil (keyword_ne_nil hs)
  have hc := isWordChar_keyword s c (hk ▸ mem_cons_self)
  rw [hk, cons_append, takeWhile_cons_of_neg]
  intro hspace
  rw [isWordChar_of_isBlank (isBlank_of_isSpaceOrTab hspace)] at hc
  cases hc

lemma before_piece (hpieces : ∀ p ∈ l₁, p.WellFormed) :
    before none (under (.full true) (l₁ ++ m)) (under (.full true) l₁).length = (text l₁).getLast? := by
  rw [under_append, ← getLast?_take_of_le (by rw [length_append]; omega), take_left, getLast?_under hpieces]

variable (hr : Finds r s size) (hs : s ≠ .ref) (hl : l = l₁ ++ .word s.keyword argument :: l₂) (h : WellFormed l)
  (h₁ : pick s l₁ = []) (h₂ : pick s l₂ = [])

include hr hs hl h h₁ h₂

lemma Finds.place_unique {i k : Nat} (hi : i ≤ (under (.full true) l).length)
    (haccepts : r (before none (under (.full true) l) i) ((under (.full true) l).drop i) = some k) :
    i = (under (.full true) l₁).length ∧ k = size argument := by
  obtain ⟨m₁, a, m₂, heq, rfl, rfl⟩ := (hr true _ h.pieces h.spacedFrom i hi k).mp haccepts
  obtain ⟨rfl, hpiece, _⟩ := split_unique (hl.symm.trans heq) (specifier_word hs a) h₁ h₂
  cases hpiece
  exact ⟨rfl, rfl⟩

lemma Finds.search_afterBreak (hbreak : (text l₁).getLast? = some '\n') :
    search? (notAfterBreak (andThen (many isSpaceOrTab) r)) (under (.full true) l) = none := by
  refine search?_eq_none_iff.mpr fun j hj => Option.eq_none_iff_forall_ne_some.mpr fun n hn => ?_
  obtain ⟨hprev, k, hk, _⟩ := notAfterBreak_eq_some_iff.mp hn
  have hle := (takeWhile_sublist isSpaceOrTab (l := (under (.full true) l).drop j)).length_le
  rw [length_drop] at hle
  obtain ⟨hplace, _⟩ := hr.place_unique hs hl h h₁ h₂ (by omega) hk
  have hbefore := @before_piece l₁ (.word s.keyword argument :: l₂) fun p hp => h.pieces p (by simp [hl, hp])
  rw [hbreak, ← hl, ← hplace] at hbefore
  rcases before_takeWhile isSpaceOrTab (under (.full true) l) j with hzero | ⟨c, hc, hspace⟩
  · rw [hzero] at hbefore
    exact hprev hbefore
  · rw [hbefore] at hc
    rw [← Option.some.inj hc] at hspace
    cases hspace

/-- Elsewhere a specifier is found with blanks before it. -/
lemma Finds.search_blanks (hbreak : (text l₁).getLast? ≠ some '\n') :
    ∃ m b, l₁ = m ++ b ∧ Spaces b ∧ search? (notAfterBreak (andThen (many isSpaceOrTab) r)) (under (.full true) l) =
      some ⟨(under (.full true) m).length, (under (.full true) l₁).length + size argument⟩ := by
  have hpieces : ∀ p ∈ l₁, p.WellFormed := fun p hp => h.pieces p (by simp [hl, hp])
  have hbefore := before_piece (m := .word s.keyword argument :: l₂) hpieces
  have hsplit : under (.full true) l = under (.full true) l₁ ++
      (s.keyword ++ (argument.elim [] (Argument.under (.full true)) ++ under (.full true) l₂)) := by
    rw [hl, under_append, under_cons, Piece.under, append_assoc]
  cases hsearch : search? (notAfterBreak (andThen (many isSpaceOrTab) r)) (under (.full true) l) with
  | none =>
    -- the specifier itself is accepted
    have hle : (under (.full true) l₁).length ≤ (under (.full true) l).length := by
      rw [hsplit, length_append]
      omega
    have haccepts := (hr true _ h.pieces h.spacedFrom _ hle _).mpr ⟨l₁, argument, l₂, hl, rfl, rfl⟩
    have hnone := search?_eq_none_iff.mp hsearch _ hle
    have hzero : ((under (.full true) l).drop (under (.full true) l₁).length).takeWhile isSpaceOrTab = [] := by
      rw [hsplit, drop_left, not_isSpaceOrTab_keyword hs]
    rw [notAfterBreak_eq_some_iff.mpr ⟨by rwa [hl, hbefore], _, by rw [hzero]; exact haccepts, rfl⟩] at hnone
    cases hnone
  | some found =>
    obtain ⟨start, stop⟩ := found
    obtain ⟨hle, hstart, hn, _⟩ := search?_eq_some_iff.mp hsearch
    dsimp only at hle hstart hn
    obtain ⟨_, k, hk, hsize⟩ := notAfterBreak_eq_some_iff.mp hn
    have hrun := prefix_iff_eq_take.mp <| takeWhile_prefix isSpaceOrTab (l := (under (.full true) l).drop start)
    have hlength := congrArg length hrun
    rw [length_take, length_drop] at hlength
    obtain ⟨hplace, rfl⟩ := hr.place_unique hs hl h h₁ h₂ (by omega) hk
    -- the blanks are the end of what stands before the specifier
    have hblanks : ((under (.full true) l).drop start).takeWhile isSpaceOrTab = (under (.full true) l₁).drop start := by
      have hgap : (((under (.full true) l).drop start).takeWhile isSpaceOrTab).length =
          ((under (.full true) l₁).drop start).length := by
        rw [length_drop]
        omega
      rw [hrun, hgap, hsplit, drop_append_of_le_length (by omega), take_left]
    obtain ⟨m, b, heq, hm, hb⟩ := exists_spaces hpieces (take_append_drop start (under (.full true) l₁)).symm
      (fun c hc => mem_takeWhile_imp (by rw [hblanks]; exact hc))
    refine ⟨m, b, heq, hb, ?_⟩
    rw [hm, length_take, Option.some.injEq, Span.mk.injEq]
    omega

end Search

/-! ## What an update depends on -/

/-- Whether a line begins behind a piece, given whether one begins before it; `through` passes over ampersands. -/
def Piece.feeds (through fresh : Bool) : Piece → Bool
  | .blank c => c == '\n'
  | .lineComment _ c => c == '\n'
  | .ref _ => through && fresh
  | _ => false

/-- Whether a line begins behind some pieces. -/
def feedsAfter (through fresh : Bool) (l : List Piece) : Bool := l.foldl (fun f p => p.feeds through f) fresh

/-- Whether a specifier stands directly after a line feed. -/
def startsLine (through : Bool) (s : Specifier) (fresh : Bool) : List Piece → Bool
  | [] => false
  | p :: l => (fresh && p.specifier == some s) || startsLine through s (p.feeds through fresh) l

/-- Whether a line comment is left open behind a piece, when the given specifiers are removed. -/
def Piece.comments (removed : Specifier → Bool) (pending : Bool) : Piece → Bool
  | .blank _ => pending
  | .lineComment _ _ => true
  | p => p.specifier.any removed && pending

/-- Whether only blanks and removed specifiers stand behind a last line comment. -/
def endsInComment (removed : Specifier → Bool) (pending : Bool) (l : List Piece) : Bool :=
  l.foldl (fun o p => p.comments removed o) pending

variable {through fresh o : Bool} {removed : Specifier → Bool}

lemma startsLine_append :
    startsLine through s fresh (l ++ m) =
      (startsLine through s fresh l || startsLine through s (feedsAfter through fresh l) m) := by
  induction l generalizing fresh with
  | nil => rfl
  | cons p l ih => rw [cons_append, startsLine, ih, startsLine, Bool.or_assoc]; rfl

lemma startsLine_of_pick (h : pick s l = []) : startsLine through s fresh l = false := by
  induction l generalizing fresh with
  | nil => rfl
  | cons p l ih =>
    obtain ⟨hp, h⟩ := pick_cons_eq_nil_iff.mp h
    simp [startsLine, hp, ih h]

/-- Behind a word no line begins, and no other word does. -/
lemma startsLine_of_spaced (hs : s ≠ .ref) (h : spacedFrom false l) :
    startsLine through s fresh l = startsLine through s false l := by
  induction l generalizing fresh with
  | nil => rfl
  | cons p l ih =>
    obtain ⟨hfits, hspaced⟩ := Bool.and_eq_true_iff.mp h
    cases p with
    | ref double =>
      have hp : (Piece.ref double).specifier ≠ some s := fun hp => hs (Option.some.inj hp).symm
      simp only [startsLine, beq_eq_false_iff_ne.mpr hp, Bool.and_false, Bool.false_or]
      exact (ih hspaced).trans (ih hspaced).symm
    | word w argument =>
      have hp : (Piece.word w argument).specifier ≠ some s := by
        intro hp
        obtain ⟨href, _⟩ | ⟨_, a, ha⟩ := specifier_eq_some_iff.mp hp
        · exact hs href
        · cases ha
          have := isWord_head?_keyword hs []
          simp only [append_nil] at this
          simp [Piece.fits, this] at hfits
      simp only [startsLine, beq_eq_false_iff_ne.mpr hp, Bool.and_false, Bool.false_or]
      rfl
    | blank | lineComment | blockComment | bracketed => simp [startsLine, Piece.specifier, Piece.feeds]

/-- Without ampersands it does not matter whether they are passed over. -/
lemma startsLine_through (h : pick .ref l = []) : startsLine through s fresh l = startsLine false s fresh l := by
  induction l generalizing fresh with
  | nil => rfl
  | cons p l ih =>
    obtain ⟨hp, h⟩ := pick_cons_eq_nil_iff.mp h
    have hfeeds : p.feeds through fresh = p.feeds false fresh := by
      cases p with
      | ref double => exact absurd rfl hp
      | blank | lineComment | blockComment | bracketed | word => rfl
    rw [startsLine, startsLine, ih h, hfeeds]

lemma feedsAfter_iff (hpieces : ∀ p ∈ l, p.WellFormed) :
    feedsAfter false false l ↔ (text l).getLast? = some '\n' := by
  rcases eq_nil_or_concat' l with rfl | ⟨l, p, rfl⟩
  · simp [feedsAfter, text]
  · have hp := hpieces p (by simp)
    obtain ⟨c, hlast, _, hc⟩ := getLast?_piece hp
    have hfeeds : feedsAfter false false (l ++ [p]) = p.feeds false (feedsAfter false false l) := foldl_concat ..
    rw [text, getLast?_under_concat hp, hlast, hfeeds, Option.some.injEq]
    rcases hc with rfl | ⟨w, rfl⟩ | hc
    · simp [Piece.feeds]
    · simp [Piece.feeds]
    · have hne : c ≠ '\n' := by
        rintro rfl
        cases hc
      refine iff_of_false (fun hfeeds => ?_) hne
      cases p with
      | blank b | lineComment w b =>
        obtain rfl : b = c := by simpa [Piece.under] using hlast
        exact hne (by simpa [Piece.feeds] using hfeeds)
      | blockComment | bracketed | ref | word => simp [Piece.feeds] at hfeeds

/-! ## Steps -/

def masked (l : List Piece) : Masked := ⟨text l, under (.full true) l⟩

lemma masked_masked (l : List Piece) : (masked l).masked = under (.full true) l := rfl

lemma under_splice {i j : Nat} {k : List Piece} (hi : i = (under (.full true) l₁).length)
    (hj : j = (under (.full true) (l₁ ++ k)).length) (c : Cover) (x : Text) :
    (under c (l₁ ++ (k ++ l₂))).take i ++ x ++ (under c (l₁ ++ (k ++ l₂))).drop j =
      under c l₁ ++ (x ++ under c l₂) := by
  rw [hi, hj, length_under (.full true) c l₁, length_under (.full true) c (l₁ ++ k), ← append_assoc,
    under_append c (l₁ ++ k), drop_left, under_append c l₁ k, append_assoc (under c l₁), take_left, append_assoc]

lemma text_splice {i j : Nat} {k new : List Piece} (hi : i = (under (.full true) l₁).length)
    (hj : j = (under (.full true) (l₁ ++ k)).length) :
    (text (l₁ ++ (k ++ l₂))).take i ++ text new ++ (text (l₁ ++ (k ++ l₂))).drop j = text (l₁ ++ (new ++ l₂)) := by
  rw [text, under_splice hi hj]
  simp [text]

lemma splice_masked {i j : Nat} {k new : List Piece} (hnew : under (.full true) new = text new)
    (hi : i = (under (.full true) l₁).length) (hj : j = (under (.full true) (l₁ ++ k)).length) :
    (masked (l₁ ++ (k ++ l₂))).splice i j (text new) = masked (l₁ ++ (new ++ l₂)) := by
  rw [Masked.splice, masked, masked, Masked.mk.injEq]
  refine ⟨text_splice hi hj, ?_⟩
  rw [under_splice hi hj, ← hnew]
  simp

/-- One step changes one specifier only, keeps which others stand at the start of a line, and makes no line comment the
last piece. -/
structure Step (removed : Specifier → Bool) (s : Specifier) (l l' : List Piece) : Prop where
  wellFormed : WellFormed l'
  others : ∀ t, t ≠ s → pick t l' = pick t l
  lines : ∀ through t, t ≠ .ref → t ≠ s → (s = .ref → through = removed .ref) →
    startsLine through t false l' = startsLine through t false l
  comment : endsInComment removed false l' → endsInComment removed false l

lemma Step.refl (removed : Specifier → Bool) (s : Specifier) (h : WellFormed l) : Step removed s l l :=
  ⟨h, fun _ _ => rfl, fun _ _ _ _ _ => rfl, id⟩

lemma endsInComment_append : endsInComment removed o (l ++ m) = endsInComment removed (endsInComment removed o l) m :=
  foldl_append

lemma endsInComment_mono {removed' : Specifier → Bool} {o' : Bool} (hremoved : ∀ t, removed t → removed' t)
    (ho : o → o') (h : endsInComment removed o l) : endsInComment removed' o' l := by
  induction l generalizing o o' with
  | nil => exact ho h
  | cons p l ih =>
    refine ih (fun hp => ?_) h
    cases p with
    | blank b => exact ho hp
    | lineComment w b => rfl
    | blockComment | bracketed => cases hp
    | ref | word =>
      obtain ⟨hany, hpending⟩ := Bool.and_eq_true_iff.mp hp
      refine Bool.and_eq_true_iff.mpr ⟨?_, ho hpending⟩
      generalize Piece.specifier _ = found at hany ⊢
      cases found with
      | none => cases hany
      | some t => exact hremoved t hany

lemma spaced_of_spacedFrom (h : spacedFrom false l) : spaced l := by
  cases l with
  | nil => rfl
  | cons p l => exact (Bool.and_eq_true_iff.mp h).2

lemma spacedFrom_of_word {w : Text} {argument : Option Argument} (h : spacedFrom fresh (l₁ ++ .word w argument :: l₂)) :
    spacedFrom false l₂ := by
  rw [spacedFrom_append] at h
  exact (Bool.and_eq_true_iff.mp (Bool.and_eq_true_iff.mp h).2).2

/-- Pieces at the end can be replaced by others that are spaced as well. -/
lemma spaced_replace (h : spaced (l ++ l₁)) (hstart : spaced l₁ → spaced l₂)
    (hlater : ∀ free, spacedFrom free l₁ → spacedFrom free l₂) : spaced (l ++ l₂) := by
  cases l with
  | nil => exact hstart h
  | cons p l =>
    have h : spacedFrom (p.allows false) (l ++ l₁) := h
    change spacedFrom (p.allows false) (l ++ l₂)
    rw [spacedFrom_append] at h ⊢
    obtain ⟨hl, hrest⟩ := Bool.and_eq_true_iff.mp h
    rw [hl, hlater _ hrest]
    rfl

lemma pick_blanks (h : Blanks l) (s : Specifier) : pick s l = [] := by
  refine filter_eq_nil_iff.mpr fun q hq => ?_
  obtain ⟨c, rfl⟩ := h q hq
  simp [Piece.specifier]

lemma endsInComment_blanks (h : Blanks l) : endsInComment removed o l = o := by
  induction l with
  | nil => rfl
  | cons p l ih =>
    obtain ⟨⟨c, rfl⟩, hl⟩ := forall_mem_cons.mp h
    exact ih hl

lemma feedsAfter_spaces (h : Spaces l) : feedsAfter through false l = false := by
  induction l with
  | nil => rfl
  | cons p l ih =>
    obtain ⟨⟨c, rfl, hc⟩, hl⟩ := forall_mem_cons.mp h
    have hfeeds : Piece.feeds through false (.blank c) = false := by
      rw [Piece.feeds, beq_eq_false_iff_ne]
      rintro rfl
      cases hc
    exact (congrArg (feedsAfter through · l) hfeeds).trans (ih hl)

lemma startsLine_cons_of_ne (h : p.specifier ≠ some t) :
    startsLine through t fresh (p :: l) = startsLine through t (p.feeds through fresh) l := by
  rw [startsLine, beq_eq_false_iff_ne.mpr h, Bool.and_false, Bool.false_or]

lemma endsInComment_cons_of_eq (h : p.specifier = some s) :
    endsInComment removed o (p :: l) = endsInComment removed (removed s && o) l := by
  have hp : p.comments removed o = (removed s && o) := by
    cases p with
    | blank | lineComment | blockComment | bracketed => cases h
    | ref | word =>
      change (Option.any removed (Piece.specifier _) && o) = _
      rw [h, Option.any_some]
  exact congrArg (endsInComment removed · l) hp

lemma ne_of_specifier (h : p.specifier = some s) (ht : t ≠ s) : p.specifier ≠ some t := by
  rw [h]
  exact fun heq => ht (Option.some.inj heq).symm

lemma Step.replace (h : WellFormed (l ++ l₁)) (hpieces : ∀ p ∈ l₂, p.WellFormed)
    (hstart : spaced l₁ → spaced l₂) (hlater : ∀ free, spacedFrom free l₁ → spacedFrom free l₂)
    (honce : (pick s (l ++ l₂)).length ≤ 1) (hothers : ∀ t, t ≠ s → pick t l₂ = pick t l₁)
    (hlines : ∀ through t, t ≠ .ref → t ≠ s → (s = .ref → through = removed .ref) →
      startsLine through t (feedsAfter through false l) l₂ = startsLine through t (feedsAfter through false l) l₁)
    (hcomment : ∀ o, endsInComment removed o l₂ → endsInComment removed o l₁) :
    Step removed s (l ++ l₁) (l ++ l₂) := by
  have hpick : ∀ t, t ≠ s → pick t (l ++ l₂) = pick t (l ++ l₁) := by
    intro t ht
    rw [pick_append, pick_append, hothers t ht]
  refine ⟨⟨forall_mem_append.mpr ⟨(forall_mem_append.mp h.pieces).1, hpieces⟩,
    spaced_replace h.spaced hstart hlater, fun t => ?_⟩, hpick, fun through t href ht hthrough => ?_, fun hends => ?_⟩
  · by_cases ht : t = s
    · rwa [ht]
    · rw [hpick t ht]
      exact h.once t
  · rw [startsLine_append, startsLine_append, hlines through t href ht hthrough]
  · rw [endsInComment_append] at hends ⊢
    exact hcomment _ hends

section

variable {b : List Piece} (hp : p.specifier = some s)

include hp

lemma Step.remove (hremoved : removed s) (hb : Spaces b) (h : WellFormed (m ++ (b ++ p :: l₂)))
    (hstart : spaced (b ++ p :: l₂) → spaced l₂)
    (hlater : ∀ free, spacedFrom free (b ++ p :: l₂) → spacedFrom free l₂)
    (hlines : ∀ (through fresh : Bool) t, t ≠ .ref → (s = .ref → through) →
      startsLine through t fresh l₂ = startsLine through t (p.feeds through (feedsAfter through fresh b)) l₂) :
    Step removed s (m ++ (b ++ p :: l₂)) (m ++ l₂) := by
  refine .replace h (fun q hq => h.pieces q (by simp [hq])) hstart hlater ?_ (fun t ht => ?_)
    (fun through t href ht hthrough => ?_) fun o hends => ?_
  · have honce := h.once s
    simp only [pick_append, pick_cons_of_eq hp, length_append, length_cons] at honce ⊢
    omega
  · rw [pick_append, pick_blanks hb.blanks, pick_cons_of_ne (ne_of_specifier hp ht), nil_append]
  · rw [startsLine_append, startsLine_of_pick (pick_blanks hb.blanks t), startsLine_cons_of_ne (ne_of_specifier hp ht),
      hlines _ _ t href fun hs => by rw [hthrough hs, ← hs, hremoved]]
    rfl
  · rwa [endsInComment_append, endsInComment_blanks hb.blanks, endsInComment_cons_of_eq hp, hremoved]

lemma pick_insert (hnone : pick s (l₁ ++ l₂) = []) : pick s (l₁ ++ .blank ' ' :: p :: l₂) = [p] := by
  rw [pick_append] at hnone
  obtain ⟨h₁, h₂⟩ := append_eq_nil_iff.mp hnone
  rw [pick_append, pick_cons_of_ne (by simp [Piece.specifier]), pick_cons_of_eq hp, h₁, h₂]
  rfl

lemma Step.insert (hwellFormed : p.WellFormed) (hb : Spaces b) (h : WellFormed (l₁ ++ l₂))
    (hnone : pick s (l₁ ++ l₂) = []) (hspaced : spacedFrom true (p :: (b ++ l₂)))
    (hlines : ∀ through t, t ≠ .ref → (s = .ref → through = removed .ref) →
      startsLine through t (feedsAfter through (p.feeds through false) b) l₂ =
        startsLine through t (feedsAfter through false l₁) l₂) :
    Step removed s (l₁ ++ l₂) (l₁ ++ .blank ' ' :: p :: (b ++ l₂)) := by
  have hblank : ∀ t, Piece.specifier (.blank ' ') ≠ some t := by simp [Piece.specifier]
  have hpick : ∀ t, pick t (b ++ l₂) = pick t l₂ := fun t => by rw [pick_append, pick_blanks hb.blanks, nil_append]
  refine .replace h (forall_mem_cons.mpr ⟨rfl, forall_mem_cons.mpr ⟨hwellFormed, forall_mem_append.mpr
    ⟨fun q hq => ?_, (forall_mem_append.mp h.pieces).2⟩⟩⟩) (fun _ => hspaced) (fun _ _ => hspaced) ?_ (fun t ht => ?_)
    (fun through t href ht hthrough => ?_) fun o hends => ?_
  · obtain ⟨c, rfl, hc⟩ := hb q hq
    exact isBlank_of_isSpaceOrTab hc
  · rw [pick_insert hp (by rw [pick_append, hpick, ← pick_append, hnone])]
    exact Nat.le_refl 1
  · rw [pick_cons_of_ne (hblank t), pick_cons_of_ne (ne_of_specifier hp ht), hpick]
  · rw [startsLine_cons_of_ne (hblank t), startsLine_cons_of_ne (ne_of_specifier hp ht), startsLine_append,
      startsLine_of_pick (pick_blanks hb.blanks t), ← hlines through t href hthrough]
    rfl
  · have hends : endsInComment removed o (p :: (b ++ l₂)) := hends
    rw [endsInComment_cons_of_eq hp, endsInComment_append, endsInComment_blanks hb.blanks] at hends
    exact endsInComment_mono (fun _ => id) (fun ho => (Bool.and_eq_true_iff.mp ho).2) hends

lemma Step.exchange (hq : q.specifier = some s) (hwellFormed : q.WellFormed) (h : WellFormed (l₁ ++ p :: l₂))
    (hallows : ∀ free, q.allows free = p.allows free) (hfits : ∀ free, q.fits free = p.fits free)
    (hfeeds : ∀ through fresh, q.feeds through fresh = p.feeds through fresh) :
    Step removed s (l₁ ++ p :: l₂) (l₁ ++ q :: l₂) := by
  have hrest := (forall_mem_cons.mp (forall_mem_append.mp h.pieces).2).2
  refine .replace h (forall_mem_cons.mpr ⟨hwellFormed, hrest⟩) (fun hspaced => ?_) (fun _ hspaced => ?_) ?_
    (fun t ht => ?_) (fun through t _ ht _ => ?_) fun o hends => ?_
  · rwa [spaced, hallows]
  · rwa [spacedFrom, hallows, hfits]
  · have honce := h.once s
    rw [pick_append, pick_cons_of_eq hp, length_append] at honce
    rwa [pick_append, pick_cons_of_eq hq, length_append, length_cons]
  · rw [pick_cons_of_ne (ne_of_specifier hq ht), pick_cons_of_ne (ne_of_specifier hp ht)]
  · rw [startsLine_cons_of_ne (ne_of_specifier hq ht), startsLine_cons_of_ne (ne_of_specifier hp ht), hfeeds]
  · rwa [endsInComment_cons_of_eq hp, ← endsInComment_cons_of_eq hq]

end

lemma step_remove (hs : s ≠ .ref) (hremoved : removed s) {b : List Piece} {argument : Option Argument}
    (h : WellFormed (m ++ (b ++ .word s.keyword argument :: l₂))) (hb : Spaces b) :
    Step removed s (m ++ (b ++ .word s.keyword argument :: l₂)) (m ++ l₂) := by
  have hspaced : spacedFrom false l₂ := by
    have := h.spacedFrom
    rw [← append_assoc] at this
    exact spacedFrom_of_word this
  exact .remove (specifier_word hs argument) hremoved hb h (fun _ => spaced_of_spacedFrom hspaced)
    (fun _ _ => spacedFrom_mono hspaced) fun _ _ _ href _ => startsLine_of_spaced href hspaced

lemma head?_text (hp : p.WellFormed) (hword : isWord (text (p :: l)).head? = false) : p.fits false := by
  cases p with
  | word w argument =>
    obtain ⟨c, w, rfl⟩ := exists_cons_of_ne_nil hp.1
    have hc : isWord (some c) = false := hword
    simp [Piece.fits, hc]
  | blank | lineComment | blockComment | bracketed | ref => rfl

/-- The pieces that are put in for a qualifier. -/
def added (s : Specifier) (l : List Piece) : List Piece :=
  .blank ' ' :: .word s.keyword none :: if isWord (text l).head? then [.blank ' '] else []

lemma word_wellFormed (hs : s ≠ .ref) : (Piece.word s.keyword none).WellFormed := by
  have hordinary : s.keyword.all isOrdinary := by cases s <;> decide +kernel
  refine ⟨keyword_ne_nil hs, all_eq_true.mp hordinary, fun t ht => ?_, fun t ht => ?_, by simp⟩
  · simp only [mem_cons, not_mem_nil, or_false] at ht
    rcases ht with rfl | rfl | rfl <;> cases s <;> decide +kernel
  · simp only [mem_cons, not_mem_nil, or_false] at ht
    rcases ht with rfl | rfl <;> cases s <;> decide +kernel

lemma step_add (hs : s ≠ .ref) (h : WellFormed l) (hnone : pick s l = []) : Step removed s l (added s l ++ l) := by
  obtain ⟨gap, hadded, hgap, hspaced⟩ : ∃ gap, added s l = .blank ' ' :: .word s.keyword none :: gap ∧ Spaces gap ∧
      spacedFrom false (gap ++ l) := by
    by_cases hhead : isWord (text l).head?
    · exact ⟨[.blank ' '], by rw [added, if_pos hhead], fun q hq => ⟨' ', mem_singleton.mp hq, rfl⟩, h.spacedFrom⟩
    · refine ⟨[], by rw [added, if_neg hhead], by simp [Spaces], ?_⟩
      cases l with
      | nil => rfl
      | cons p l =>
        have hfits := head?_text (h.pieces p mem_cons_self) (by simpa using hhead)
        exact Bool.and_eq_true_iff.mpr ⟨hfits, h.spaced⟩
  rw [hadded]
  change Step removed s ([] ++ l) ([] ++ .blank ' ' :: .word s.keyword none :: (gap ++ l))
  exact .insert (specifier_word hs none) (word_wellFormed hs) hgap h hnone
    (Bool.and_eq_true_iff.mpr ⟨rfl, hspaced⟩) fun through t _ _ =>
      congrArg (startsLine through t · l) (feedsAfter_spaces hgap)

/-! ## The steps of an update -/

/-- A specifier that is not repeated stands at the start of a line if a line ends before it. -/
lemma startsLine_split (hp : p.specifier = some s) (h₁ : pick s l₁ = []) (h₂ : pick s l₂ = [])
    (h : WellFormed (l₁ ++ p :: l₂)) :
    startsLine false s false (l₁ ++ p :: l₂) ↔ (text l₁).getLast? = some '\n' := by
  rw [startsLine_append, startsLine_of_pick h₁, startsLine, startsLine_of_pick h₂, hp,
    ← feedsAfter_iff (forall_mem_append.mp h.pieces).1]
  simp

lemma text_added (s : Specifier) (l : List Piece) :
    text (added s l) = ' ' :: s.keyword ++ (if isWord (text l).head? then [' '] else []) := by
  rw [added]
  split <;> simp [text, Piece.under]

lemma under_added (s : Specifier) (l : List Piece) : under (.full true) (added s l) = text (added s l) := by
  rw [added]
  split <;> rfl

/-- A qualifier is put in or removed as wanted, unless it is to be removed from the start of a line. -/
lemma qualifier_step (hs : s = .const ∨ s = .volatile) {name : String} (hname : name.toList = s.keyword)
    {wanted : Bool} (hremoved : removed s = !wanted) (h : WellFormed l) :
    ∃ l', qualifier name wanted (!(pick s l).isEmpty) (masked l) = masked l' ∧ Step removed s l l' ∧
      (!(pick s l').isEmpty) = (wanted || startsLine false s false l) := by
  have href : s ≠ .ref := by
    rintro rfl
    simp at hs
  by_cases hnone : pick s l = []
  · rw [startsLine_of_pick hnone, hnone]
    cases wanted with
    | false => exact ⟨l, rfl, .refl _ _ h, by rw [hnone]; rfl⟩
    | true =>
      refine ⟨added s l ++ l, ?_, step_add href h hnone, ?_⟩
      · have hsplice := @splice_masked [] l 0 0 [] (added s l) (under_added s l) rfl rfl
        rw [text_added] at hsplice
        rwa [qualifier, hname]
      · rw [added, cons_append, cons_append, pick_cons_of_ne (by simp [Piece.specifier]),
          pick_cons_of_eq (specifier_word href none)]
        rfl
  · obtain ⟨l₁, argument, l₂, rfl, h₁, h₂⟩ := exists_word href (h.once s) hnone
    have hpresent : (!(pick s (l₁ ++ .word s.keyword argument :: l₂)).isEmpty) := by simpa using hnone
    have hstarts := startsLine_split (specifier_word href argument) h₁ h₂ h
    rw [hpresent]
    cases wanted with
    | true => exact ⟨_, rfl, .refl _ _ h, hpresent⟩
    | false =>
      rw [qualifier, hname, Bool.false_or]
      by_cases hbreak : (text l₁).getLast? = some '\n'
      · rw [masked_masked, (finds_word href).search_afterBreak href rfl h h₁ h₂ hbreak]
        exact ⟨_, rfl, .refl _ _ h, by rw [hpresent, hstarts.mpr hbreak]⟩
      · obtain ⟨m, b, rfl, hb, hsearch⟩ := (finds_word href).search_blanks href rfl h h₁ h₂ hbreak
        obtain rfl : argument = none :=
          ((h.pieces (.word s.keyword argument) (by simp)).2.2.2.1 s (by simpa using hs) (prefix_refl _)).2
        have hsplice := @splice_masked m l₂ _ ((under (.full true) (m ++ b)).length + s.keyword.length)
          (b ++ [.word s.keyword none]) [] rfl rfl (by simp [Piece.under]; omega)
        have hstuck : startsLine false s false (m ++ b ++ .word s.keyword none :: l₂) = false := by
          rw [Bool.eq_false_iff]
          exact fun hstart => hbreak (hstarts.mp hstart)
        rw [masked_masked, hsearch, hstuck]
        rw [append_assoc] at h ⊢
        refine ⟨m ++ l₂, ?_, step_remove href hremoved h hb, ?_⟩
        · simpa [text] using hsplice
        · rw [pick_append] at h₁ ⊢
          rw [(append_eq_nil_iff.mp h₁).1, h₂]
          rfl

/-- Blanks and the marks of comments. -/
def isFiller (c : Char) : Bool := isBlank c || c == '/' || c == '*'

/-- Under its mask a piece is passed over whole, or not at all. -/
lemma filler_or_head (h : p.WellFormed) :
    (∀ c ∈ p.under (.full true), isFiller c) ∨
      ∃ c x, p.under (.full true) = c :: x ∧ isFiller c = false ∧
        (isWordChar c → ∃ w argument, p = .word w argument) := by
  have hfiller : (∀ c ∈ p.visible, c = '/' ∨ c = '*') → ∀ c ∈ p.under (.full true), isFiller c := by
    intro hvisible c hc
    rcases mem_piece_under h true hc with hblank | hmark
    · simp [isFiller, hblank]
    · rcases hvisible c hmark with rfl | rfl <;> decide
  cases p with
  | blank | lineComment | blockComment => exact .inl (hfiller (by simp [Piece.visible]))
  | bracketed w => exact .inr ⟨'[', _, rfl, by decide, fun hc => absurd hc (by decide)⟩
  | ref double => cases double <;> exact .inr ⟨'&', _, rfl, by decide, fun hc => absurd hc (by decide)⟩
  | word w argument =>
    obtain ⟨c, x, rfl⟩ := exists_cons_of_ne_nil h.1
    obtain ⟨hplain, hblank, hother⟩ := isOrdinary_iff.mp (h.2.1 c mem_cons_self)
    simp only [mem_cons, not_or] at hplain hother
    exact .inr ⟨c, _, rfl, by simp [isFiller, hblank, hplain.1, hother.2.2.2.1], fun _ => ⟨_, _, rfl⟩⟩

/-- A word at the start of a text stands in its first part, if no word goes on behind that part. -/
lemma prefix_of_prefix_append {k x y : Text} (hk : ∀ c ∈ k, isWordChar c) (hy : isWord y.head? = false)
    (h : k <+: x ++ y) : k <+: x := by
  rcases prefix_or_prefix_of_prefix h (prefix_append x y) with hx | ⟨z, rfl⟩
  · exact hx
  · rw [prefix_append_right_inj] at h
    cases z with
    | nil => rw [append_nil]
    | cons c z =>
      obtain ⟨z', rfl⟩ := h
      have hc := hk c (by simp)
      simp [isWord, hc] at hy

/-- A qualifier that stands behind blanks and comments is a piece. -/
lemma exists_qualifier {free : Bool} (hs : s = .const ∨ s = .volatile) (hpieces : ∀ p ∈ l, p.WellFormed)
    (hspaced : spacedFrom free l) (h : s.keyword <+: (under (.full true) l).dropWhile isFiller) :
    ∃ l₁ l₂, l = l₁ ++ .word s.keyword none :: l₂ ∧
      (under (.full true) l₁).length = ((under (.full true) l).takeWhile isFiller).length := by
  have href : s ≠ .ref := by
    rintro rfl
    simp at hs
  induction l generalizing free with
  | nil => exact absurd (prefix_nil.mp h) (keyword_ne_nil href)
  | cons p l ih =>
    obtain ⟨hp, htail⟩ := forall_mem_cons.mp hpieces
    have hrest := (Bool.and_eq_true_iff.mp hspaced).2
    rw [under_cons] at h ⊢
    rcases filler_or_head hp with hfiller | ⟨c, x, hx, hc, hword⟩
    · rw [dropWhile_append_of_pos hfiller] at h
      obtain ⟨l₁, l₂, rfl, hlength⟩ := ih htail hrest h
      refine ⟨p :: l₁, l₂, rfl, ?_⟩
      rw [under_cons, takeWhile_append_of_pos hfiller, length_append, length_append, hlength]
    · rw [hx, cons_append, dropWhile_cons_of_neg (by simp [hc]), ← cons_append, ← hx] at h
      obtain ⟨w, argument, rfl⟩ : ∃ w argument, p = .word w argument := by
        obtain ⟨d, k, hd⟩ := exists_cons_of_ne_nil (keyword_ne_nil href)
        rw [hx, hd] at h
        obtain rfl : d = c := (cons_prefix_cons.mp h).1
        exact hword (isWordChar_keyword s d (hd ▸ mem_cons_self))
      have hnext : isWord (argument.elim [] (Argument.under (.full true)) ++ under (.full true) l).head? = false :=
        isWord_head?_argument hp.2.2.2.2 (isWord_head?_under htail hrest)
      rw [Piece.under, append_assoc] at h
      obtain ⟨rfl, rfl⟩ := hp.2.2.2.1 s (by simpa using hs) (prefix_of_prefix_append (isWordChar_keyword s) hnext h)
      refine ⟨[], l, rfl, ?_⟩
      rw [hx, cons_append, takeWhile_cons_of_neg (by simp [hc])]
      rfl

lemma one_eq_some {free : Bool} {prev : Option Char} {n : Nat} (hpieces : ∀ p ∈ l, p.WellFormed)
    (hspaced : spacedFrom free l)
    (h : andThen (many isFiller) (firstOf [exactly "const", exactly "volatile"]) prev (under (.full true) l) = some n) :
    ∃ l₁ w l₂, l = l₁ ++ .word w none :: l₂ ∧ n = (under (.full true) (l₁ ++ [.word w none])).length := by
  obtain ⟨_, k, hmany, hfirst, rfl⟩ := andThen_eq_some_iff.mp h
  obtain rfl := many_eq_some_iff.mp hmany
  rw [drop_length_takeWhile] at hfirst
  have hqualifier : ∃ s, (s = Specifier.const ∨ s = .volatile) ∧ s.keyword <+: (under (.full true) l).dropWhile isFiller ∧
      k = s.keyword.length := by
    rcases firstOf_cons_eq_some_iff.mp hfirst with hconst | ⟨_, hvolatile⟩
    · exact ⟨.const, .inl rfl, exactly_eq_some_iff.mp hconst⟩
    · rcases firstOf_cons_eq_some_iff.mp hvolatile with hvolatile | ⟨_, hnone⟩
      · exact ⟨.volatile, .inr rfl, exactly_eq_some_iff.mp hvolatile⟩
      · cases hnone
  obtain ⟨s, hs, hword, rfl⟩ := hqualifier
  obtain ⟨l₁, l₂, rfl, hlength⟩ := exists_qualifier hs hpieces hspaced hword
  exact ⟨l₁, s.keyword, l₂, rfl, by rw [← hlength]; simp [Piece.under]⟩

/-- Ampersands are put in behind a word, or before everything else. -/
lemma insertion_place (h : WellFormed l) :
    ∃ l₁ l₂, l = l₁ ++ l₂ ∧ feedsAfter false false l₁ = false ∧
      (matchStart? constAndVolatile (under (.full true) l)).getD 0 = (under (.full true) l₁).length := by
  cases hmatch : matchStart? constAndVolatile (under (.full true) l) with
  | none => exact ⟨[], l, rfl, rfl, rfl⟩
  | some n =>
    have hfeeds : ∀ l w, feedsAfter false false (l ++ [.word w none]) = false := fun l w => by
      rw [feedsAfter, foldl_concat]
      rfl
    obtain ⟨_, k, hone, hoptional, rfl⟩ := andThen_eq_some_iff.mp hmatch
    obtain ⟨l₁, w, l₂, rfl, rfl⟩ := one_eq_some h.pieces h.spacedFrom hone
    have hspaced : spacedFrom false l₂ := spacedFrom_of_word h.spacedFrom
    have hrest : under (.full true) (l₁ ++ .word w none :: l₂) =
        under (.full true) (l₁ ++ [.word w none]) ++ under (.full true) l₂ := by
      rw [← under_append, append_assoc]
      rfl
    rw [hrest, drop_left, Recognizer.optional, Option.some.injEq] at hoptional
    subst hoptional
    cases hsecond : andThen (many fun c => isBlank c || c == '/' || c == '*')
        (firstOf [exactly "const", exactly "volatile"])
        (before none (under (.full true) (l₁ ++ [.word w none]) ++ under (.full true) l₂)
          (under (.full true) (l₁ ++ [.word w none])).length) (under (.full true) l₂) with
    | none => exact ⟨l₁ ++ [.word w none], l₂, by simp, hfeeds l₁ w, rfl⟩
    | some k =>
      obtain ⟨m₁, v, m₂, rfl, rfl⟩ := one_eq_some (fun p hp => h.pieces p (by simp [hp])) hspaced hsecond
      refine ⟨l₁ ++ .word w none :: (m₁ ++ [.word v none]), m₂, by simp, ?_, ?_⟩
      · rw [← cons_append, ← append_assoc]
        exact hfeeds _ v
      · simp [Nat.add_assoc]

lemma step_insertRef (hremoved : removed .ref = false) (h : WellFormed (l₁ ++ l₂)) (hnone : pick .ref (l₁ ++ l₂) = [])
    (hfeeds : feedsAfter false false l₁ = false) (double : Bool) :
    Step removed .ref (l₁ ++ l₂) (l₁ ++ .blank ' ' :: .ref double :: l₂) := by
  have hspaced : spacedFrom true l₂ := by
    have hspaced := h.spacedFrom
    rw [spacedFrom_append] at hspaced
    have hrest := (Bool.and_eq_true_iff.mp hspaced).2
    cases hfree : freeAfter true l₁ with
    | true => rwa [hfree] at hrest
    | false => exact spacedFrom_mono (by rwa [hfree] at hrest)
  refine .insert (b := []) rfl trivial (by simp [Spaces]) h hnone hspaced fun through t _ hthrough => ?_
  rw [hthrough rfl, hremoved, hfeeds]
  rfl

lemma step_removeRef (hremoved : removed .ref) {double : Bool} (h : WellFormed (l₁ ++ .ref double :: l₂)) :
    Step removed .ref (l₁ ++ .ref double :: l₂) (l₁ ++ l₂) := by
  refine .remove (b := []) rfl hremoved (by simp [Spaces]) h (fun hspaced => spaced_of_spacedFrom hspaced)
    (fun _ hspaced => hspaced) fun through fresh t _ hthrough => ?_
  rw [hthrough rfl]
  rfl

lemma refQualifier_step {wanted : Text} (hwanted : wanted = [] ∨ ∃ double, wanted = text [.ref double])
    (hremoved : removed .ref = wanted.isEmpty) (h : WellFormed l) :
    ∃ l', refQualifier wanted (text (pick .ref l)) (masked l) = masked l' ∧ Step removed .ref l l' ∧
      text (pick .ref l') = wanted := by
  have hne : ∀ d, text [.ref d] ≠ [] := by decide
  rw [refQualifier]
  by_cases hequal : wanted = text (pick .ref l)
  · rw [if_pos (by simpa using hequal)]
    exact ⟨l, rfl, .refl _ _ h, hequal.symm⟩
  rw [if_neg (by simpa using hequal)]
  by_cases hnone : pick .ref l = []
  · rw [hnone] at hequal ⊢
    obtain ⟨double, rfl⟩ := hwanted.resolve_left hequal
    obtain ⟨l₁, l₂, rfl, hfeeds, hplace⟩ := insertion_place h
    refine ⟨l₁ ++ .blank ' ' :: .ref double :: l₂, ?_, step_insertRef ?_ h hnone hfeeds double, ?_⟩
    · have hsplice := @splice_masked l₁ l₂ _ (under (.full true) l₁).length [] [.blank ' ', .ref double]
        (by cases double <;> rfl) rfl (by rw [append_nil])
      rwa [masked_masked, hplace]
    · rw [hremoved]
      cases double <;> rfl
    · rw [pick_insert rfl hnone]
  · obtain ⟨l₁, double, l₂, rfl, h₁, h₂⟩ := exists_ref (h.once .ref) hnone
    have hpick : ∀ d, pick .ref (l₁ ++ .ref d :: l₂) = [.ref d] := fun d => pick_split rfl h₁ h₂
    -- the first ampersand belongs to the piece
    have hfound : find? (text [.ref double]) (under (.full true) (l₁ ++ .ref double :: l₂)) =
        some (under (.full true) l₁).length := by
      have hnot := ampersand_notMem (forall_mem_append.mp h.pieces).1 h₁ true
      rw [under_append]
      cases double <;> exact find?_of_notMem hnot _
    have hsplice : ∀ new, under (.full true) new = text new →
        (masked (l₁ ++ .ref double :: l₂)).splice (under (.full true) l₁).length
          ((under (.full true) l₁).length + (text [.ref double]).length) (text new) = masked (l₁ ++ (new ++ l₂)) := by
      intro new hnew
      refine @splice_masked l₁ l₂ _ _ [.ref double] new hnew rfl ?_
      rw [under_append, length_append]
      cases double <;> rfl
    rw [hpick, if_neg (by simpa using hne double), masked_masked, hfound]
    rcases hwanted with rfl | ⟨d, rfl⟩
    · refine ⟨l₁ ++ l₂, hsplice [] rfl, step_removeRef hremoved h, ?_⟩
      rw [pick_append, h₁, h₂]
      rfl
    · exact ⟨l₁ ++ .ref d :: l₂, hsplice [.ref d] (by cases d <;> rfl),
        .exchange rfl rfl trivial h (fun _ => rfl) (fun _ => rfl) fun _ _ => rfl, by rw [hpick]⟩

/-! ## Exception specifications -/

/-- What begins with a letter that begins no literal has a normal form that is not empty. -/
lemma normalizeSource_ne_nil (x : Text) : normalizeSource ('n' :: x) ≠ [] := by
  have htoken : Lexeme.tokenAt 'n' x = none :=
    Lexeme.tokenAt_eq_none (by decide) (by decide) (by decide) fun h => absurd h (by decide)
  have hcomments : Mask.removeComments ('n' :: x) = 'n' :: Mask.removeComments x := rfl
  rw [normalizeSource, hcomments, Mask.removeAttributes_cons (by decide), Spacing.normalize, normalizeFrom,
    if_neg (by decide), if_neg (by simp), trim, trimStart, dropWhile_cons_of_neg (by decide)]
  intro hnil
  obtain ⟨y, heq, hblank⟩ := exists_eq_dropEndWhile_append isBlank
    ('n' :: normalizeFrom (some 'n') false (Mask.removeAttributes (Mask.removeComments x)))
  rw [trimEnd] at hnil
  rw [hnil, nil_append] at heq
  cases hblank 'n' (heq ▸ mem_cons_self)

lemma exists_trimmed (hpieces : ∀ p ∈ l, p.WellFormed) (hcomment : endsInComment removed false l = false) :
    ∃ m b, l = m ++ b ∧ Blanks b ∧ trimEnd (text l) = text m := by
  induction l using reverseRecOn with
  | nil => exact ⟨[], [], rfl, forall_mem_nil _, rfl⟩
  | append_singleton l p ih =>
    obtain ⟨hinner, hp⟩ := forall_mem_append.mp hpieces
    have hp := forall_mem_singleton.mp hp
    obtain ⟨c, hlast, _, hc⟩ := getLast?_piece hp
    have htext : text (l ++ [p]) = text l ++ p.under {} := by simp [text]
    rcases hc with rfl | ⟨w, rfl⟩ | hc
    · rw [endsInComment_append] at hcomment
      obtain ⟨m, b, rfl, hb, htrim⟩ := ih hinner hcomment
      refine ⟨m, b ++ [.blank c], by simp, forall_mem_append.mpr ⟨hb, forall_mem_singleton.mpr ⟨c, rfl⟩⟩, ?_⟩
      rw [htext]
      exact (dropEndWhile_append (forall_mem_singleton.mpr hp)).trans htrim
    · rw [endsInComment_append] at hcomment
      cases hcomment
    · refine ⟨l ++ [p], [], by simp, by simp [Blanks], dropEndWhile_eq_self fun d hd => ?_⟩
      rw [htext, getLast?_append_of_ne_nil _ (piece_under_ne_nil hp _), hlast] at hd
      rwa [← Option.some.inj hd]

lemma spacedFrom_blanks {free : Bool} (h : Blanks l) : spacedFrom free l := by
  induction l generalizing free with
  | nil => rfl
  | cons p l ih =>
    obtain ⟨⟨c, rfl⟩, hl⟩ := forall_mem_cons.mp h
    exact ih hl

lemma step_append {argument : Option Argument} (hs : s ≠ .ref) (hword : (Piece.word s.keyword argument).WellFormed)
    (h : WellFormed (l ++ l₁)) (hblanks : Blanks l₁) (hnone : pick s (l ++ l₁) = []) :
    Step removed s (l ++ l₁) (l ++ .blank ' ' :: .word s.keyword argument :: l₁) := by
  refine .insert (b := []) (specifier_word hs argument) hword (by simp [Spaces]) h hnone
    (Bool.and_eq_true_iff.mpr ⟨rfl, spacedFrom_blanks hblanks⟩) fun through t _ _ => ?_
  rw [startsLine_of_pick (pick_blanks hblanks t), startsLine_of_pick (pick_blanks hblanks t)]

/-- The blanks with which a match begins are those that it was found with. -/
lemma takeWhile_extract (hs : s ≠ .ref) {b : List Piece} (hb : Spaces b) (argument : Option Argument) {n : Nat}
    (hn : (under (.full true) (m ++ b)).length + s.keyword.length ≤ n) :
    ((extract (under (.full true) (m ++ b ++ .word s.keyword argument :: l₂))
      ⟨(under (.full true) m).length, n⟩).takeWhile isSpaceOrTab).length = (under (.full true) b).length := by
  have hblanks : ∀ c ∈ under (.full true) b, isSpaceOrTab c := by
    intro c hc
    obtain ⟨q, hq, hc⟩ := mem_flatMap.mp hc
    obtain ⟨d, rfl, hd⟩ := hb q hq
    rwa [mem_singleton.mp hc]
  rw [under_append, length_append] at hn
  obtain ⟨x, hmatch⟩ : ∃ x, extract (under (.full true) (m ++ b ++ .word s.keyword argument :: l₂))
      ⟨(under (.full true) m).length, n⟩ = under (.full true) b ++ (s.keyword ++ x) := by
    rw [Text.extract, between]
    dsimp only
    rw [under_append, under_append, append_assoc, drop_left, under_cons, Piece.under, append_assoc,
      take_append, take_of_length_le (by omega), take_append, take_of_length_le (l := s.keyword) (by omega)]
    exact ⟨_, rfl⟩
  rw [hmatch, takeWhile_append_of_pos hblanks, not_isSpaceOrTab_keyword hs, append_nil]

/-- The piece of an exception specification. -/
abbrev Piece.noexcept (argument : Option Argument) : Piece := .word Specifier.noexcept.keyword argument

/-- The exception specification becomes the wanted one, unless another one stands at the start of a line. -/
lemma exceptionSpecifier_step {current linked : Signature}
    (hcurrent : current.noexceptText = [] ∨ ∃ argument, (Piece.noexcept argument).WellFormed ∧
      current.noexceptText = text [.noexcept argument])
    (hremoved : removed .noexcept = current.noexceptText.isEmpty)
    (hlinked : linked.noexceptText = text (pick .noexcept l)) (h : WellFormed l)
    (hcomment : pick .noexcept l = [] → current.noexceptText ≠ [] → endsInComment removed false l = false) :
    ∃ l', exceptionSpecifier current linked (masked l) = text l' ∧ Step removed .noexcept l l' ∧
      (normalizeSource (text (pick .noexcept l')) = current.normalizedNoexcept ↔
        (startsLine false .noexcept false l → current.normalizedNoexcept = linked.normalizedNoexcept)) := by
  have hnormal : linked.normalizedNoexcept = normalizeSource (text (pick .noexcept l)) := by
    rw [Signature.normalizedNoexcept, hlinked]
  rw [exceptionSpecifier]
  by_cases hequal : current.normalizedNoexcept = linked.normalizedNoexcept
  · rw [if_pos (by simpa using hequal)]
    exact ⟨l, rfl, .refl _ _ h, iff_of_true (by rw [hequal, hnormal]) fun _ => hequal⟩
  rw [if_neg (by simpa using hequal)]
  by_cases hnone : pick .noexcept l = []
  · have hempty : linked.normalizedNoexcept = [] := by
      rw [hnormal, hnone]
      rfl
    have hne : current.noexceptText ≠ [] := by
      intro hnil
      rw [hempty, Signature.normalizedNoexcept, hnil] at hequal
      exact hequal rfl
    obtain ⟨argument, hwellFormed, htext⟩ := hcurrent.resolve_left hne
    obtain ⟨m, b, rfl, hb, htrim⟩ := exists_trimmed h.pieces (hcomment hnone hne)
    refine ⟨m ++ .blank ' ' :: .noexcept argument :: b, ?_,
      step_append (by decide) hwellFormed h hb hnone, iff_of_true ?_ fun hstarts => ?_⟩
    · rw [hempty]
      change trimEnd (text (m ++ b)) ++ ' ' :: current.noexceptText ++
        (text (m ++ b)).drop (trimEnd (text (m ++ b))).length = _
      rw [htrim, htext]
      simp [text, Piece.under]
    · rw [pick_insert rfl hnone, Signature.normalizedNoexcept, htext]
    · rw [startsLine_of_pick hnone] at hstarts
      cases hstarts
  · obtain ⟨l₁, argument, l₂, rfl, h₁, h₂⟩ := exists_word (by decide) (h.once .noexcept) hnone
    have hpick : ∀ a, pick .noexcept (l₁ ++ .noexcept a :: l₂) =
        [.noexcept a] := fun a => pick_split rfl h₁ h₂
    have hstarts := startsLine_split (specifier_word (by decide) argument) h₁ h₂ h
    have hfull : linked.normalizedNoexcept.isEmpty = false := by
      rw [hnormal, hpick, isEmpty_eq_false_iff]
      exact normalizeSource_ne_nil _
    rw [hfull, if_neg (by simp)]
    by_cases hbreak : (text l₁).getLast? = some '\n'
    · rw [masked_masked, finds_noexcept.search_afterBreak (by decide) rfl h h₁ h₂ hbreak]
      refine ⟨_, rfl, .refl _ _ h, iff_of_false (fun heq => hequal ?_) fun heq => hequal (heq (hstarts.mpr hbreak))⟩
      rw [← heq, hnormal]
    · obtain ⟨m, b, rfl, hb, hsearch⟩ := finds_noexcept.search_blanks (by decide) rfl h h₁ h₂ hbreak
      rw [masked_masked, hsearch]
      have hstuck : ¬ startsLine false .noexcept false (m ++ b ++ .noexcept argument :: l₂) :=
        fun hstart => hbreak (hstarts.mp hstart)
      have hstop : (under (.full true) (m ++ b)).length + (Specifier.noexcept.keyword.length +
          (argument.elim [] (Argument.under {})).length) =
          (under (.full true) (m ++ b ++ [.noexcept argument])).length := by
        rw [under_append _ (m ++ b), length_append, length_under (.full true) {} [_]]
        simp [Piece.under]
      rcases hcurrent with hnil | ⟨argument', hwellFormed, htext⟩
      · have hsplice := @text_splice m l₂ _ _ (b ++ [.noexcept argument]) [] rfl
          (hstop.trans (by rw [append_assoc]))
        rw [append_assoc] at h hstuck ⊢
        refine ⟨m ++ l₂, ?_, step_remove (by decide) (by rw [hremoved, hnil]; rfl) h hb,
          iff_of_true ?_ fun hstart => absurd hstart hstuck⟩
        · simpa [hnil, text, masked] using hsplice
        · rw [pick_append] at h₁
          rw [pick_append, (append_eq_nil_iff.mp h₁).1, h₂, Signature.normalizedNoexcept, hnil]
          rfl
      · have hsplice := @text_splice (m ++ b) l₂ _ _ [.noexcept argument]
          [.noexcept argument'] rfl hstop
        have hempty : current.noexceptText.isEmpty = false := by
          rw [htext]
          rfl
        refine ⟨m ++ b ++ .noexcept argument' :: l₂, ?_, .exchange rfl rfl hwellFormed h
          (fun _ => rfl) (fun _ => rfl) fun _ _ => rfl,
          iff_of_true (by rw [hpick, Signature.normalizedNoexcept, htext]) fun hstart => absurd hstart hstuck⟩
        dsimp only
        rw [hempty, if_neg (by simp), takeWhile_extract (by decide) hb argument (by omega), htext,
          ← length_append, ← under_append]
        exact hsplice

/-! ## The whole update -/

/-- The specifiers that a signature is to be without. -/
def unwanted (v : Specifiers) : Specifier → Bool
  | .const => !v.isConst
  | .volatile => !v.isVolatile
  | .ref => v.refQualifier.isEmpty
  | .noexcept => v.noexceptText.isEmpty

lemma refQualifier_cases (h : WellFormed l) :
    text (pick .ref l) = [] ∨ ∃ double, text (pick .ref l) = text [.ref double] := by
  by_cases hnone : pick .ref l = []
  · exact .inl (by rw [hnone]; rfl)
  · obtain ⟨l₁, double, l₂, rfl, h₁, h₂⟩ := exists_ref (h.once .ref) hnone
    exact .inr ⟨double, by rw [pick_split rfl h₁ h₂]⟩

lemma noexceptText_cases (h : WellFormed l) :
    text (pick .noexcept l) = [] ∨
      ∃ argument, (Piece.noexcept argument).WellFormed ∧ text (pick .noexcept l) = text [.noexcept argument] := by
  by_cases hnone : pick .noexcept l = []
  · exact .inl (by rw [hnone]; rfl)
  · obtain ⟨l₁, argument, l₂, rfl, h₁, h₂⟩ := exists_word (by decide) (h.once .noexcept) hnone
    exact .inr ⟨argument, h.pieces _ (by simp), by rw [pick_split rfl h₁ h₂]⟩

/-- An update makes every specifier the wanted one, except for those at the start of a line that are to go. -/
lemma exists_updated {current linked : Signature} {k : List Piece} (h : WellFormed l) (hk : WellFormed k)
    (hlinked : specifiersOf linked = specifiersIn l) (hcurrent : specifiersOf current = specifiersIn k)
    (hcomment : pick .noexcept l = [] → current.noexceptText ≠ [] →
      endsInComment (unwanted (specifiersOf current)) false l = false) :
    ∃ l', trailingText current linked (text l) = text l' ∧ WellFormed l' ∧
      (!(pick .const l').isEmpty) = (current.isConst || startsLine false .const false l) ∧
      (!(pick .volatile l').isEmpty) = (current.isVolatile || startsLine false .volatile false l) ∧
      text (pick .ref l') = current.refQualifier ∧
      (normalizeSource (text (pick .noexcept l')) = current.normalizedNoexcept ↔
        (startsLine current.refQualifier.isEmpty .noexcept false l →
          current.normalizedNoexcept = linked.normalizedNoexcept)) := by
  have hconst : linked.isConst = !(pick .const l).isEmpty := congrArg (·.isConst) hlinked
  have hvolatile : linked.isVolatile = !(pick .volatile l).isEmpty := congrArg (·.isVolatile) hlinked
  have href : linked.refQualifier = text (pick .ref l) := congrArg (·.refQualifier) hlinked
  have hnoexcept : linked.noexceptText = text (pick .noexcept l) := congrArg (·.noexceptText) hlinked
  have hwantedRef : current.refQualifier = text (pick .ref k) := congrArg (·.refQualifier) hcurrent
  have hwantedNoexcept : current.noexceptText = text (pick .noexcept k) := congrArg (·.noexceptText) hcurrent
  let gone := unwanted (specifiersOf current)
  obtain ⟨l₁, heq₁, hstep₁, hconst₁⟩ := @qualifier_step .const l gone (.inl rfl) "const" rfl current.isConst rfl h
  obtain ⟨l₂, heq₂, hstep₂, hvolatile₂⟩ :=
    @qualifier_step .volatile l₁ gone (.inr rfl) "volatile" rfl current.isVolatile rfl hstep₁.wellFormed
  obtain ⟨l₃, heq₃, hstep₃, href₃⟩ := @refQualifier_step l₂ gone current.refQualifier
    (by rw [hwantedRef]; exact refQualifier_cases hk) rfl hstep₂.wellFormed
  have hpick₃ : pick .noexcept l₃ = pick .noexcept l := by
    rw [hstep₃.others _ (by decide), hstep₂.others _ (by decide), hstep₁.others _ (by decide)]
  have hcomment₃ : pick .noexcept l₃ = [] → current.noexceptText ≠ [] → endsInComment gone false l₃ = false := by
    intro hnone hne
    rw [Bool.eq_false_iff]
    intro hends
    have hends := hstep₁.comment (hstep₂.comment (hstep₃.comment hends))
    rw [hcomment (by rw [← hpick₃, hnone]) hne] at hends
    cases hends
  obtain ⟨l₄, heq₄, hstep₄, hnoexcept₄⟩ := exceptionSpecifier_step
    (by rw [hwantedNoexcept]; exact noexceptText_cases hk) rfl (by rw [hnoexcept, hpick₃]) hstep₃.wellFormed hcomment₃
  -- the exception specification stands at the start of a line now if it did so but for ampersands that are gone
  have hlines : startsLine false .noexcept false l₃ = startsLine current.refQualifier.isEmpty .noexcept false l := by
    have hgone : startsLine false .noexcept false l₃ = startsLine current.refQualifier.isEmpty .noexcept false l₃ := by
      by_cases hempty : current.refQualifier = []
      · refine (startsLine_through (not_not.mp fun hne => ?_)).symm
        obtain ⟨m, double, m', rfl, h₁, h₂⟩ := exists_ref (hstep₃.wellFormed.once .ref) hne
        rw [pick_split rfl h₁ h₂, hempty] at href₃
        cases double <;> cases href₃
      · rw [isEmpty_eq_false_iff.mpr hempty]
    have hlines₃ := hstep₃.lines current.refQualifier.isEmpty .noexcept (by decide) (by decide) fun _ => rfl
    rw [hgone, hlines₃, hstep₂.lines _ _ (by decide) (by decide) (by simp),
      hstep₁.lines _ _ (by decide) (by decide) (by simp)]
  have htext : trailingText current linked (text l) = text l₄ := by
    rw [trailingText, updatingMask_text h.pieces, hconst, hvolatile, href]
    change exceptionSpecifier current linked (refQualifier current.refQualifier _
      (qualifier "volatile" current.isVolatile _
        (qualifier "const" current.isConst _ (masked l)))) = _
    rw [heq₁, ← hstep₁.others .volatile (by decide), heq₂, ← hstep₁.others .ref (by decide),
      ← hstep₂.others .ref (by decide), heq₃, heq₄]
  refine ⟨l₄, htext, hstep₄.wellFormed, ?_, ?_, ?_, by rw [hnoexcept₄, hlines]⟩
  · rw [hstep₄.others _ (by decide), hstep₃.others _ (by decide), hstep₂.others _ (by decide), hconst₁]
  · rw [hstep₄.others _ (by decide), hstep₃.others _ (by decide), hvolatile₂,
      hstep₁.lines _ _ (by decide) (by decide) (by simp)]
  · rw [hstep₄.others _ (by decide), href₃]

/-- **When an update brings the specifiers in line.** What it writes is read as the current specifiers if and only if
none that is to go stands directly after a line feed: `const` and `volatile` in the old text, the exception
specification also behind removed ampersands. None may be put in behind a line comment. -/
theorem trailingText_in_line_iff {current linked : Signature} {l k : List Piece} (h : WellFormed l) (hk : WellFormed k)
    (hlinked : specifiersOf linked = read (text l)) (hcurrent : specifiersOf current = read (text k))
    (hcomment : linked.noexceptText = [] → current.noexceptText ≠ [] →
      endsInComment (unwanted (specifiersOf current)) false l = false) :
    (read (SignatureUpdate.trailingText current linked (text l))).normalized = (specifiersOf current).normalized ↔
      (startsLine false .const false l = true → current.isConst = true) ∧
      (startsLine false .volatile false l = true → current.isVolatile = true) ∧
      (startsLine current.refQualifier.isEmpty .noexcept false l = true →
        current.normalizedNoexcept = linked.normalizedNoexcept) := by
  rw [read_text h] at hlinked
  rw [read_text hk] at hcurrent
  have hnone : pick .noexcept l = [] → linked.noexceptText = [] := fun hnone => by
    have hnoexcept : linked.noexceptText = text (pick .noexcept l) := congrArg (·.noexceptText) hlinked
    rw [hnoexcept, hnone]
    rfl
  obtain ⟨l', heq, hwellFormed, hconst, hvolatile, href, hnoexcept⟩ := exists_updated h hk hlinked hcurrent
    fun hmissing => hcomment (hnone hmissing)
  have hflag : ∀ wanted starts : Bool, (wanted || starts) = wanted ↔ (starts = true → wanted = true) := by decide
  rw [heq, read_text hwellFormed, ← hnoexcept, ← hflag, ← hflag, ← hconst, ← hvolatile]
  simp only [Specifiers.normalized, specifiersIn, specifiersOf, Specifiers.mk.injEq, Signature.Qualifiers.mk.injEq,
    href, and_true, and_assoc, Signature.normalizedNoexcept]

/-! ### A qualifier on a line of its own -/

/-- The declaration of a method without qualifiers. -/
def plainMethod : Entity where
  document := { uri := "file:///p/a.h", text := "struct S \x7b\n    int f();\n\x7d;\n", opening := 0 }
  node := ⟨⟨"f", "f", [], .method, ⟨⟨1, 4⟩, ⟨1, 11⟩⟩, ⟨⟨1, 8⟩, ⟨1, 9⟩⟩, []⟩, []⟩

/-- The definition of the method, with a qualifier at the start of a line. -/
def wrappedMethod : Entity where
  document := { uri := "file:///p/a.cpp", text := "int S::f()\nconst\n\x7b\n    return 0;\n\x7d\n", opening := 1 }
  node := ⟨⟨"f", "f", [], .method, ⟨⟨0, 0⟩, ⟨4, 1⟩⟩, ⟨⟨0, 7⟩, ⟨0, 8⟩⟩, []⟩, []⟩

/-- The pieces behind the parameters of the definition. -/
def wrappedPieces : List Piece := [.blank '\n', .word Specifier.const.keyword none]

lemma wrappedPieces_wellFormed : WellFormed wrappedPieces := by
  refine ⟨forall_mem_cons.mpr ⟨rfl, forall_mem_singleton.mpr (word_wellFormed (by decide))⟩, rfl, fun s => ?_⟩
  cases s <;> decide +kernel

lemma wrapped_signatures : ∃ current linked, Signature.ofEntity plainMethod = .ok current ∧
    Signature.ofEntity wrappedMethod = .ok linked ∧
    wrappedMethod.document.getText linked.trailingRange = text wrappedPieces ∧
    specifiersOf current = ⟨⟨false, false, []⟩, []⟩ ∧ specifiersOf linked = ⟨⟨true, false, []⟩, []⟩ := by
  obtain ⟨current, hcurrent, hread⟩ := @exists_ok_of_any _ (Signature.ofEntity plainMethod) (fun current =>
    (Signature.ofEntity wrappedMethod).toOption.any fun (linked : Signature) => decide (
      wrappedMethod.document.getText linked.trailingRange = text wrappedPieces ∧
      (current.isConst = false ∧ current.isVolatile = false ∧ current.refQualifier = [] ∧ current.noexceptText = []) ∧
      linked.isConst ∧ linked.isVolatile = false ∧ linked.refQualifier = [] ∧ linked.noexceptText = [])) (by decide +kernel)
  obtain ⟨linked, hlinked, hsignatures⟩ := exists_ok_of_any hread
  obtain ⟨htext, ⟨hc, hv, hr, hn⟩, hc', hv', hr', hn'⟩ := of_decide_eq_true hsignatures
  refine ⟨current, linked, hcurrent, hlinked, htext, ?_, ?_⟩
  · rw [specifiersOf, hc, hv, hr, hn]
  · rw [specifiersOf, hc', hv', hr', hn']

/-- A qualifier at the start of a line is not brought in line. -/
theorem wrapped_not_in_line : ∃ current linked, Signature.ofEntity plainMethod = .ok current ∧
    Signature.ofEntity wrappedMethod = .ok linked ∧
    wrappedMethod.document.getText linked.trailingRange = text wrappedPieces ∧ WellFormed wrappedPieces ∧
    specifiersOf linked = read (text wrappedPieces) ∧ specifiersOf current = read (text []) ∧
    (read (SignatureUpdate.trailingText current linked (text wrappedPieces))).normalized ≠
      (specifiersOf current).normalized := by
  obtain ⟨current, linked, hcurrent, hlinked, htext, hspecifiers, hspecifiers'⟩ := wrapped_signatures
  have hempty : WellFormed [] := ⟨by simp, rfl, fun _ => Nat.zero_le 1⟩
  have hread : specifiersOf linked = read (text wrappedPieces) := by
    rw [hspecifiers']
    rfl
  have hread' : specifiersOf current = read (text []) := by
    rw [hspecifiers]
    rfl
  have hnone : current.noexceptText = [] := congrArg (·.noexceptText) hspecifiers
  have hconst : current.isConst = false := congrArg (·.isConst) hspecifiers
  refine ⟨current, linked, hcurrent, hlinked, htext, wrappedPieces_wellFormed, hread, hread', fun heq => ?_⟩
  have hline := ((trailingText_in_line_iff wrappedPieces_wellFormed hempty hread hread'
    fun _ hne => absurd hnone hne).mp heq).1
  rw [hconst] at hline
  cases hline rfl

/-- The update leaves the qualifier in the text, and it is read again. -/
theorem update_leaves_wrapped_const : ∃ current linked, Signature.ofEntity plainMethod = .ok current ∧
    Signature.ofEntity wrappedMethod = .ok linked ∧ current.isConst = false ∧
    (read (SignatureUpdate.trailingText current linked
      (wrappedMethod.document.getText linked.trailingRange))).isConst = true := by
  obtain ⟨current, linked, hcurrent, hlinked, htext, hspecifiers, hspecifiers'⟩ := wrapped_signatures
  have hconst : current.isConst = false := congrArg (·.isConst) hspecifiers
  obtain ⟨l', heq, hwellFormed, hconst', _⟩ := @exists_updated wrappedPieces current linked [] wrappedPieces_wellFormed
    ⟨by simp, rfl, fun _ => Nat.zero_le 1⟩ hspecifiers' hspecifiers
    fun _ hne => absurd (congrArg (·.noexceptText) hspecifiers) hne
  refine ⟨current, linked, hcurrent, hlinked, hconst, ?_⟩
  rw [htext, heq, read_text hwellFormed]
  exact hconst'.trans (by rw [hconst]; rfl)

end Trailing

end CppScaffold
