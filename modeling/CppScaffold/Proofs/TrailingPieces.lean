import CppScaffold.CodeAction.Signature
import CppScaffold.Proofs.Declarators
import CppScaffold.Proofs.Normalization

/-!
# The text behind the parameters

The text behind the parameters as a sequence of pieces. The masks under which it is searched hide the inside of single
pieces (`readingMask_text`, `updatingMask_text`).
-/

namespace CppScaffold

open Text Recognizer List Lexeme Mask

namespace Trailing

/-! ## Pieces -/

/-- What stands in parentheses behind a word. -/
structure Argument where
  gap : Text
  inner : Text
  deriving DecidableEq, Repr

/-- A piece of the text behind the parameters. -/
inductive Piece where
  | blank (c : Char)
  /-- A comment up to the end of the line, with the first character of the line break. -/
  | lineComment (w : Text) (lineBreak : Char)
  /-- A comment between a slash with a star and a star with a slash. -/
  | blockComment (w : Text)
  | bracketed (w : Text)
  /-- The ampersands of a value category. -/
  | ref (double : Bool)
  | word (w : Text) (argument : Option Argument)
  deriving DecidableEq, Repr

/-- What is hidden under a mask: nothing, the inside of an enclosed text, or all of it. -/
def enclosed (hide : Option Bool) (left inner right : Text) : Text :=
  match hide with
  | none => left ++ (inner ++ right)
  | some true => left ++ (Mask.all inner ++ right)
  | some false => Mask.all (left ++ (inner ++ right))

/-- How the kinds of enclosed text are hidden under a mask. -/
structure Cover where
  comments : Option Bool := none
  attributes : Option Bool := none
  arguments : Option Bool := none

/-- The mask that hides all enclosed text; `keep` says whether the marks of comments stay visible. -/
def Cover.full (keep : Bool) : Cover := ⟨some keep, some true, some true⟩

def Argument.under (c : Cover) (a : Argument) : Text := a.gap ++ enclosed c.arguments ['('] a.inner [')']

/-- A piece as it is seen under a mask. -/
def Piece.under (c : Cover) : Piece → Text
  | .blank b => [b]
  | .lineComment w b => enclosed c.comments ['/', '/'] w [] ++ [b]
  | .blockComment w => enclosed c.comments ['/', '*'] w ['*', '/']
  | .bracketed w => enclosed c.attributes ['[', '['] w [']', ']']
  | .ref double => if double then ['&', '&'] else ['&']
  | .word w argument => w ++ argument.elim [] (Argument.under c)

/-- Pieces as they are seen under a mask. -/
def under (c : Cover) (l : List Piece) : Text := l.flatMap (Piece.under c)

def text (l : List Piece) : Text := under {} l

/-- Characters that begin no comment, literal or attribute and take no other character along. -/
def isPlain (c : Char) : Bool := !(['/', '"', '\'', '[', ']', '\\'].contains c)

/-- Characters of which words are made, and of which the operators between them are. -/
def isOrdinary (c : Char) : Bool := isPlain c && !isBlank c && !(['(', ')', '&', '*', '-'].contains c)

/-- The specifiers that an update of a signature brings in line. -/
inductive Specifier where
  | const
  | volatile
  | ref
  | noexcept
  deriving DecidableEq, Repr

/-- The word that stands for a specifier; ampersands are no word. -/
def Specifier.keyword : Specifier → Text
  | .const => "const"
  | .volatile => "volatile"
  | .ref => []
  | .noexcept => "noexcept"

def Piece.specifier : Piece → Option Specifier
  | .ref _ => some .ref
  | .word w _ => [Specifier.const, .volatile, .noexcept].find? (·.keyword == w)
  | _ => none

def pick (s : Specifier) (l : List Piece) : List Piece := l.filter (·.specifier == some s)

/-- The argument is one balanced group. -/
def Argument.WellFormed (a : Argument) : Prop :=
  (∀ c ∈ a.gap, isBlank c) ∧ (∀ c ∈ a.inner, isPlain c) ∧
    level 0 (marks '(' ')' false a.inner) = some 0

/-- The piece is read as what it is: no specifier is part of a longer word, and a word that begins like a qualifier is
that qualifier. -/
def Piece.WellFormed : Piece → Prop
  | .blank c => isBlank c
  | .lineComment w b => (∀ c ∈ w, isBreak c = false) ∧ isBreak b
  | .blockComment w => find? ['*', '/'] (w ++ ['*', '/']) = some w.length
  | .bracketed w => ∀ c ∈ w, isPlain c ∧ isBreak c = false
  | .ref _ => True
  | .word w argument => w ≠ [] ∧ (∀ c ∈ w, isOrdinary c) ∧
    (∀ s ∈ [Specifier.const, .volatile, .noexcept], w = s.keyword ∨ hasMatch (Recognizer.word s.keyword) w = false) ∧
    (∀ s ∈ [Specifier.const, .volatile], s.keyword <+: w → w = s.keyword ∧ argument = none) ∧
    ∀ a ∈ argument, a.WellFormed

/-- Whether a word may begin behind a piece; `free` says whether one may begin before it. -/
def Piece.allows (free : Bool) : Piece → Bool
  | .ref _ => free
  | .word _ _ => false
  | _ => true

/-- Whether a piece may stand where words may begin or not. -/
def Piece.fits (free : Bool) : Piece → Bool
  | .word w _ => free || !isWord w.head?
  | _ => true

/-- Words are kept apart by blanks, comments or attributes, also where ampersands stand between them. -/
def spacedFrom (free : Bool) : List Piece → Bool
  | [] => true
  | p :: l => p.fits free && spacedFrom (p.allows free) l

/-- The first piece may be a word, but none stands directly behind ampersands with which the pieces begin. -/
def spaced : List Piece → Bool
  | [] => true
  | p :: l => spacedFrom (p.allows false) l

/-- The pieces make up a text from which they can be read again, and no specifier is repeated. -/
structure WellFormed (l : List Piece) : Prop where
  pieces : ∀ p ∈ l, p.WellFormed
  spaced : Trailing.spaced l
  once : ∀ s, (pick s l).length ≤ 1

/-! ## Pieces under masks -/

variable (c : Cover)

@[simp] lemma under_nil : under c [] = [] := rfl

@[simp] lemma under_cons (p : Piece) (l : List Piece) : under c (p :: l) = p.under c ++ under c l := rfl

@[simp] lemma under_append (l m : List Piece) : under c (l ++ m) = under c l ++ under c m :=
  flatMap_append

@[simp] lemma length_enclosed (hide : Option Bool) (left inner right : Text) :
    (enclosed hide left inner right).length = left.length + (inner.length + right.length) := by
  rcases hide with _ | _ | _ <;> simp [enclosed, Mask.all]

lemma length_piece_under (c' : Cover) (p : Piece) : (p.under c).length = (p.under c').length := by
  rcases p with _ | _ | _ | _ | _ | ⟨w, _ | a⟩ <;> simp [Piece.under, Argument.under]

lemma length_under (c' : Cover) (l : List Piece) : (under c l).length = (under c' l).length := by
  induction l with
  | nil => rfl
  | cons p l ih => rw [under_cons, under_cons, length_append, length_append, ih, length_piece_under c c']

variable {p : Piece} {c : Char} {l : List Piece}

lemma piece_under_ne_nil (h : p.WellFormed) (c : Cover) : p.under c ≠ [] := by
  refine ne_nil_of_length_pos ?_
  rcases p with _ | _ | _ | _ | double | ⟨w, argument⟩
  · simp [Piece.under]
  · simp [Piece.under]
  · rw [Piece.under, length_enclosed]
    exact Nat.add_pos_left Nat.two_pos _
  · rw [Piece.under, length_enclosed]
    exact Nat.add_pos_left Nat.two_pos _
  · cases double <;> simp [Piece.under]
  · have := length_pos_iff.mpr h.1
    rw [Piece.under, length_append]
    omega

lemma isPlain_iff : isPlain c ↔ c ∉ ['/', '"', '\'', '[', ']', '\\'] := by
  simp [isPlain]

lemma isOrdinary_iff : isOrdinary c ↔
    c ∉ ['/', '"', '\'', '[', ']', '\\'] ∧ isBlank c = false ∧ c ∉ ['(', ')', '&', '*', '-'] := by
  simp [isOrdinary, isPlain, and_assoc]

lemma isPlain_of_isBlank (h : isBlank c) : isPlain c := by
  rw [isPlain_iff]
  rintro hc
  simp only [mem_cons, not_mem_nil, or_false] at hc
  rcases hc with rfl | rfl | rfl | rfl | rfl | rfl <;> simp [isBlank] at h

lemma isPlain_of_isOrdinary (h : isOrdinary c) : isPlain c :=
  isPlain_iff.mpr (isOrdinary_iff.mp h).1

lemma isPlain_of_mem_word {w : Text} {argument : Option Argument} (h : (Piece.word w argument).WellFormed)
    (hc : c ∈ Piece.under {} (.word w argument)) : isPlain c := by
  obtain ⟨_, hw, _, _, hargument⟩ := h
  rcases mem_append.mp hc with hc | hc
  · exact isPlain_of_isOrdinary (hw c hc)
  · cases argument with
    | none => cases hc
    | some a =>
      obtain ⟨hgap, hinner, _⟩ := hargument a rfl
      simp only [Option.elim, Argument.under, enclosed, mem_append, mem_cons, not_mem_nil, or_false] at hc
      rcases hc with hc | rfl | hc | rfl
      · exact isPlain_of_isBlank (hgap c hc)
      · decide
      · exact hinner c hc
      · decide

/-! ## Reading the lexemes -/

def Piece.lexemes : Piece → List Lexeme
  | .lineComment w b => [.token .lineComment ('/' :: '/' :: w), .plain b]
  | .blockComment w => [.token .blockComment ('/' :: '*' :: (w ++ ['*', '/']))]
  | p => (p.under {}).map .plain

lemma lexemes_eq_map_or (h : p.WellFormed) :
    (p.lexemes = (p.under {}).map .plain ∧ Unmarked (p.under {})) ∨
      (∃ w b, p = .lineComment w b) ∨ ∃ w, p = .blockComment w := by
  have hplain : ∀ {c : Char}, isPlain c → c ≠ '/' ∧ c ≠ '"' ∧ c ≠ '\'' := by
    intro c hc
    have := isPlain_iff.mp hc
    simp only [mem_cons, not_or] at this
    exact ⟨this.1, this.2.1, this.2.2.1⟩
  cases p with
  | lineComment w b => exact .inr (.inl ⟨w, b, rfl⟩)
  | blockComment w => exact .inr (.inr ⟨w, rfl⟩)
  | blank b =>
    refine .inl ⟨rfl, fun c hc => hplain (isPlain_of_isBlank ?_)⟩
    rwa [mem_singleton.mp hc]
  | bracketed w =>
    refine .inl ⟨rfl, fun c hc => ?_⟩
    simp only [Piece.under, enclosed, mem_append, mem_cons, not_mem_nil, or_false] at hc
    rcases hc with (rfl | rfl) | hc | rfl | rfl
    · decide
    · decide
    · exact hplain (h c hc).1
    · decide
    · decide
  | ref double =>
    refine .inl ⟨rfl, fun c hc => ?_⟩
    obtain rfl : c = '&' := by
      cases double <;> simpa [Piece.under] using hc
    decide
  | word w argument => exact .inl ⟨rfl, fun c hc => hplain (isPlain_of_mem_word h hc)⟩

lemma scan_piece_append (h : p.WellFormed) {y : Text} (hy : y.head? ≠ some '"') :
    scan (p.under {} ++ y) = p.lexemes ++ scan y := by
  rcases lexemes_eq_map_or h with ⟨hlexemes, hplain⟩ | ⟨w, b, rfl⟩ | ⟨w, rfl⟩
  · rw [hlexemes, scan_plain_append hplain fun _ => hy]
  · obtain ⟨hw, hb⟩ := h
    have hbreak : scan (b :: y) = .plain b :: scan y :=
      scan_blank_append (x := [b]) (fun c hc => by rw [mem_singleton.mp hc]; exact isBlank_of_isBreak hb) y
    have htext : Piece.under {} (.lineComment w b) ++ y = '/' :: '/' :: (w ++ b :: y) := by
      simp [Piece.under, enclosed]
    rw [htext, scan_line_append (y := b :: y) hw (by rintro c ⟨⟩; exact hb), hbreak]
    rfl
  · have htext : Piece.under {} (.blockComment w) ++ y = '/' :: '*' :: (w ++ ['*', '/'] ++ y) := by
      simp [Piece.under, enclosed]
    rw [htext, scan_block_append h]
    rfl

lemma head?_text_ne (h : ∀ p ∈ l, p.WellFormed) : (text l).head? ≠ some '"' := by
  cases l with
  | nil => simp [text]
  | cons p l =>
    have hp := h p mem_cons_self
    obtain ⟨c, x, hx⟩ := exists_cons_of_ne_nil (piece_under_ne_nil hp {})
    rw [text, under_cons, hx, cons_append, head?_cons, Ne, Option.some.injEq]
    rintro rfl
    rcases lexemes_eq_map_or hp with ⟨_, hplain⟩ | ⟨w, b, rfl⟩ | ⟨w, rfl⟩
    · exact (hplain '"' (by simp [hx])).2.1 rfl
    · simp [Piece.under, enclosed] at hx
    · simp [Piece.under, enclosed] at hx

lemma scan_text (h : ∀ p ∈ l, p.WellFormed) : scan (text l) = l.flatMap Piece.lexemes := by
  induction l with
  | nil => rfl
  | cons p l ih =>
    have hl : ∀ q ∈ l, q.WellFormed := fun q hq => h q (mem_cons_of_mem p hq)
    rw [flatMap_cons, ← ih hl]
    exact scan_piece_append (h p mem_cons_self) (head?_text_ne hl)

/-! ## The masks -/

lemma replaceInside_eq_enclosed {kind : TokenKind} {left right : Text}
    (h : enclosing kind = (left.length, right.length)) (keep : Bool) (w : Text) :
    replaceInside kind keep all (left ++ (w ++ right)) = enclosed (some keep) left w right := by
  cases keep with
  | false =>
    simp only [replaceInside, Bool.false_eq_true, if_false, Nat.sub_zero, between, drop_zero, take_zero,
      take_length, drop_length, nil_append, append_nil, enclosed]
  | true =>
    have hstop : (left ++ (w ++ right)).length - right.length = left.length + w.length := by
      simp only [length_append]
      omega
    have hright : (left ++ (w ++ right)).drop (left.length + w.length) = right := by
      rw [← drop_drop, drop_left, drop_left]
    simp only [replaceInside, if_true, h, hstop, hright]
    rw [take_left, between, drop_left, Nat.add_sub_cancel_left, take_left, enclosed, append_assoc]

/-- Masking tokens hides comments, as there are no literals. -/
lemma replaceTokens_text (h : ∀ p ∈ l, p.WellFormed) {chosen : TokenKind → Option Bool}
    {hide : Option Bool} (hline : chosen .lineComment = hide) (hblock : chosen .blockComment = hide) :
    replaceTokens chosen all (text l) = under { comments := hide } l := by
  rw [replaceTokens, scan_text h, flatMap_assoc]
  refine flatMap_congr fun p hp => ?_
  rcases lexemes_eq_map_or (h p hp) with ⟨hlexemes, hplain⟩ | ⟨w, b, rfl⟩ | ⟨w, rfl⟩
  · have hunder : p.under { comments := hide } = p.under {} := by
      cases p with
      | lineComment w b => cases hlexemes
      | blockComment w => cases hlexemes
      | blank | bracketed | ref | word => rfl
    rw [hlexemes, flatMap_map, hunder]
    exact flatMap_singleton' _
  · simp only [Piece.lexemes, flatMap_cons, flatMap_nil, hline, Piece.under]
    cases hide with
    | none => simp [enclosed]
    | some keep =>
      have := @replaceInside_eq_enclosed .lineComment ['/', '/'] [] rfl keep w
      simpa using this
  · simp only [Piece.lexemes, flatMap_cons, flatMap_nil, hblock, Piece.under]
    cases hide with
    | none => simp [enclosed]
    | some keep =>
      have := @replaceInside_eq_enclosed .blockComment ['/', '*'] ['*', '/'] rfl keep w
      simpa using this

def Piece.hollow : Piece → Piece
  | .lineComment w b => .lineComment (all w) b
  | .blockComment w => .blockComment (all w)
  | p => p

lemma hollow_wellFormed (h : p.WellFormed) : p.hollow.WellFormed := by
  cases p with
  | lineComment w b =>
    refine ⟨fun c hc => ?_, h.2⟩
    obtain ⟨d, hd, rfl⟩ := mem_map.mp hc
    rw [maskChar, h.1 d hd]
    rfl
  | blockComment w =>
    exact find?_of_notMem (fun hc => absurd (isBlank_of_mem_all hc) (by decide)) []
  | blank | bracketed | ref | word => exact h

lemma text_hollow (l : List Piece) : text (l.map Piece.hollow) = under { comments := some true } l := by
  rw [text, under, flatMap_map]
  refine flatMap_congr fun p _ => ?_
  cases p <;> rfl

lemma attributes_bracketed {w : Text} (h : ∀ c ∈ w, isPlain c ∧ isBreak c = false) (y : Text) : Mask.attributes ('['
    :: '[' :: (w ++ (']' :: ']' :: y))) true = '[' :: '[' :: (Mask.all w ++ (']' :: ']' :: Mask.attributes y true)) :=
    by
  have hbracket : ']' ∉ w := fun hc => absurd (h _ hc).1 (by decide)
  have hbreak : ((w ++ (']' :: ']' :: y)).take w.length).any isBreak = false := by
    rw [take_left, any_eq_false]
    exact fun c hc => by simp [(h c hc).2]
  have hgroup : Mask.attributeGroup none ('[' :: '[' :: (w ++ (']' :: ']' :: y))) = some (w.length + 4) :=
    Mask.attributeGroup_eq_some_iff.mpr ⟨_, _, rfl, find?_of_notMem hbracket y, hbreak, rfl⟩
  have hsplit : '[' :: '[' :: (w ++ (']' :: ']' :: y)) = ('[' :: '[' :: (w ++ [']', ']'])) ++ y := by simp
  have hlength : w.length + 4 = ('[' :: '[' :: (w ++ [']', ']'])).length := by simp
  rw [Mask.attributes_accepted hgroup, hsplit, hlength, take_left, drop_left, Mask.maskedAttribute]
  simp [between]

/-- The characters of a piece that a full mask leaves, apart from blanks. -/
def Piece.visible : Piece → Text
  | .blank _ => []
  | .lineComment _ _ => ['/']
  | .blockComment _ => ['/', '*']
  | .bracketed _ => ['[', ']']
  | .ref _ => ['&']
  | .word w _ => '(' :: ')' :: w

lemma mem_enclosed {keep : Bool} {left inner right : Text}
    (h : c ∈ enclosed (some keep) left inner right) : isBlank c ∨ c ∈ left ∨ c ∈ right := by
  cases keep with
  | false => exact .inl (isBlank_of_mem_all h)
  | true =>
    rcases mem_append.mp h with h | h
    · exact .inr (.inl h)
    · rcases mem_append.mp h with h | h
      · exact .inl (isBlank_of_mem_all h)
      · exact .inr (.inr h)

lemma mem_argument_under {argument : Option Argument} (h : ∀ a ∈ argument, a.WellFormed) {keep : Bool}
    (hc : c ∈ argument.elim [] (Argument.under (.full keep))) : isBlank c ∨ c = '(' ∨ c = ')' := by
  cases argument with
  | none => cases hc
  | some a =>
    rcases mem_append.mp hc with hc | hc
    · exact .inl ((h a rfl).1 c hc)
    · simpa using mem_enclosed hc

lemma mem_piece_under (h : p.WellFormed) (keep : Bool) (hc : c ∈ p.under (.full keep)) :
    isBlank c ∨ c ∈ p.visible := by
  cases p with
  | blank b =>
    rw [mem_singleton.mp hc]
    exact .inl h
  | lineComment w b =>
    rcases mem_append.mp hc with hc | hc
    · simpa [Piece.visible] using mem_enclosed hc
    · rw [mem_singleton.mp hc]
      exact .inl (isBlank_of_isBreak h.2)
  | blockComment w =>
    have := mem_enclosed hc
    simp only [mem_cons, not_mem_nil, or_false] at this
    simp only [Piece.visible, mem_cons, not_mem_nil, or_false]
    tauto
  | bracketed w =>
    have := @mem_enclosed c true ['[', '['] w [']', ']'] hc
    simpa [Piece.visible] using this
  | ref double =>
    refine .inr ?_
    cases double <;> simpa [Piece.under, Piece.visible] using hc
  | word w argument =>
    rcases mem_append.mp hc with hc | hc
    · exact .inr (mem_cons_of_mem _ (mem_cons_of_mem _ hc))
    · rcases mem_argument_under h.2.2.2.2 hc with hc | rfl | rfl
      · exact .inl hc
      · exact .inr (by simp [Piece.visible])
      · exact .inr (by simp [Piece.visible])

/-- Outside of attributes no piece whose comments are hidden has brackets. -/
lemma bracket_notMem (h : p.WellFormed) (hp : ∀ w, p ≠ .bracketed w) (keep : Bool) :
    '[' ∉ p.under { comments := some keep } := by
  intro hc
  cases p with
  | bracketed w => exact hp w rfl
  | word w argument => exact absurd (isPlain_of_mem_word h hc) (by decide)
  | blank | lineComment | blockComment | ref =>
    rcases mem_piece_under h keep hc with hc | hc
    · cases hc
    · simp [Piece.visible] at hc

lemma attributes_under (h : ∀ p ∈ l, p.WellFormed) (keep : Bool) : attributes (under { comments := some keep } l)
    true = under { comments := some keep, attributes := some true } l := by
  induction l with
  | nil => rfl
  | cons p l ih =>
    have hp := h p mem_cons_self
    have htail := ih fun q hq => h q (mem_cons_of_mem p hq)
    rw [under_cons, under_cons, ← htail]
    by_cases hbracketed : ∃ w, p = .bracketed w
    · obtain ⟨w, rfl⟩ := hbracketed
      have := attributes_bracketed hp (under { comments := some keep } l)
      simpa [Piece.under, enclosed] using this
    · rw [attributes_append (bracket_notMem hp (fun w hw => hbracketed ⟨w, hw⟩) keep)]
      cases p with
      | bracketed w => exact absurd ⟨w, rfl⟩ hbracketed
      | blank | lineComment | blockComment | ref | word => rfl

lemma isOrdinary_of_isBlank (h : isBlank c) : IsOrdinary '(' ')' c := by
  refine ⟨?_, ?_, ?_⟩ <;> rintro rfl <;> cases h

lemma parentheses_under (h : ∀ p ∈ l, p.WellFormed) (keep : Bool) :
    parentheses (under { comments := some keep, attributes := some true } l) true = under (.full keep) l := by
  rw [parentheses, balanced_eq delimiters_parentheses]
  induction l with
  | nil => rfl
  | cons p l ih =>
    have hp := h p mem_cons_self
    rw [under_cons, under_cons, ← ih fun q hq => h q (mem_cons_of_mem p hq)]
    cases p with
    | word w argument =>
      obtain ⟨_, hw, _, _, hargument⟩ := hp
      have hword : ∀ c ∈ w, Mask.IsOrdinary '(' ')' c := by
        intro c hc
        obtain ⟨hplain, _, hother⟩ := isOrdinary_iff.mp (hw c hc)
        simp only [mem_cons, not_or] at hplain hother
        exact ⟨hother.1, hother.2.1, hplain.2.2.2.2.2.1⟩
      rw [Piece.under, Piece.under, append_assoc, append_assoc, render_append hword]
      cases argument with
      | none => rfl
      | some a =>
        obtain ⟨hgap, hinner, hlevel⟩ := hargument a rfl
        have hback : '\\' ∉ a.inner := fun hc => absurd (hinner _ hc) (by decide)
        have hgroup := render_group delimiters_parentheses (escapes_of_notMem hback) hlevel (under { comments := some keep, attributes := some true } l)
        rw [Option.elim, Option.elim, Argument.under, Argument.under, append_assoc, append_assoc,
          render_append fun c hc => isOrdinary_of_isBlank (hgap c hc)]
        simpa [enclosed, Cover.full] using hgroup
    | blank | lineComment | blockComment | bracketed | ref =>
      refine render_append (fun c hc => ?_) _
      rcases mem_piece_under hp keep hc with hc | hc
      · exact isOrdinary_of_isBlank hc
      · refine ⟨?_, ?_, ?_⟩ <;> rintro rfl <;> simp [Piece.visible] at hc

/-- The text behind the parameters as it is read: comments are hidden whole. -/
lemma readingMask_text (h : ∀ p ∈ l, p.WellFormed) :
    parentheses (nonSource (text l) true) true = under (.full false) l := by
  have hcomments : replaceTokens chooseAll all (text l) = under { comments := some false } l :=
    replaceTokens_text h rfl rfl
  rw [nonSource, hcomments, attributes_under h, parentheses_under h]

/-- The text behind the parameters as it is updated: the marks of comments are seen. -/
lemma updatingMask_text (h : ∀ p ∈ l, p.WellFormed) : parentheses (attributes (quotes (rawStrings (comments (text l)
    true) true) true) true) true = under (.full true) l := by
  have hhollow : ∀ p ∈ l.map Piece.hollow, p.WellFormed := by
    intro p hp
    obtain ⟨q, hq, rfl⟩ := mem_map.mp hp
    exact hollow_wellFormed (h q hq)
  -- hidden comments are comments again, and there are no literals
  have hraw : rawStrings (text (l.map Piece.hollow)) true = text (l.map Piece.hollow) :=
    replaceTokens_text hhollow rfl rfl
  have hquotes : quotes (text (l.map Piece.hollow)) true = text (l.map Piece.hollow) :=
    replaceTokens_text hhollow rfl rfl
  have hcomments : comments (text l) true = under { comments := some true } l := replaceTokens_text h rfl rfl
  rw [hcomments, ← text_hollow, hraw, hquotes, text_hollow, attributes_under h, parentheses_under h]

end Trailing

end CppScaffold
