import CppScaffold.Proofs.Heads
import CppScaffold.Proofs.Layers
import CppScaffold.Proofs.LineDecomposition

/-!
# Where an entity begins

A template statement and then a comment are looked for before the reported range. Neither search leads behind its
begin.
-/

namespace CppScaffold

open Text Recognizer List Position Mask

lemma Mask.maskedForm_comments (t : Text) (keep : Bool) : MaskedForm t (comments t keep) :=
  maskedForm_replaceTokens _ t

namespace TextDocument

variable (d : TextDocument)

lemma positionAt_mono {o o' : Nat} (h : o ≤ o') (ho' : o' ≤ d.text.length) : d.positionAt o ≤ d.positionAt o' := by
  rcases Nat.lt_or_eq_of_le h with hlt | rfl
  · exact le_of_lt (d.positionAt_strictMono hlt ho')
  · exact le_refl _

variable {i n : Nat}

lemma positionAt_lt {p : Position} (h : i < d.offsetAt p) : d.positionAt i < p := by
  by_contra hlt
  have hmono := d.offsetAt_mono (not_lt_iff.mp hlt)
  rw [d.offsetAt_positionAt (by have := d.offsetAt_le_length p; omega)] at hmono
  split at hmono
  · omega
  · omega

lemma lt_of_offsetAt_lt {p q : Position} (h : d.offsetAt p < d.offsetAt q) : p < q := by
  by_contra hlt
  have hmono := d.offsetAt_mono (not_lt_iff.mp hlt)
  omega

lemma offsetAt_lineStart (n : Nat) : d.offsetAt ⟨n, 0⟩ = d.lineStart n := by
  rcases Nat.lt_or_ge n d.lineCount with hn | hn
  · have hoffset := d.offsetAt_of_line hn 0
    have hle := d.lineStart_le_lineEnd hn
    omega
  · rw [d.offsetAt_of_lineCount_le (p := ⟨n, 0⟩) (by simpa using hn), d.lineStart_of_le hn]

lemma blankBetween_lineEnd (hn : n + 1 < d.lineCount) : BlankBetween d.text (d.lineEnd n) (d.lineStart (n + 1)) :=
  blankBetween_iff.mpr (all_eq_true.mpr fun _ hc =>
    isBlank_of_isBreak (d.isBreak_of_mem_breakAfter (Nat.lt_of_succ_lt hn) hc))

lemma getText_from_zero (p : Position) : d.getText ⟨.zero, p⟩ = d.text.take (d.offsetAt p) := by
  simp [getText, d.offsetAt_zero, between]

lemma length_getText_from_zero (p : Position) : (d.getText ⟨.zero, p⟩).length = d.offsetAt p := by
  rw [getText_from_zero, length_take]
  exact Nat.min_eq_left (d.offsetAt_le_length p)

end TextDocument

namespace Entity

variable (e : Entity)

lemma templateAtEnd_nil (prev : Option Char) : templateAtEnd prev [] = none := by
  by_cases hprev : isWord prev = isWord none <;> simp [templateAtEnd, seq, andThen, boundary, exactly, hprev]

lemma trueStart_le : e.trueStart ≤ e.range.start := by
  rw [trueStart]
  split
  · split
    next s hs =>
      obtain ⟨_, hle, haccepted, _⟩ := search?_eq_some_iff.mp hs
      refine le_of_lt (e.document.positionAt_lt ?_)
      have hlength := length_trimEnd_le
        (angleBrackets (comments (e.document.getText ⟨.zero, e.range.start⟩) false) true)
      rw [(maskedForm_angleBrackets _ _).length_eq, (maskedForm_comments _ _).length_eq,
        e.document.length_getText_from_zero] at hlength
      have hne : s.start ≠ (trimEnd
          (angleBrackets (comments (e.document.getText ⟨.zero, e.range.start⟩) false) true)).length := by
        intro heq
        rw [heq, drop_length, templateAtEnd_nil] at haccepted
        cases haccepted
      omega
    · exact le_refl _
  · exact le_refl _

/-- The blanks that are dropped before an entity: at most one line break with spaces and tabs around it. -/
lemma exists_gap (t : Text) : ∃ space lineBreak indent, t = dropGap t ++ (space ++ (lineBreak ++ indent)) ∧
    (∀ c ∈ space, isSpaceOrTab c) ∧ (∀ c ∈ indent, isSpaceOrTab c) ∧
    (lineBreak = [] ∨ lineBreak = ['\n'] ∨ lineBreak = ['\r', '\n']) := by
  obtain ⟨indent, ht, hindent⟩ := exists_eq_dropEndWhile_append isSpaceOrTab t
  rw [dropGap]
  generalize dropEndWhile isSpaceOrTab t = u at ht
  dsimp only
  split
  next hfeed =>
    obtain ⟨v, rfl⟩ := getLast?_eq_some_iff.mp (eq_of_beq hfeed)
    rw [dropLast_concat]
    split
    next hreturn =>
      obtain ⟨v, rfl⟩ := getLast?_eq_some_iff.mp (eq_of_beq hreturn)
      rw [dropLast_concat]
      obtain ⟨space, hv, hspace⟩ := exists_eq_dropEndWhile_append isSpaceOrTab v
      refine ⟨space, ['\r', '\n'], indent, ?_, hspace, hindent, .inr (.inr rfl)⟩
      rw [ht, ← append_assoc _ space, ← hv]
      simp
    next =>
      obtain ⟨space, hv, hspace⟩ := exists_eq_dropEndWhile_append isSpaceOrTab v
      refine ⟨space, ['\n'], indent, ?_, hspace, hindent, .inr (.inl rfl)⟩
      rw [ht, ← append_assoc _ space, ← hv]
      simp
  next => exact ⟨[], [], indent, ht, by simp, hindent, .inl rfl⟩

lemma length_dropGap_le (t : Text) : (dropGap t).length ≤ t.length := by
  obtain ⟨space, lineBreak, indent, ht, _⟩ := exists_gap t
  have hlength := congrArg length ht
  rw [length_append] at hlength
  omega

lemma firstCommentLine_le (d : TextDocument) (n : Nat) : firstCommentLine d n ≤ n := by
  induction n with
  | zero => exact Nat.le_refl 0
  | succ n ih =>
    rw [firstCommentLine]
    split
    · omega
    · exact Nat.le_refl _

/-- The line on which the line comments begin that end with the line before the entity. -/
def firstLine : Int :=
  if e.trueStart.line - 1 > 0 then firstCommentLine e.document.toTextDocument (e.trueStart.line - 1).toNat
  else e.trueStart.line - 1

lemma firstLine_lt : e.firstLine < e.trueStart.line := by
  rw [firstLine]
  split
  · have := firstCommentLine_le e.document.toTextDocument (e.trueStart.line - 1).toNat
    omega
  · omega

/-- The text before the entity with comments masked, up to the blanks before the entity. -/
def maskedBefore : Text := dropGap (comments (e.document.getText ⟨.zero, e.trueStart⟩) true)

/-- The three ways in which the comment before an entity is looked for. -/
inductive CommentPlace (p : Position) : Prop where
  | none (hp : p = e.trueStart)
  | block (i : Nat) (hends : ['*', '/'] <:+ e.maskedBefore) (hfound : findLast? ['/', '*'] e.maskedBefore = some i)
      (hp : p = e.document.positionAt i)
  | line (i : Nat) (hends : ['/', '/'] <:+ e.maskedBefore)
      (hfound : find? ['/', '/'] (e.document.lineAt e.firstLine).text = some i) (hp : p = ⟨e.firstLine, i⟩)

lemma commentPlace : e.CommentPlace e.leadingCommentStart := by
  rw [leadingCommentStart]
  dsimp only
  split
  next hends =>
    split
    next i hfound => exact .block i (isSuffixOf_iff_suffix.mp hends) hfound rfl
    next => exact .none rfl
  next =>
    split
    next hends =>
      split
      next i hfound => exact .line i (isSuffixOf_iff_suffix.mp hends) hfound rfl
      next => exact .none rfl
    next => exact .none rfl

lemma length_maskedBefore_le : e.maskedBefore.length ≤ e.document.offsetAt e.trueStart := by
  have hlength := (maskedForm_comments (e.document.getText ⟨.zero, e.trueStart⟩) true).length_eq
  rw [e.document.length_getText_from_zero] at hlength
  rw [← hlength, maskedBefore]
  exact length_dropGap_le _

lemma leadingCommentStart_le : e.leadingCommentStart ≤ e.trueStart := by
  rcases e.commentPlace with hp | ⟨i, hends, hfound, hp⟩ | ⟨i, hends, hfound, hp⟩
  · rw [hp]
    exact le_refl _
  · have hle := ((findLast?_eq_some_iff (by simp)).mp hfound).1.length_le
    have hlength := e.length_maskedBefore_le
    rw [length_drop, length_cons] at hle
    rw [hp]
    exact le_of_lt (e.document.positionAt_lt (by omega))
  · rw [hp, le_iff]
    dsimp only
    exact Or.inl e.firstLine_lt

end Entity

end CppScaffold
