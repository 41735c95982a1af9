import CppScaffold.Proofs.ParameterMask

/-!
# Brackets of several kinds

Each kind of bracket is masked in the text that the kind before has left. A pass leaves the other kinds nested
(`Nested.balanced`), and an outermost group comes out with its inside masked (`maskKinds_group`).
-/

namespace CppScaffold.Mask

open Text List

inductive Bracket where
  | parentheses
  | angleBrackets
  | braces
  | brackets
  deriving DecidableEq, Repr

namespace Bracket

def left : Bracket → Char
  | parentheses => '('
  | angleBrackets => '<'
  | braces => '{'
  | brackets => '['

def right : Bracket → Char
  | parentheses => ')'
  | angleBrackets => '>'
  | braces => '}'
  | brackets => ']'

/-- The kinds in the order in which they are masked. -/
def kinds : List Bracket := [parentheses, angleBrackets, braces, brackets]

variable (k : Bracket)

lemma mem_kinds : k ∈ kinds := by
  cases k <;> decide

lemma delimiters : Delimiters k.left k.right := by
  cases k with
  | parentheses => exact delimiters_parentheses
  | angleBrackets => exact delimiters_angleBrackets
  | braces => exact delimiters_braces
  | brackets => exact delimiters_brackets

def opened? (c : Char) : Option Bracket := kinds.find? (·.left == c)

def closed? (c : Char) : Option Bracket := kinds.find? (·.right == c)

def mark (c : Char) : Mark :=
  if (opened? c).isSome then .opening else if (closed? c).isSome then .closing else .other

lemma opened?_left : opened? k.left = some k := by
  cases k <;> rfl

lemma opened?_right : opened? k.right = none := by
  cases k <;> rfl

lemma closed?_right : closed? k.right = some k := by
  cases k <;> rfl

variable {c : Char} {k : Bracket}

lemma mark_left : mark k.left = .opening := by
  rw [mark, opened?_left]
  rfl

lemma mark_right : mark k.right = .closing := by
  rw [mark, opened?_right, closed?_right]
  rfl

lemma isOrdinary_of_mark (h : mark c = .other) (hback : c ≠ '\\') (k : Bracket) : IsOrdinary k.left k.right c :=
  ⟨ne_of_apply_ne mark (by simp [h, mark_left]), ne_of_apply_ne mark (by simp [h, mark_right]), hback⟩

/-- A bracket of one kind means nothing to the groups of another one. -/
lemma isOrdinary_of_ne {k' : Bracket} (h : k ≠ k') :
    IsOrdinary k.left k.right k'.left ∧ IsOrdinary k.left k.right k'.right := by
  cases k <;> cases k' <;> simp [IsOrdinary, left, right] at h ⊢

end Bracket

/-! ## Nested texts -/

/-- A text in which the brackets of all kinds are properly nested together. -/
inductive Nested : Text → Prop where
  | nil : Nested []
  | plain {c : Char} {t : Text} (hc : Bracket.mark c = .other) (h : Nested t) : Nested (c :: t)
  | group (k : Bracket) {inner rest : Text} (hinner : Nested inner) (hrest : Nested rest) :
      Nested (k.left :: (inner ++ k.right :: rest))

/-- Some pair of brackets encloses an offset of the text. -/
def Enclosed (t : Text) (i : Nat) : Prop :=
  ∃ (k : Bracket) (before inner behind : Text), t = before ++ k.left :: (inner ++ k.right :: behind) ∧ Nested inner ∧
    before.length < i ∧ i ≤ before.length + inner.length

variable {c : Char} {x t m inner : Text} {k : Bracket}

lemma nested_append (hx : x.all (Bracket.mark · = .other)) (ht : Nested t) : Nested (x ++ t) := by
  induction x with
  | nil => exact ht
  | cons c x ih =>
    rw [all_cons, Bool.and_eq_true, decide_eq_true_iff] at hx
    exact .plain hx.1 (ih hx.2)

lemma nested_of_plain (h : t.all (Bracket.mark · = .other)) : Nested t :=
  append_nil t ▸ nested_append h .nil

/-! ## Which brackets enclose an offset -/

lemma Nested.closes_opens (h : Nested t) : closes (t.map Bracket.mark) = 0 ∧ opens (t.map Bracket.mark) = 0 := by
  induction h with
  | nil => exact ⟨rfl, rfl⟩
  | plain hc _ ih => simpa [hc, closes, opens] using ih
  | group k _ _ ihinner ihrest =>
    simp [Bracket.mark_left, Bracket.mark_right, closes, opens, closes_append, opens_append, *]

/-- A pair of brackets does not reach across the end of a nested text. -/
lemma enclosed_append (h : Nested x) (y : Text) (i : Nat) : Enclosed (x ++ y) (x.length + i) ↔ Enclosed y i := by
  constructor
  · rintro ⟨k, before, inner, behind, heq, hinner, hlt, hle⟩
    rcases append_eq_append_iff.mp heq with ⟨a, rfl, rfl⟩ | ⟨a, rfl, ha⟩
    · refine ⟨k, a, inner, behind, rfl, hinner, ?_, ?_⟩ <;> simp at hlt hle <;> omega
    · cases a with
      | nil =>
        rw [append_nil] at hlt hle
        exact ⟨k, [], inner, behind, ha.symm, hinner, by simp; omega, by simp; omega⟩
      | cons d w =>
        -- the bracket would be left open by the nested text, but what follows it there closes nothing else
        obtain ⟨rfl, hw⟩ := cons_eq_cons.mp ha
        simp only [length_append, length_cons] at hle
        obtain ⟨v, rfl⟩ : w <+: inner := by
          refine prefix_of_prefix_length_le (prefix_append w y) ?_ (by omega)
          exact ⟨k.right :: behind, hw⟩
        have hcloses := hinner.closes_opens.1
        have hopens := h.closes_opens.2
        rw [map_append, closes_append] at hcloses
        rw [map_append, map_cons, Bracket.mark_left, opens_append, opens, if_pos (by omega)] at hopens
        omega
  · rintro ⟨k, before, inner, behind, rfl, hinner, hlt, hle⟩
    exact ⟨k, x ++ before, inner, behind, by simp, hinner, by simp; omega, by simp; omega⟩

/-! ## One kind of bracket -/

lemma notMem_of_maskedForm (h : MaskedForm t m) (hne : c ≠ ' ') (ht : c ∉ t) : c ∉ m := by
  intro hmem
  obtain ⟨i, hi⟩ := mem_iff_getElem?.mp hmem
  exact ht (mem_of_getElem? (h.getElem?_of_visible hi hne))

lemma opens_of_level {depth depth' : Nat} {m : List Mark} (h : level depth m = some depth') :
    closes m ≤ depth ∧ depth' = depth - closes m + opens m := by
  fun_induction level depth m with
  | case1 =>
    cases h
    exact ⟨Nat.zero_le _, by simp [closes, opens]⟩
  | case2 depth m ih => simpa [closes, opens] using ih h
  | case3 depth m ih =>
    obtain ⟨hle, rfl⟩ := ih h
    simp only [closes, opens]
    split <;> omega
  | case4 => cases h
  | case5 depth m ih =>
    obtain ⟨hle, rfl⟩ := ih h
    simp only [closes, opens]
    omega

lemma Nested.level_append (h : Nested t) (hback : '\\' ∉ t) (k : Bracket) (depth : Nat) (m : List Mark) :
    level depth (marks k.left k.right false t ++ m) = level depth m := by
  induction h generalizing depth m with
  | nil => rfl
  | plain hc _ ih =>
    rw [mem_cons, not_or] at hback
    rw [marks_ordinary (Bracket.isOrdinary_of_mark hc (Ne.symm hback.1) k)]
    exact ih hback.2 depth m
  | @group k' inner rest _ _ ihinner ihrest =>
    simp only [mem_cons, mem_append, not_or] at hback
    obtain ⟨-, hinner, -, hrest⟩ := hback
    by_cases hk : k = k'
    · subst hk
      rw [k.delimiters.marks_left, marks_append_of_notMem hinner, k.delimiters.marks_right]
      simp only [cons_append, append_assoc]
      rw [level, ihinner hinner, level, ihrest hrest]
    · obtain ⟨hleft, hright⟩ := Bracket.isOrdinary_of_ne hk
      rw [marks_ordinary hleft, marks_append_of_notMem hinner, marks_ordinary hright]
      simp only [cons_append, append_assoc]
      rw [level, ihinner hinner, level, ihrest hrest]

/-- The inside of a group is nested for each kind of bracket on its own. -/
lemma Nested.level_eq (h : Nested t) (hback : '\\' ∉ t) (k : Bracket) :
    level 0 (marks k.left k.right false t) = some 0 := by
  have := h.level_append hback k 0 []
  rwa [append_nil] at this

/-- Masks the groups of one kind. -/
def Bracket.mask (k : Bracket) (t : Text) : Text := balanced k.left k.right t true

lemma Bracket.maskedForm_mask (t : Text) : MaskedForm t (k.mask t) := by
  cases k with
  | parentheses => exact maskedForm_parentheses t true
  | angleBrackets => exact maskedForm_angleBrackets t true
  | braces => exact maskedForm_braces t true
  | brackets => exact maskedForm_brackets t true

lemma Bracket.mask_ordinary (h : IsOrdinary k.left k.right c) (t : Text) : k.mask (c :: t) = c :: k.mask t := by
  rw [mask, mask, balanced_eq k.delimiters, balanced_eq k.delimiters]
  exact @render_append k.left k.right [c] (fun d hd => mem_singleton.mp hd ▸ h) t

lemma Bracket.mask_group (h : Nested inner) (hback : '\\' ∉ inner) (rest : Text) :
    k.mask (k.left :: (inner ++ k.right :: rest)) = k.left :: (all inner ++ k.right :: k.mask rest) := by
  rw [mask, mask, balanced_eq k.delimiters, balanced_eq k.delimiters]
  exact render_group k.delimiters (escapes_of_notMem hback) (h.level_eq hback k) rest

lemma Bracket.mask_group_of_ne {k' : Bracket} (hk : k ≠ k') (h : Nested inner) (hback : '\\' ∉ inner) (rest : Text) :
    k.mask (k'.left :: (inner ++ k'.right :: rest)) = k'.left :: (k.mask inner ++ k'.right :: k.mask rest) := by
  obtain ⟨hleft, hright⟩ := isOrdinary_of_ne hk
  have hcut : GroupCut k.left k.right inner (k'.right :: rest) := by
    refine ⟨marks_append_of_notMem hback _, .inl ?_⟩
    have := (opens_of_level (h.level_eq hback k)).2
    omega
  rw [mask_ordinary hleft, mask, hcut.balanced_append k.delimiters, ← mask, ← mask, mask_ordinary hright]

lemma nested_all (t : Text) : Nested (all t) := by
  induction t with
  | nil => exact .nil
  | cons c t ih =>
    refine .plain ?_ ih
    rw [maskChar]
    split_ifs with hbreak
    · rw [isBreak, Bool.or_eq_true, beq_iff_eq, beq_iff_eq] at hbreak
      rcases hbreak with rfl | rfl <;> rfl
    · rfl

lemma Nested.mask (h : Nested t) (hback : '\\' ∉ t) (k : Bracket) : Nested (k.mask t) := by
  induction h with
  | nil =>
    exact .nil
  | plain hc _ ih =>
    rw [mem_cons, not_or] at hback
    rw [Bracket.mask_ordinary (Bracket.isOrdinary_of_mark hc (Ne.symm hback.1) k)]
    exact .plain hc (ih hback.2)
  | @group k' inner rest hinner _ ihinner ihrest =>
    simp only [mem_cons, mem_append, not_or] at hback
    obtain ⟨-, hback, -, hback'⟩ := hback
    by_cases hk : k = k'
    · subst hk
      rw [k.mask_group hinner hback]
      exact .group k (nested_all inner) (ihrest hback')
    · rw [Bracket.mask_group_of_ne hk hinner hback]
      exact .group k' (ihinner hback) (ihrest hback')

/-! ## All kinds -/

def maskKinds (kinds : List Bracket) (t : Text) : Text := kinds.foldl (fun t k => k.mask t) t

lemma MaskedAs.maskChar_eq {m : Char} (h : MaskedAs c m) : maskChar m = maskChar c := by
  rcases h with rfl | ⟨rfl, hc⟩
  · rfl
  · rw [maskChar, maskChar, hc]
    rfl

/-- A text and its masked forms look the same once all is masked. -/
lemma all_of_maskedForm (h : MaskedForm t m) : all m = all t := by
  have hforall := maskedForm_iff_forall₂.mp h
  induction hforall with
  | nil => rfl
  | cons hc hrest ih =>
    rw [all, map_cons, hc.maskChar_eq, ← all, ih (maskedForm_iff_forall₂.mpr hrest)]
    rfl

lemma eq_all_of_maskedForm (h : MaskedForm (all t) m) : m = all t := by
  have hchar : ∀ c d, MaskedAs (maskChar c) d → d = maskChar c := by
    rintro c d (rfl | ⟨rfl, hc⟩)
    · rfl
    · rw [← maskChar_maskChar, maskChar, hc]
      rfl
  have hforall := forall₂_map_left_iff.mp (maskedForm_iff_forall₂.mp h)
  induction hforall with
  | nil => rfl
  | cons hc hrest ih =>
    rw [hchar _ _ hc, ih (maskedForm_iff_forall₂.mpr (forall₂_map_left_iff.mpr hrest))]
    rfl

lemma maskKinds_plain (kinds : List Bracket) (hc : Bracket.mark c = .other) (hback : c ≠ '\\') (t : Text) :
    maskKinds kinds (c :: t) = c :: maskKinds kinds t := by
  induction kinds generalizing t with
  | nil => rfl
  | cons k kinds ih =>
    rw [maskKinds, foldl_cons, Bracket.mask_ordinary (Bracket.isOrdinary_of_mark hc hback k)]
    exact ih (k.mask t)

/-- An outermost group comes out as one, and if its kind is among the masked ones, all of its inside is hidden. -/
lemma exists_maskKinds_group {kinds : List Bracket} (h : Nested inner) (hback : '\\' ∉ inner) (rest : Text) :
    ∃ inner', MaskedForm inner inner' ∧ (k ∈ kinds → inner' = all inner) ∧
      maskKinds kinds (k.left :: (inner ++ k.right :: rest)) =
        k.left :: (inner' ++ k.right :: maskKinds kinds rest) := by
  induction kinds generalizing inner rest with
  | nil => exact ⟨inner, .refl _, nofun, rfl⟩
  | cons k' kinds ih =>
    simp only [maskKinds, foldl_cons] at ih ⊢
    by_cases hk : k' = k
    · -- this is the pass that hides the inside; later ones find blanks there
      subst hk
      obtain ⟨inner', hform, _, heq⟩ :=
        ih (nested_all inner) (notMem_of_maskedForm (maskedForm_all inner) (by decide) hback) (k'.mask rest)
      obtain rfl := eq_all_of_maskedForm hform
      exact ⟨all inner, maskedForm_all inner, fun _ => rfl, by rw [k'.mask_group h hback, heq]⟩
    · have hform := k'.maskedForm_mask inner
      obtain ⟨inner', hform', hall, heq⟩ :=
        ih (h.mask hback k') (notMem_of_maskedForm hform (by decide) hback) (k'.mask rest)
      refine ⟨inner', hform.trans hform', fun hmem => ?_, by rw [Bracket.mask_group_of_ne hk h hback, heq]⟩
      rw [hall ((mem_cons.mp hmem).resolve_left (Ne.symm hk)), all_of_maskedForm hform]

lemma maskKinds_group (h : Nested inner) (hback : '\\' ∉ inner) (rest : Text) :
    maskKinds Bracket.kinds (k.left :: (inner ++ k.right :: rest)) =
      k.left :: (all inner ++ k.right :: maskKinds Bracket.kinds rest) := by
  obtain ⟨inner', -, hall, heq⟩ := @exists_maskKinds_group _ k Bracket.kinds h hback rest
  rw [heq, hall k.mem_kinds]

lemma maskedForm_maskKinds (kinds : List Bracket) (t : Text) : MaskedForm t (maskKinds kinds t) := by
  induction kinds generalizing t with
  | nil => exact .refl t
  | cons k kinds ih => exact (k.maskedForm_mask t).trans (ih (k.mask t))

lemma maskKinds_append (h : Nested x) (hback : '\\' ∉ x) (y : Text) :
    maskKinds Bracket.kinds (x ++ y) = maskKinds Bracket.kinds x ++ maskKinds Bracket.kinds y := by
  induction h with
  | nil =>
    have hnil : maskKinds Bracket.kinds [] = [] := eq_all_of_maskedForm (maskedForm_maskKinds Bracket.kinds (all []))
    rw [hnil, nil_append, nil_append]
  | plain hc _ ih =>
    rw [mem_cons, not_or] at hback
    rw [cons_append, maskKinds_plain _ hc (Ne.symm hback.1), maskKinds_plain _ hc (Ne.symm hback.1), ih hback.2,
      cons_append]
  | @group k inner rest hinner _ _ ih =>
    simp only [mem_cons, mem_append, not_or] at hback
    obtain ⟨-, hback, -, hback'⟩ := hback
    rw [cons_append, append_assoc, cons_append, maskKinds_group hinner hback, maskKinds_group hinner hback, ih hback',
      cons_append, append_assoc, cons_append]

lemma getElem?_behind_group (l r : Char) (x y : Text) (j : Nat) :
    (l :: (x ++ r :: y))[x.length + 2 + j]? = y[j]? := by
  rw [show x.length + 2 + j = x.length + (j + 1) + 1 by omega, getElem?_cons_succ,
    getElem?_append_right (by omega), Nat.add_sub_cancel_left, getElem?_cons_succ]

/-- A separator is still visible after all kinds of groups are masked if and only if no brackets enclose it. -/
lemma maskKinds_shows_iff (h : Nested t) (hback : '\\' ∉ t) {i : Nat} (hc : t[i]? = some c)
    (hsep : c = ',' ∨ c = '=') : (maskKinds Bracket.kinds t)[i]? = some c ↔ ¬ Enclosed t i := by
  induction h generalizing i with
  | nil => cases hc
  | @plain d t hd _ ih =>
    rw [mem_cons, not_or] at hback
    rw [maskKinds_plain Bracket.kinds hd (Ne.symm hback.1)]
    cases i with
    | zero =>
      refine iff_of_true hc ?_
      rintro ⟨k, before, inner, behind, _, _, hlt, _⟩
      exact absurd hlt (Nat.not_lt_zero _)
    | succ i =>
      have happend := enclosed_append (.plain hd .nil) t i
      rw [singleton_append, length_singleton, Nat.add_comm] at happend
      rw [getElem?_cons_succ, ih hback.2 hc, happend]
  | @group k inner rest hinner hrest _ ih =>
    simp only [mem_cons, mem_append, not_or] at hback
    obtain ⟨-, hback, -, hback'⟩ := hback
    rw [maskKinds_group hinner hback]
    have hmark : Bracket.mark c = .other := by
      rcases hsep with rfl | rfl <;> rfl
    rcases Nat.lt_trichotomy i (inner.length + 1) with hlt | rfl | hgt
    · cases i with
      | zero =>
        obtain rfl := Option.some.inj hc
        rw [Bracket.mark_left] at hmark
        cases hmark
      | succ i =>
        -- hidden, and enclosed by this group
        rw [getElem?_cons_succ, getElem?_append_left (by rw [all, length_map]; omega)]
        refine iff_of_false (fun hsome => ?_)
          fun hnot => hnot ⟨k, [], inner, rest, rfl, hinner, by simp, by simp; omega⟩
        have hblank := isBlank_of_mem_all (mem_of_getElem? hsome)
        rcases hsep with rfl | rfl <;> exact absurd hblank (by decide)
    · rw [getElem?_cons_succ, getElem?_append_right (Nat.le_refl _), Nat.sub_self] at hc
      obtain rfl := Option.some.inj hc
      rw [Bracket.mark_right] at hmark
      cases hmark
    · obtain ⟨j, rfl⟩ : ∃ j, i = inner.length + 2 + j := ⟨i - (inner.length + 2), by omega⟩
      have hlength : (all inner).length = inner.length := by rw [all, length_map]
      have happend := enclosed_append (.group k hinner .nil) rest j
      rw [cons_append, append_assoc, singleton_append, length_cons, length_append, length_singleton] at happend
      rw [getElem?_behind_group] at hc
      rw [← hlength, getElem?_behind_group, ih hback' hc, hlength, ← happend]

/-! ## Comparison operators -/

lemma replaceAllFrom_eq_self {r : Recognizer} {f : Text → Text}
    (h : ∀ prev u n, u <:+ t → r prev u ≠ some (n + 1)) (prev : Option Char) : replaceAllFrom r f prev 0 t = t := by
  induction t generalizing prev with
  | nil => rfl
  | cons c t ih =>
    rw [replaceAllFrom_passed fun n => h prev _ n (suffix_refl _),
      ih fun prev u n hu => h prev u n (hu.trans (suffix_cons c t))]

lemma comparisons_eq_self (h : ∀ c, isComparing c → ¬ [c, '='] <:+: t) : comparisons t = t := by
  refine replaceAllFrom_eq_self (fun prev u n hu hsome => ?_) none
  obtain ⟨c, rest, rfl, hc, _, _⟩ := comparisonOperator_eq_some_iff.mp hsome
  obtain ⟨before, rfl⟩ := hu
  exact h c hc ⟨before, rest, by simp⟩

lemma MaskedForm.infix_of_visible {w : Text} (h : MaskedForm t m) (hw : w <:+: m) (hne : ' ' ∉ w) : w <:+: t := by
  obtain ⟨a, b, rfl⟩ := hw
  rw [append_assoc] at h
  obtain ⟨u, u', rfl, _, hu'⟩ := h.append_inv
  exact (hu'.prefix_of_visible (prefix_append w b) hne).isInfix.trans (suffix_append u u').isInfix

lemma nestedGroups_eq_maskKinds (h : ∀ c, isComparing c → ¬ [c, '='] <:+: t) :
    nestedGroups t = maskKinds Bracket.kinds t := by
  have hcomparisons : comparisons (parentheses t true) = parentheses t true := by
    refine comparisons_eq_self fun c hc hpair => h c hc ((maskedForm_parentheses t true).infix_of_visible hpair ?_)
    intro hmem
    rcases mem_cons.mp hmem with rfl | hmem
    · cases hc
    · exact absurd (mem_singleton.mp hmem) (by decide)
  rw [nestedGroups, hcomparisons, maskKinds, Bracket.kinds, foldl_cons, foldl_cons, foldl_cons, foldl_cons, foldl_nil]
  simp only [Bracket.mask, Bracket.left, Bracket.right, parentheses, angleBrackets, braces, brackets]

/-- **Masking groups hides the separators in brackets and no others**, if all brackets are nested and no comparison
operator looks like one. -/
theorem nestedGroups_shows_separator_iff {t : Text} (hback : '\\' ∉ t) (hnested : Nested t)
    (hcompare : ∀ c ∈ ['<', '>', '!', '='], ¬ [c, '='] <:+: t) {i : Nat} {c : Char} (hc : t[i]? = some c)
    (hsep : c = ',' ∨ c = '=') : (nestedGroups t)[i]? = some c ↔ ¬ Enclosed t i := by
  have hcompare : ∀ c, isComparing c = true → ¬ [c, '='] <:+: t := by
    intro c hc
    refine hcompare c ?_
    simpa [isComparing, or_assoc] using hc
  rw [nestedGroups_eq_maskKinds hcompare]
  exact maskKinds_shows_iff hnested hback hc hsep

/-- All kinds of brackets in each other, before a separator that none of them encloses and around one that all do. -/
def mixedBrackets : Text := "f<g\x7b[h(a, b)]\x7d>, c = 1"

theorem nestedGroups_shows_separator_iff_mixed :
    '\\' ∉ mixedBrackets ∧ Nested mixedBrackets ∧ (∀ c ∈ ['<', '>', '!', '='], ¬ [c, '='] <:+: mixedBrackets) ∧
      mixedBrackets[8]? = some ',' ∧ ((nestedGroups mixedBrackets)[8]? = some ',' ↔ ¬ Enclosed mixedBrackets 8) ∧
      mixedBrackets[15]? = some ',' ∧ ((nestedGroups mixedBrackets)[15]? = some ',' ↔ ¬ Enclosed mixedBrackets 15) := by
  have hback : '\\' ∉ mixedBrackets := by decide +kernel
  have hcall := Nested.group .parentheses (nested_of_plain (t := "a, b") (by decide)) .nil
  have hbraces := Nested.group .braces (.group .brackets (.plain (c := 'h') rfl hcall) .nil) .nil
  have hnested : Nested mixedBrackets := .plain rfl (.group .angleBrackets (.plain (c := 'g') rfl hbraces)
    (nested_of_plain (t := ", c = 1") (by decide)))
  have hcompare : ∀ c ∈ ['<', '>', '!', '='], ¬ [c, '='] <:+: mixedBrackets := by
    have hall : (['<', '>', '!', '='].all fun c => !decide ([c, '='] <:+: mixedBrackets)) = true := by decide +kernel
    intro c hc
    simpa using List.all_eq_true.mp hall c hc
  have hinside : mixedBrackets[8]? = some ',' := by decide +kernel
  have hbehind : mixedBrackets[15]? = some ',' := by decide +kernel
  exact ⟨hback, hnested, hcompare, hinside, nestedGroups_shows_separator_iff hback hnested hcompare hinside (.inl rfl),
    hbehind, nestedGroups_shows_separator_iff hback hnested hcompare hbehind (.inl rfl)⟩

end CppScaffold.Mask
