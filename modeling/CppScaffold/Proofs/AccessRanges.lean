import CppScaffold.Proofs.MemberAccess
import CppScaffold.Proofs.SignatureRanges

/-!
# Access ranges of a class body

Each access level has a scan of its own over what looks like specifiers. The ranges of two levels have no position in
common, and the last specifier before a position grants its access, if nothing but blanks stands between keyword and
colon.
-/

namespace CppScaffold

open Text Recognizer List Position Mask AccessLevel Parameter

lemma Position.not_le_iff {p q : Position} : ¬ p ≤ q ↔ q < p := by
  rw [le_iff, lt_iff]
  omega

/-! ## What a specifier grants -/

namespace AccessLevel

lemma isIdentifierStart_name (a : AccessLevel) :
    ∃ c rest, a.name = c :: rest ∧ isIdentifierStart c ∧ ∀ d ∈ rest, isWordChar d := by
  cases a with
  | isPublic => exact ⟨'p', "ublic", rfl, by decide, by simp; decide⟩
  | isProtected => exact ⟨'p', "rotected", rfl, by decide, by simp; decide⟩
  | isPrivate => exact ⟨'p', "rivate", rfl, by decide, by simp; decide⟩

lemma ofName?_eq_some_iff {t : Text} {a : AccessLevel} : ofName? t = some a ↔ a.name = t := by
  unfold ofName?
  refine ⟨fun h => ?_, ?_⟩
  · have hname := find?_some h
    exact beq_iff_eq.mp hname
  · rintro rfl
    cases a <;> decide

lemma isSome_matchStart?_recognizer {a : AccessLevel} {t : Text} :
    (matchStart? a.recognizer t).isSome ↔ ∃ gap rest, t = a.name ++ (gap ++ ':' :: rest) ∧ ∀ c ∈ gap, isBlank c := by
  obtain ⟨c, word, hname, hc, _⟩ := a.isIdentifierStart_name
  rw [Option.isSome_iff_exists]
  simp only [matchStart?, recognizer, seq, blanks, andThen_eq_some_iff, boundary_eq_some_iff, exactly_eq_some_iff,
    many_eq_some_iff, char_eq_some_iff]
  constructor
  · rintro ⟨_, _, _, ⟨_, rfl⟩, ⟨_, _, ⟨⟨rest, rfl⟩, rfl⟩, ⟨_, _, rfl, ⟨d, rest', hcolon, hd, rfl⟩, rfl⟩, rfl⟩, rfl⟩
    rw [drop_zero, drop_left, drop_length_takeWhile] at hcolon
    rw [beq_iff_eq] at hd
    refine ⟨rest.takeWhile isBlank, rest', ?_, fun c hc => mem_takeWhile_imp hc⟩
    rw [← hd, ← hcolon, takeWhile_append_dropWhile]
  · rintro ⟨gap, rest, rfl, hgap⟩
    have htake : (gap ++ ':' :: rest).takeWhile isBlank = gap := takeWhile_append_cons hgap rfl rest
    refine ⟨_, 0, _, ⟨?_, rfl⟩, ⟨_, _, ⟨prefix_append .., rfl⟩, ⟨_, 1, rfl, ⟨':', rest, ?_, rfl, rfl⟩, rfl⟩, rfl⟩, rfl⟩
    · rw [hname, cons_append, head?_cons]
      have hword : isWord (some c) := isWordChar_of_isIdentifierStart hc
      rw [hword]
      decide
    · rw [drop_zero, drop_left, htake, drop_left]

end AccessLevel

namespace Entity

/-- The access level that the keyword of a specifier names. -/
def keywordOf (s : Fragment) : Option AccessLevel := ofName? (leadingIdentifier s.text)

/-- Behind the keyword of a specifier stand blanks and a colon. -/
def Plain (s : Fragment) : Prop :=
  ∃ gap rest, s.text = leadingIdentifier s.text ++ (gap ++ ':' :: rest) ∧ ∀ c ∈ gap, isBlank c

lemma leadingIdentifier_name (a : AccessLevel) {gap : Text} (rest : Text) (hgap : ∀ c ∈ gap, isBlank c) :
    leadingIdentifier (a.name ++ (gap ++ ':' :: rest)) = a.name := by
  obtain ⟨c, word, hname, hc, hword⟩ := a.isIdentifierStart_name
  -- the blank or colon behind the keyword ends it
  obtain ⟨d, behind, hbehind, hd⟩ : ∃ d behind, gap ++ ':' :: rest = d :: behind ∧ isWordChar d = false := by
    cases gap with
    | nil => exact ⟨':', rest, rfl, by decide⟩
    | cons d gap =>
      refine ⟨d, gap ++ ':' :: rest, rfl, Bool.eq_false_iff.mpr fun hd => ?_⟩
      have hblank := hgap d (by simp)
      rw [isBlank_of_isWordChar hd] at hblank
      cases hblank
  have hidentifier : identifierPart none (a.name ++ (gap ++ ':' :: rest)) = some (1 + word.length) := by
    rw [identifierPart_eq_some_iff]
    refine ⟨c, word ++ (gap ++ ':' :: rest), by rw [hname, cons_append], hc, ?_⟩
    rw [hbehind, takeWhile_append_cons hword hd]
  rw [leadingIdentifier, hidentifier, Option.getD_some, take_left']
  rw [hname, length_cons, Nat.add_comm]

variable {a : AccessLevel} {specifiers : List Fragment}

/-- A specifier is one of a level, if it is plain and its keyword is that of the level. -/
lemma isSome_matchStart?_iff {s : Fragment} :
    (matchStart? a.recognizer s.text).isSome ↔ keywordOf s = some a ∧ Plain s := by
  rw [isSome_matchStart?_recognizer]
  constructor
  · rintro ⟨gap, rest, htext, hgap⟩
    have hname : leadingIdentifier s.text = a.name := by
      rw [htext]
      exact leadingIdentifier_name a rest hgap
    refine ⟨?_, gap, rest, by rwa [hname], hgap⟩
    rw [keywordOf, hname]
    exact ofName?_eq_some_iff.mpr rfl
  · rintro ⟨hkeyword, gap, rest, htext, hgap⟩
    rw [← ofName?_eq_some_iff.mp hkeyword] at htext
    exact ⟨gap, rest, htext, hgap⟩

lemma grantedBy_eq_some_iff {s : Fragment} :
    grantedBy s = some a ↔ (matchStart? a.recognizer s.text).isSome := by
  unfold grantedBy grantedIn
  constructor
  · intro h
    simpa using find?_some h
  · intro h
    cases hfind : [isPublic, .isProtected, .isPrivate].find? fun b =>
        (matchStart? b.recognizer s.text).isSome with
    | none =>
      have hnone := find?_eq_none.mp hfind a (by cases a <;> simp)
      exact absurd h hnone
    | some b =>
      have hb : (matchStart? b.recognizer s.text).isSome := by simpa using find?_some hfind
      rw [← (isSome_matchStart?_iff.mp hb).1, (isSome_matchStart?_iff.mp h).1]

/-! ## The scan for one level -/

/-- The fragments stand one behind the other, the first of them not before the position. -/
def Follow : Position → List Fragment → Prop
  | _, [] => True
  | q, s :: rest => q ≤ s.range.start ∧ s.range.start < s.range.stop ∧ Follow s.range.stop rest

/-- What is granted by the last of the specifiers that end at or before a position, or else without any. -/
def accessFrom (granted : Fragment → Option AccessLevel) (byDefault : Option AccessLevel) (specifiers : List Fragment)
    (p : Position) : Option AccessLevel :=
  ((specifiers.filter fun s => s.range.stop ≤ p).getLast?.map granted).getD byDefault

variable {granted : Fragment → Option AccessLevel} {byDefault : Option AccessLevel} {s : Fragment} {rest : List Fragment}
  {p q : Position}

lemma Follow.stop_le (h : Follow q rest) (hs : s ∈ rest) : q ≤ s.range.start ∧ s.range.start < s.range.stop := by
  induction rest generalizing q with
  | nil => cases hs
  | cons s' rest ih =>
    obtain ⟨hq, hlt, hrest⟩ := h
    rcases mem_cons.mp hs with rfl | hs
    · exact ⟨hq, hlt⟩
    · obtain ⟨hstart, hstop⟩ := ih hrest hs
      exact ⟨le_trans hq (le_trans (le_of_lt hlt) hstart), hstop⟩

lemma accessFrom_of_le (h : Follow q rest) (hp : p ≤ q) : accessFrom granted byDefault rest p = byDefault := by
  have hnone : rest.filter (fun s => s.range.stop ≤ p) = [] := by
    refine filter_eq_nil_iff.mpr fun s hs hle => ?_
    obtain ⟨hstart, hstop⟩ := h.stop_le hs
    have hlt := lt_of_le_of_lt (le_trans hp hstart) hstop
    exact not_lt_iff.mpr (of_decide_eq_true hle) hlt
  rw [accessFrom, hnone]
  rfl

lemma accessFrom_cons_of_le (hp : s.range.stop ≤ p) :
    accessFrom granted byDefault (s :: rest) p = accessFrom granted (granted s) rest p := by
  unfold accessFrom
  rw [filter_cons_of_pos (by simpa using hp), getLast?_cons]
  cases (rest.filter fun s => s.range.stop ≤ p).getLast? <;> rfl

lemma accessFrom_cons_of_lt (h : Follow s.range.stop rest) (hp : p < s.range.stop) :
    accessFrom granted byDefault (s :: rest) p = byDefault := by
  have hnot : ¬ s.range.stop ≤ p := fun hle => not_lt_iff.mpr hle hp
  have hrest := @accessFrom_of_le granted byDefault _ _ _ h (le_of_lt hp)
  rw [accessFrom] at hrest ⊢
  rwa [filter_cons_of_neg (by simpa using hnot)]

lemma contains_iff {r : Range} : r.contains p ↔ r.start ≤ p ∧ p ≤ r.stop := by
  simp [Range.contains]

lemma containsStrictly_eq_false_iff {r : Range} : r.containsStrictly p = false ↔ p ≤ r.start ∨ r.stop ≤ p := by
  rw [Range.containsStrictly, Bool.and_eq_false_iff, decide_eq_false_iff_not, decide_eq_false_iff_not, not_lt_iff,
    not_lt_iff]

section

variable {a : AccessLevel} {bodyEnd : Position}

lemma accessRangesFrom_of_granted (h : grantedBy s = some a) (start : Option Position) :
    accessRangesFrom a bodyEnd start (s :: rest) = accessRangesFrom a bodyEnd (some (start.getD s.range.stop)) rest := by
  have haccept := grantedBy_eq_some_iff.mp h
  cases start <;> rw [accessRangesFrom, if_pos haccept]

lemma accessRangesFrom_none (h : grantedBy s ≠ some a) :
    accessRangesFrom a bodyEnd none (s :: rest) = accessRangesFrom a bodyEnd none rest := by
  rw [accessRangesFrom, if_neg fun haccept => h (grantedBy_eq_some_iff.mpr haccept)]

lemma accessRangesFrom_some (h : grantedBy s ≠ some a) (start : Position) :
    accessRangesFrom a bodyEnd (some start) (s :: rest) =
      ⟨start, s.range.start⟩ :: accessRangesFrom a bodyEnd none rest := by
  rw [accessRangesFrom, if_neg fun haccept => h (grantedBy_eq_some_iff.mpr haccept)]

/-- A position in a range of a level has the level that is granted there. -/
lemma access_of_mem_accessRangesFrom {start : Option Position} (h : Follow q rest)
    (hstart : start.isSome ↔ byDefault = some a) (hle : ∀ p₀ ∈ start, p₀ ≤ q)
    (hp : (accessRangesFrom a bodyEnd start rest).any (·.contains p)) :
    start.getD q ≤ p ∧ accessFrom grantedBy byDefault rest p = some a := by
  induction rest generalizing q start byDefault with
  | nil =>
    cases start with
    | none => simp [accessRangesFrom] at hp
    | some p₀ =>
      rw [accessRangesFrom, any_cons, any_nil, Bool.or_false, contains_iff] at hp
      exact ⟨hp.1, hstart.mp rfl⟩
  | cons s rest ih =>
    obtain ⟨hq, hlt, hrest⟩ := h
    have hstop : q ≤ s.range.stop := le_trans hq (le_of_lt hlt)
    by_cases hgranted : grantedBy s = some a
    · rw [accessRangesFrom_of_granted hgranted] at hp
      have hopen : start.getD s.range.stop ≤ s.range.stop := by
        cases start with
        | none => exact le_refl _
        | some p₀ => exact le_trans (hle p₀ rfl) hstop
      have hlevel : (some (start.getD s.range.stop)).isSome ↔ some a = some a := by simp
      obtain ⟨hge, haccess⟩ := ih hrest hlevel (by simpa using hopen) hp
      rw [Option.getD_some] at hge
      by_cases hbehind : s.range.stop ≤ p
      · rw [accessFrom_cons_of_le hbehind, hgranted]
        refine ⟨?_, haccess⟩
        cases start with
        | none => exact le_trans hstop hge
        | some p₀ => exact hge
      · -- the position lies before the end of the specifier, in the range that was open already
        cases start with
        | none => exact absurd hge hbehind
        | some p₀ =>
          rw [accessFrom_cons_of_lt hrest (not_le_iff.mp hbehind)]
          exact ⟨hge, hstart.mp rfl⟩
    · have hnone : (accessRangesFrom a bodyEnd none rest).any (·.contains p) →
          q ≤ p ∧ accessFrom grantedBy byDefault (s :: rest) p = some a := by
        intro hp
        have hlevel : (none : Option Position).isSome ↔ grantedBy s = some a := by simpa using hgranted
        obtain ⟨hge, haccess⟩ := ih hrest hlevel (by simp) hp
        exact ⟨le_trans hstop hge, by rwa [accessFrom_cons_of_le hge]⟩
      cases start with
      | none =>
        rw [accessRangesFrom_none hgranted] at hp
        exact hnone hp
      | some p₀ =>
        rw [accessRangesFrom_some hgranted, any_cons, Bool.or_eq_true, contains_iff] at hp
        rcases hp with ⟨hge, hbefore⟩ | hp
        · rw [accessFrom_cons_of_lt hrest (lt_of_le_of_lt hbefore hlt)]
          exact ⟨hge, hstart.mp rfl⟩
        · obtain ⟨hge, haccess⟩ := hnone hp
          exact ⟨le_trans (hle p₀ rfl) hge, haccess⟩

/-- A position outside of the specifiers lies in a range of the level that is granted there. -/
lemma mem_accessRangesFrom_of_access {start : Option Position} (h : Follow q rest)
    (hstart : start.isSome ↔ byDefault = some a) (hle : ∀ p₀ ∈ start, p₀ ≤ p) (hp : p ≤ bodyEnd)
    (houtside : ∀ s ∈ rest, s.range.containsStrictly p = false)
    (haccess : accessFrom grantedBy byDefault rest p = some a) :
    (accessRangesFrom a bodyEnd start rest).any (·.contains p) := by
  induction rest generalizing q start byDefault with
  | nil =>
    obtain ⟨p₀, rfl⟩ := Option.isSome_iff_exists.mp (hstart.mpr haccess)
    rw [accessRangesFrom, any_cons, any_nil, Bool.or_false, contains_iff]
    exact ⟨hle p₀ rfl, hp⟩
  | cons s rest ih =>
    obtain ⟨hq, hlt, hrest⟩ := h
    obtain ⟨hself, houtside⟩ := forall_mem_cons.mp houtside
    by_cases hbehind : s.range.stop ≤ p
    · rw [accessFrom_cons_of_le hbehind] at haccess
      by_cases hgranted : grantedBy s = some a
      · rw [accessRangesFrom_of_granted hgranted]
        refine ih hrest (by simpa using hgranted) ?_ houtside haccess
        rintro _ ⟨⟩
        cases start with
        | none => exact hbehind
        | some p₀ => exact hle p₀ rfl
      · have hnone : (accessRangesFrom a bodyEnd none rest).any (·.contains p) :=
          ih hrest (by simpa using hgranted) (by simp) houtside haccess
        cases start with
        | none => rwa [accessRangesFrom_none hgranted]
        | some p₀ =>
          rw [accessRangesFrom_some hgranted, any_cons, hnone, Bool.or_true]
    · -- the level is the one before the specifier, whose range is open
      have hbefore := not_le_iff.mp hbehind
      rw [accessFrom_cons_of_lt hrest hbefore] at haccess
      obtain ⟨p₀, rfl⟩ := Option.isSome_iff_exists.mp (hstart.mpr haccess)
      by_cases hgranted : grantedBy s = some a
      · rw [accessRangesFrom_of_granted hgranted]
        refine ih hrest (by simpa using hgranted) (by simpa using hle) houtside ?_
        rw [accessFrom_of_le hrest (le_of_lt hbefore), hgranted]
      · have hstart' := (containsStrictly_eq_false_iff.mp hself).resolve_right hbehind
        rw [accessRangesFrom_some hgranted, any_cons, contains_iff.mpr ⟨hle p₀ rfl, hstart'⟩, Bool.true_or]

end

/-! ## The specifiers of a class -/

variable {e : Entity}

lemma maskedForm_maskChild (t : Text) {child : Entity} (hstart : e.startOffset ≤ child.startOffset)
    (hstop : child.startOffset ≤ child.endOffset) : MaskedForm t (e.maskChild t child) := by
  unfold maskChild
  refine maskedForm_mask_between t ?_
  rw [resolveIndex_of_nonneg (by omega), resolveIndex_of_nonneg (by omega)]
  omega

/-- Every child begins in the entity, and not behind its own end. -/
def ChildrenInside (e : Entity) : Prop :=
  ∀ child ∈ e.children, e.range.start ≤ child.range.start ∧ child.range.start ≤ child.range.stop

instance (e : Entity) : Decidable e.ChildrenInside := inferInstanceAs (Decidable (∀ child ∈ e.children, _))

lemma maskedForm_foldl_maskChild (t : Text) {children : List Entity}
    (hdocument : ∀ c ∈ children, c.document = e.document)
    (h : ∀ c ∈ children, e.range.start ≤ c.range.start ∧ c.range.start ≤ c.range.stop) :
    MaskedForm t (children.foldl e.maskChild t) := by
  induction children generalizing t with
  | nil => exact MaskedForm.refl t
  | cons child children ih =>
    obtain ⟨⟨hstart, hstop⟩, h⟩ := forall_mem_cons.mp h
    obtain ⟨hsame, hdocument⟩ := forall_mem_cons.mp hdocument
    have hchild : MaskedForm t (e.maskChild t child) := by
      refine maskedForm_maskChild t ?_ (child.document.offsetAt_mono hstop)
      rw [startOffset, startOffset, hsame]
      exact e.document.offsetAt_mono hstart
    exact hchild.trans (ih _ hdocument h)

lemma accessSpecifier_accepts {prev : Option Char} {t : Text} {n : Nat} (h : accessSpecifier prev t = some n) :
    (∃ c, t.head? = some c ∧ isBlank c = false) ∧ n ≤ t.length := by
  simp only [accessSpecifier, seq, blanks, andThen_eq_some_iff, identifier_eq_some_iff, many_eq_some_iff,
    char_eq_some_iff] at h
  obtain ⟨a, _, ⟨_, c, rest, rfl, hc, _⟩, ⟨b, _, _, ⟨_, x, ⟨_, _, hcolon, _, rfl⟩, hahead, rfl⟩, rfl⟩, rfl⟩ := h
  refine ⟨⟨c, rfl, isBlank_of_isWordChar (isWordChar_of_isIdentifierStart hc)⟩, ?_⟩
  have hzero : x = 0 := by
    unfold notAhead at hahead
    split at hahead
    · cases hahead
    · exact (Option.some.inj hahead).symm
  have hlength := congrArg length hcolon
  rw [length_cons, length_drop, length_drop] at hlength
  omega

/-- The text in which specifiers are looked for: only the body is left, without children. -/
def specifierText (e : Entity) : Text :=
  let parsable := e.parsableText
  let body := e.offsetWithin e.bodyStart
  Mask.parentheses (e.children.foldl e.maskChild (Mask.all (upTo parsable body) ++ startingAt parsable body)) true

/-- The fragment of a document at a place of a text that begins at the offset. -/
def fragmentAt (d : TextDocument) (offset : Nat) (s : Span) : Fragment :=
  d.fragment (d.rangeAt (offset + s.start) (offset + s.stop)) (d.rangeAt (offset + s.start) (offset + s.stop))

lemma accessSpecifiers_eq (hclass : e.isClass) : e.accessSpecifiers =
    (findAll accessSpecifier e.specifierText).map (fragmentAt e.document.toTextDocument e.startOffset) := by
  rw [accessSpecifiers, if_pos hclass]
  rfl

/-- The offset of the body, counted from the start of the entity. -/
def bodyIndex (e : Entity) : Nat := resolveIndex e.parsableText.length (e.offsetWithin e.bodyStart)

lemma maskedForm_specifierText (h : e.ChildrenInside) : Mask.MaskedForm
    (Mask.all (e.parsableText.take e.bodyIndex) ++ e.parsableText.drop e.bodyIndex) e.specifierText := by
  refine (maskedForm_foldl_maskChild _ (fun c hc => ?_) h).trans (maskedForm_parentheses _ true)
  obtain ⟨_, _, rfl⟩ := mem_map.mp hc
  rfl

lemma bodyIndex_le_of_visible (h : e.ChildrenInside) {k : Nat} {c : Char} (hc : e.specifierText[k]? = some c)
    (hblank : isBlank c = false) : e.bodyIndex ≤ k := by
  by_contra hlt
  have hget := (maskedForm_specifierText h).getElem?_of_not_isBlank hc hblank
  have hk := (List.getElem?_eq_some_iff.mp hget).1
  rw [length_append, Mask.all, length_map, length_take, length_drop] at hk
  rw [getElem?_append_left (by rw [Mask.all, length_map, length_take]; omega)] at hget
  obtain ⟨d, _, rfl⟩ := mem_map.mp (mem_of_getElem? hget)
  rw [Mask.isBlank_maskChar] at hblank
  cases hblank

lemma length_parsableText (e : Entity) :
    e.parsableText.length = min (e.endOffset - e.startOffset) (e.document.text.length - e.startOffset) := by
  rw [parsableText, (maskedForm_nonSource _ _).length_eq, text, TextDocument.getText, length_between]
  rfl

/-- The body begins at its offset, unless there is none and nothing of the entity is left. -/
lemma bodyStart_cases (e : Entity) : e.parsableText.length ≤ e.bodyIndex ∨
    e.bodyStart = e.document.positionAt (e.startOffset + e.bodyIndex : Nat) := by
  have hlength := e.length_parsableText
  have hform := (maskedForm_parentheses e.parsableText true).trans (maskedForm_braces _ true)
  unfold bodyIndex
  cases hbrace : findLast? ['{'] (braces (parentheses e.parsableText true) true) with
  | none =>
    left
    have hstart : e.bodyStart = e.range.stop := by
      unfold bodyStart
      rw [hbrace]
    rw [hstart, offsetWithin]
    change _ ≤ resolveIndex _ ((e.endOffset : Int) - e.startOffset)
    rcases Nat.le_total e.startOffset e.endOffset with hle | hle
    · rw [resolveIndex_of_nonneg (by omega)]
      omega
    · omega
  | some i =>
    right
    have hstart : e.bodyStart = e.document.positionAt (e.startOffset + (i + 1) : Nat) := by
      unfold bodyStart
      rw [hbrace]
      dsimp only
      rw [positionWithin]
      congr 1
    have hmasked := getElem?_of_prefix_drop ((findLast?_eq_some_iff (by simp)).mp hbrace).1 (i := 0) (by simp)
    rw [Nat.add_zero, getElem_cons_zero] at hmasked
    have hparsable := hform.getElem?_of_visible hmasked (by decide)
    have hi := (List.getElem?_eq_some_iff.mp hparsable).1
    have hwritten : e.document.text[e.startOffset + i]? = some '{' :=
      getElem?_of_between ((maskedForm_nonSource e.text true).getElem?_of_visible hparsable (by decide))
    have hoffset : e.document.offsetAt e.bodyStart = e.startOffset + (i + 1) := by
      rw [hstart, e.document.offsetAt_positionAt (by omega), if_neg]
      exact (not_insideBreak_of_visible hwritten rfl).2
    have hindex : e.offsetWithin e.bodyStart = (i + 1 : Nat) := by
      rw [offsetWithin, hoffset]
      omega
    rw [hindex, resolveIndex_of_nonneg (by omega), Int.toNat_natCast, Nat.min_eq_left (by omega)]
    exact hstart

lemma follow_fragments (d : TextDocument) {offset b : Nat} {spans : List Span}
    (hspans : ∀ s ∈ spans, b ≤ s.start ∧ s.start < s.stop ∧ offset + s.stop ≤ d.text.length)
    (h : spans.Pairwise fun s s' => s.stop ≤ s'.start) :
    Follow (d.positionAt (offset + b : Nat)) (spans.map (fragmentAt d offset)) := by
  induction spans generalizing b with
  | nil => trivial
  | cons s spans ih =>
    obtain ⟨hs, hrest⟩ := pairwise_cons.mp h
    obtain ⟨⟨hstart, hstop, hend⟩, hspans⟩ := forall_mem_cons.mp hspans
    refine ⟨?_, ?_, ?_⟩
    · exact d.positionAt_mono (Nat.add_le_add_left hstart offset) (by omega)
    · exact d.positionAt_strictMono (Nat.add_lt_add_left hstop offset) hend
    · exact ih (fun s' hs' => ⟨hs s' hs', (hspans s' hs').2⟩) hrest

lemma follow_accessSpecifiers (hclass : e.isClass) (h : e.ChildrenInside) :
    Follow e.bodyStart e.accessSpecifiers := by
  have hlength := e.length_parsableText
  have hspans : ∀ s ∈ findAll accessSpecifier e.specifierText, e.bodyIndex ≤ s.start ∧ s.start < s.stop ∧
      s.stop ≤ e.parsableText.length := by
    intro s hs
    obtain ⟨hlt, haccept⟩ := accepted_of_mem_findAll hs
    obtain ⟨⟨c, hc, hblank⟩, hle⟩ := accessSpecifier_accepts haccept
    rw [head?_drop] at hc
    rw [length_drop, (maskedForm_specifierText h).length_eq, length_append, Mask.all, length_map, ← length_append,
      take_append_drop] at hle
    exact ⟨bodyIndex_le_of_visible h hc hblank, hlt, by omega⟩
  rw [accessSpecifiers_eq hclass]
  rcases e.bodyStart_cases with hnone | hstart
  · -- nothing is left to be found
    have hnil : findAll accessSpecifier e.specifierText = [] := by
      refine eq_nil_iff_forall_not_mem.mpr fun s hs => ?_
      have := hspans s hs
      omega
    rw [hnil]
    trivial
  · rw [hstart]
    refine follow_fragments _ (fun s hs => ?_) (findAll_apart ..)
    have := hspans s hs
    omega

/-! ## The access of a position -/

def implicitAccess (e : Entity) : AccessLevel := if e.kind = .struct then .isPublic else .isPrivate

/-- A position of the class body that does not lie inside of a specifier. -/
structure InBody (e : Entity) (p : Position) : Prop where
  start_le : e.bodyStart ≤ p
  le_end : p ≤ e.bodyEnd
  outside : ∀ s ∈ e.accessSpecifiers, s.range.containsStrictly p = false

lemma hasByDefault_iff (hclass : e.isClass) : e.hasByDefault a ↔ some e.implicitAccess = some a := by
  have hkind : e.kind = .classType ∨ e.kind = .struct := by
    unfold isClass Symbol.isClass SymbolKind.isClass at hclass
    split at hclass
    next h => exact .inl h
    next h => exact .inr h
    next => cases hclass
  unfold hasByDefault implicitAccess
  rcases hkind with hkind | hkind <;> cases a <;> simp [hkind]

lemma isSome_start (hclass : e.isClass) (a : AccessLevel) :
    (if e.hasByDefault a then some e.bodyStart else none).isSome ↔ some e.implicitAccess = some a := by
  rw [← hasByDefault_iff hclass]
  split <;> simp [*]

lemma start_eq {p₀ : Position} (h : p₀ ∈ if e.hasByDefault a then some e.bodyStart else none) : p₀ = e.bodyStart := by
  split at h
  · exact (Option.some.inj h).symm
  · cases h

lemma access_of_hasAccessAt (hclass : e.isClass) (h : e.ChildrenInside)
    (hp : e.hasAccessAt p a) : accessFrom grantedBy (some e.implicitAccess) e.accessSpecifiers p = some a := by
  refine (access_of_mem_accessRangesFrom (follow_accessSpecifiers hclass h) (isSome_start hclass a) ?_ hp).2
  intro p₀ hp₀
  rw [start_eq hp₀]
  exact le_refl _

lemma hasAccessAt_iff (hclass : e.isClass) (h : e.ChildrenInside) (hp : e.InBody p) (a : AccessLevel) :
    e.hasAccessAt p a ↔ accessFrom grantedBy (some e.implicitAccess) e.accessSpecifiers p = some a := by
  refine ⟨access_of_hasAccessAt hclass h, fun haccess => ?_⟩
  refine mem_accessRangesFrom_of_access (follow_accessSpecifiers hclass h) (isSome_start hclass a) ?_ hp.le_end
    hp.outside haccess
  intro p₀ hp₀
  rw [start_eq hp₀]
  exact hp.start_le

/-- A specifier ends outside of all specifiers, and is the last one before its end. -/
lemma Follow.at_stop (h : Follow q specifiers) (hs : s ∈ specifiers) :
    (∀ s' ∈ specifiers, s'.range.containsStrictly s.range.stop = false) ∧
    ∀ granted byDefault, accessFrom granted byDefault specifiers s.range.stop = granted s := by
  simp only [containsStrictly_eq_false_iff]
  induction specifiers generalizing q with
  | nil => cases hs
  | cons s' rest ih =>
    obtain ⟨hq, hlt, hrest⟩ := h
    rw [forall_mem_cons]
    rcases mem_cons.mp hs with rfl | hs
    · refine ⟨⟨.inr (le_refl _), fun s' hs' => .inl (hrest.stop_le hs').1⟩, fun granted byDefault => ?_⟩
      rw [accessFrom_cons_of_le (le_refl _), accessFrom_of_le hrest (le_refl _)]
    · obtain ⟨houtside, haccess⟩ := ih hrest hs
      obtain ⟨hstart, hstop⟩ := hrest.stop_le hs
      have hle : s'.range.stop ≤ s.range.stop := le_trans hstart (le_of_lt hstop)
      refine ⟨⟨.inr hle, houtside⟩, fun granted byDefault => ?_⟩
      rw [accessFrom_cons_of_le hle, haccess]

lemma accessFrom_congr {granted' : Fragment → Option AccessLevel}
    (h : ∀ s ∈ specifiers, s.range.stop ≤ p → granted s = granted' s) :
    accessFrom granted byDefault specifiers p = accessFrom granted' byDefault specifiers p := by
  unfold accessFrom
  cases hlast : (specifiers.filter fun s => s.range.stop ≤ p).getLast? with
  | none => rfl
  | some s =>
    obtain ⟨hs, hle⟩ := mem_filter.mp (mem_of_getLast? hlast)
    rw [Option.map_some, Option.map_some, h s hs (of_decide_eq_true hle)]

lemma exists_accessFrom (h : ∀ s ∈ specifiers, (granted s).isSome) :
    ∃ b, accessFrom granted (some a) specifiers p = some b := by
  unfold accessFrom
  cases hlast : (specifiers.filter fun s => s.range.stop ≤ p).getLast? with
  | none => exact ⟨a, rfl⟩
  | some s =>
    obtain ⟨hs, _⟩ := mem_filter.mp (mem_of_getLast? hlast)
    exact Option.isSome_iff_exists.mp (h s hs)

/-- **Access ranges partition a class body.** No position has two levels, and outside of the specifiers the last one
before a position grants its level, or else the kind of class. If all specifiers name levels, this is the level named
last if and only if nothing but blanks stands between keywords and colons. -/
theorem accessRanges_partition (hclass : e.isClass = true) (h : e.ChildrenInside) :
    (∀ p a b, e.hasAccessAt p a = true → e.hasAccessAt p b = true → a = b) ∧
    (∀ p, e.InBody p → ∀ a, e.hasAccessAt p a = true ↔
      accessFrom grantedBy (some e.implicitAccess) e.accessSpecifiers p = some a) ∧
    ((∀ s ∈ e.accessSpecifiers, (keywordOf s).isSome = true) →
      ((∀ p, e.InBody p → ∃ a, accessFrom keywordOf (some e.implicitAccess) e.accessSpecifiers p = some a ∧
        ∀ b, e.hasAccessAt p b = true ↔ b = a) ↔
      ∀ s ∈ e.accessSpecifiers, s.range.stop ≤ e.bodyEnd → Plain s)) := by
  refine ⟨fun p a b ha hb => ?_, fun p hp a => hasAccessAt_iff hclass h hp a, fun hkeyword =>
    ⟨fun hall s hs hend => ?_, ?_⟩⟩
  · have hboth := (access_of_hasAccessAt hclass h ha).symm.trans (access_of_hasAccessAt hclass h hb)
    exact Option.some.inj hboth
  · -- the end of the specifier has the level of its keyword, which must be granted by it
    have hfollow := follow_accessSpecifiers hclass h
    obtain ⟨houtside, haccess⟩ := hfollow.at_stop hs
    obtain ⟨hstart, hlt⟩ := hfollow.stop_le hs
    have hbody : e.InBody s.range.stop := ⟨Position.le_trans hstart (Position.le_of_lt hlt), hend, houtside⟩
    obtain ⟨a, ha, hlevel⟩ := hall _ hbody
    have hgranted := (hasAccessAt_iff hclass h hbody a).mp ((hlevel a).mpr rfl)
    rw [haccess] at hgranted
    exact (isSome_matchStart?_iff.mp (grantedBy_eq_some_iff.mp hgranted)).2
  · intro hplain p hp
    obtain ⟨a, ha⟩ := exists_accessFrom (a := e.implicitAccess) (p := p) hkeyword
    refine ⟨a, ha, fun b => ?_⟩
    have hsame : ∀ s ∈ e.accessSpecifiers, s.range.stop ≤ p → grantedBy s = keywordOf s := by
      intro s hs hle
      obtain ⟨c, hc⟩ := Option.isSome_iff_exists.mp (hkeyword s hs)
      rw [hc, grantedBy_eq_some_iff, isSome_matchStart?_iff]
      exact ⟨hc, hplain s hs (Position.le_trans hle hp.le_end)⟩
    rw [hasAccessAt_iff hclass h hp b, accessFrom_congr hsame, ha, Option.some.injEq]
    exact eq_comm

/-- A class with a comment before the colon of a specifier. -/
def commentedSpecifier : Entity where
  document := { uri := "file:///p/a.h", text := "class A \x7b\npublic /* c */:\n    int x;\n\x7d;\n", opening := 0 }
  node := ⟨⟨"A", "A", [], .classType, ⟨⟨0, 0⟩, ⟨3, 1⟩⟩, ⟨⟨0, 6⟩, ⟨0, 7⟩⟩,
    [⟨"x", "x", [], .field, ⟨⟨2, 4⟩, ⟨2, 9⟩⟩, ⟨⟨2, 8⟩, ⟨2, 9⟩⟩, []⟩]⟩, []⟩

lemma accessSpecifiers_commentedSpecifier : commentedSpecifier.accessSpecifiers =
    [⟨⟨⟨1, 0⟩, ⟨1, 15⟩⟩, ⟨⟨1, 0⟩, ⟨1, 15⟩⟩, "public /* c */:", "public /* c */:"⟩] := by decide +kernel

/-- The specifier says that the member is public, but the member has no access level at all. -/
theorem no_access_behind_comment :
    accessFrom keywordOf (some commentedSpecifier.implicitAccess) commentedSpecifier.accessSpecifiers ⟨2, 4⟩ =
      some .isPublic ∧
    commentedSpecifier.InBody ⟨2, 4⟩ ∧ ∀ a, commentedSpecifier.hasAccessAt ⟨2, 4⟩ a = false := by
  refine ⟨?_, ⟨by decide +kernel, by decide +kernel, ?_⟩, fun a => ?_⟩
  · rw [accessSpecifiers_commentedSpecifier]
    decide
  · rw [accessSpecifiers_commentedSpecifier]
    decide
  · cases a <;> decide +kernel

/-- So the levels do not follow the keywords there. -/
theorem accessRanges_partition_commentedSpecifier :
    commentedSpecifier.isClass = true ∧ commentedSpecifier.ChildrenInside ∧
    (∀ s ∈ commentedSpecifier.accessSpecifiers, (keywordOf s).isSome = true) ∧
    ¬ ∀ p, commentedSpecifier.InBody p →
      ∃ a, accessFrom keywordOf (some commentedSpecifier.implicitAccess) commentedSpecifier.accessSpecifiers p = some a ∧
        ∀ b, commentedSpecifier.hasAccessAt p b = true ↔ b = a := by
  have hclass : commentedSpecifier.isClass = true := by decide
  have hchildren : commentedSpecifier.ChildrenInside := by decide +kernel
  have hkeyword : ∀ s ∈ commentedSpecifier.accessSpecifiers, (keywordOf s).isSome = true := by
    rw [accessSpecifiers_commentedSpecifier]
    decide
  refine ⟨hclass, hchildren, hkeyword, fun hall => ?_⟩
  have hplain := ((accessRanges_partition hclass hchildren).2.2 hkeyword).mp hall
  rw [accessSpecifiers_commentedSpecifier] at hplain
  have hpublic : (matchStart? AccessLevel.isPublic.recognizer "public /* c */:").isSome = true :=
    isSome_matchStart?_iff.mpr ⟨by decide, hplain _ (List.mem_singleton_self _) (by decide +kernel)⟩
  exact absurd hpublic (by decide)

end Entity

end CppScaffold
