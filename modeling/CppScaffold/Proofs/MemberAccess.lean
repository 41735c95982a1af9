import CppScaffold.CodeAction.Member
import CppScaffold.Proofs.Declarators
import CppScaffold.Proofs.Insertions
import CppScaffold.Proofs.MovedBodies
import CppScaffold.Proofs.Starts

/-!
# The access of existing members

A specifier put in with an accessor opens what stands up to the next one. Existing members keep their access if and
only if nothing hidden stands there; this fails only next to an accessor that is not public.
-/

namespace CppScaffold

open Text Action Recognizer List

namespace Entity

/-! ## The access of a place -/

/-- What looks like an access specifier: where it begins, and the access of what follows it if it is one. -/
structure Label where
  offset : Nat
  access : Option AccessLevel
  deriving DecidableEq, Repr

def Label.moved (d : TextDocument) (edits : List TextEdit) (l : Label) : Label :=
  { l with offset := d.movedOffset edits l.offset }

/-- The access that the text of a specifier gives to what follows. -/
def grantedIn (t : Text) : Option AccessLevel :=
  [.isPublic, .isProtected, .isPrivate].find? fun a => (matchStart? a.recognizer t).isSome

def grantedBy (s : Fragment) : Option AccessLevel := grantedIn s.text

/-- The labels in the body of a class. -/
def labels (e : Entity) : List Label :=
  e.accessSpecifiers.map fun s => ⟨e.document.offsetAt s.range.start, grantedBy s⟩

def defaultAccess (e : Entity) : Option AccessLevel :=
  [.isPublic, .isProtected, .isPrivate].find? e.hasByDefault

/-- The access at an offset: that of the nearest label before it, or the one without any label. -/
def accessAmong (byDefault : Option AccessLevel) (labels : List Label) (x : Nat) : Option AccessLevel :=
  ((labels.filter (·.offset ≤ x)).getLast?.map (·.access)).getD byDefault

def accessOf (e child : Entity) : Option AccessLevel := accessAmong e.defaultAccess e.labels child.startOffset

/-- The labels in a text that is put in at an offset. -/
def labelsIn (offset : Nat) (t : Text) : List Label :=
  (findAll accessSpecifier t).map fun s => ⟨offset + s.start, grantedIn (between t s.start s.stop)⟩

/-- The labels of a class after insertions: the old ones moved, and those of the text put in at a position. -/
def labelsAfter (e : Entity) (edits : List TextEdit) (p : Position) (inserted : Text) : List Label :=
  let o := e.document.offsetAt p
  (e.labels.filter (·.offset < o)).map (Label.moved e.document.toTextDocument edits) ++
    (labelsIn (o + e.document.lengthBefore edits o) inserted ++
      (e.labels.filter (o ≤ ·.offset)).map (Label.moved e.document.toTextDocument edits))

/-- The access of a child after some insertions, of which the first one puts in a text at the given position. -/
def accessAfter (e : Entity) (edits : List TextEdit) (p : Position) (inserted : Text) (child : Entity) :
    Option AccessLevel :=
  accessAmong e.defaultAccess (e.labelsAfter edits p inserted) (e.document.movedOffset edits child.startOffset)

/-- A specifier put in at a position reaches a child behind it if no other label stands between them. -/
def Reaches (e : Entity) (p : Position) (child : Entity) : Prop :=
  e.document.offsetAt p ≤ child.startOffset ∧
    ∀ l ∈ e.labels, ¬ (e.document.offsetAt p ≤ l.offset ∧ l.offset ≤ child.startOffset)

instance (e : Entity) (p : Position) (child : Entity) : Decidable (e.Reaches p child) :=
  inferInstanceAs (Decidable (_ ∧ _))

variable {e : Entity}

lemma labels_pairwise (e : Entity) : e.labels.Pairwise fun a b => a.offset ≤ b.offset := by
  unfold labels accessSpecifiers
  split
  · rw [map_map, pairwise_map]
    refine (findAll_apart _ _).imp_of_mem fun {a b} ha _ hab => ?_
    have := (accepted_of_mem_findAll ha).1
    exact e.document.offsetAt_positionAt_mono (by omega)
  · exact .nil

variable {labels : List Label} (byDefault : Option AccessLevel)

/-- A list from left to right is its part before an offset and its part from there on. -/
lemma filter_append_filter (h : labels.Pairwise fun a b => a.offset ≤ b.offset) (o : Nat) :
    labels.filter (·.offset < o) ++ labels.filter (o ≤ ·.offset) = labels := by
  induction h with
  | nil => rfl
  | @cons l labels hl _ ih =>
    rcases Nat.lt_or_ge l.offset o with hlt | hge
    · rw [filter_cons_of_pos (by simpa using hlt), filter_cons_of_neg (by simpa using hlt), cons_append, ih]
    · have hnone : labels.filter (·.offset < o) = [] := by
        refine filter_eq_nil_iff.mpr fun m hm => ?_
        have := hl m hm
        rw [decide_eq_true_eq]
        omega
      rw [hnone, nil_append] at ih
      rw [filter_cons_of_neg (by simpa using hge), filter_cons_of_pos (by simpa using hge), hnone, nil_append, ih]

@[simp] lemma accessAmong_nil (x : Nat) : accessAmong byDefault [] x = byDefault :=
  rfl

lemma accessAmong_singleton (l : Label) (x : Nat) :
    accessAmong byDefault [l] x = if l.offset ≤ x then l.access else byDefault := by
  unfold accessAmong
  by_cases h : l.offset ≤ x <;> simp [h]

lemma accessAmong_append (labels labels' : List Label) (x : Nat) :
    accessAmong byDefault (labels ++ labels') x = accessAmong (accessAmong byDefault labels x) labels' x := by
  unfold accessAmong
  rw [filter_append, getLast?_append]
  cases (labels'.filter (·.offset ≤ x)).getLast? with
  | none => rfl
  | some l => rfl

lemma accessAmong_of_forall {byDefault : Option AccessLevel} {x : Nat}
    (h : ∀ l ∈ labels, ¬ l.offset ≤ x) : accessAmong byDefault labels x = byDefault := by
  have hnone : labels.filter (·.offset ≤ x) = [] := filter_eq_nil_iff.mpr fun l hl => by simpa using h l hl
  rw [accessAmong, hnone]
  rfl

lemma accessAmong_of_mem (byDefault' : Option AccessLevel) {l : Label} {x : Nat}
    (hl : l ∈ labels) (hx : l.offset ≤ x) : accessAmong byDefault labels x = accessAmong byDefault' labels x := by
  unfold accessAmong
  cases hlast : (labels.filter (·.offset ≤ x)).getLast? with
  | none =>
    have hmem : l ∈ labels.filter (·.offset ≤ x) := mem_filter.mpr ⟨hl, by simpa using hx⟩
    rw [getLast?_eq_none_iff.mp hlast] at hmem
    cases hmem
  | some m => rfl

lemma accessAmong_moved (d : TextDocument) (edits : List TextEdit) (labels : List Label) (x : Nat) :
    accessAmong byDefault (labels.map (Label.moved d edits)) (d.movedOffset edits x) = accessAmong byDefault labels x := by
  have hsame : (fun l : Label => decide (l.offset ≤ d.movedOffset edits x)) ∘ Label.moved d edits =
      fun l => decide (l.offset ≤ x) := by
    funext l
    rw [Function.comp_apply, decide_eq_decide]
    exact d.movedOffset_le_movedOffset_iff edits
  unfold accessAmong
  rw [filter_map, hsame, getLast?_map, Option.map_map]
  rfl

/-! ## The labels of the text put in -/

variable {b m : Text} {prev : Option Char}

lemma isWord_of_blank {c : Char} (hc : isBlank c) : isWord (some c) = false := isWordChar_of_isBlank hc

lemma findAllFrom_blank (hb : ∀ c ∈ b, isBlank c) (hprev : isWord prev = false) (offset : Nat) (t : Text) :
    ∃ prev', isWord prev' = false ∧ findAllFrom accessSpecifier prev offset 0 (b ++ t) =
      findAllFrom accessSpecifier prev' (offset + b.length) 0 t := by
  induction b generalizing prev offset with
  | nil => exact ⟨prev, hprev, rfl⟩
  | cons c b ih =>
    obtain ⟨hc, hb⟩ := forall_mem_cons.mp hb
    have hnone : accessSpecifier prev (c :: (b ++ t)) = none := by
      refine Option.eq_none_iff_forall_ne_some.mpr fun n hn => ?_
      simp only [accessSpecifier, seq, identifier, andThen_eq_some_iff, boundary_eq_some_iff] at hn
      obtain ⟨_, _, ⟨_, _, ⟨hstart, -⟩, -⟩, -⟩ := hn
      rw [hprev, head?_cons, isWord_of_blank hc] at hstart
      exact hstart rfl
    obtain ⟨prev', hprev', heq⟩ := ih hb (isWord_of_blank hc) (offset + 1)
    refine ⟨prev', hprev', ?_⟩
    rw [cons_append, findAllFrom, hnone]
    simp only [heq, length_cons]
    congr 1
    omega

lemma labelsIn_blank (hb : ∀ c ∈ b, isBlank c) (offset : Nat) : labelsIn offset b = [] := by
  obtain ⟨_, -, heq⟩ := findAllFrom_blank hb (show isWord none = false from rfl) 0 []
  rw [append_nil] at heq
  rw [labelsIn, findAll, heq]
  rfl

lemma accessSpecifier_public (hprev : isWord prev = false) (hm : ∀ c ∈ m, isBlank c) :
    accessSpecifier prev (AccessLevel.isPublic.specifier ++ m) = some 7 := by
  have hcolon : (char (· == ':') (some ':') m).isSome = false := by
    cases m with
    | nil => rfl
    | cons c m =>
      have hc : c ≠ ':' := by
        rintro rfl
        exact absurd (hm ':' mem_cons_self) (by decide)
      simp [char, hc]
  simp only [accessSpecifier, seq, identifier, blanks, andThen_eq_some_iff, boundary_eq_some_iff]
  refine ⟨6, 1, ⟨0, 6, ⟨?_, rfl⟩, rfl, rfl⟩, ⟨0, 1, rfl, ⟨1, 0, rfl, ?_, rfl⟩, rfl⟩, rfl⟩
  · rw [hprev]
    exact (by decide : false ≠ isWord (some 'p'))
  · change notAhead _ (some ':') m = _
    rw [notAhead, hcolon]
    rfl

/-- A specifier between blanks is the only label. -/
lemma labelsIn_public (hb : ∀ c ∈ b, isBlank c) (hm : ∀ c ∈ m, isBlank c) (offset : Nat) :
    labelsIn offset (b ++ (AccessLevel.isPublic.specifier ++ m)) = [⟨offset + b.length, some .isPublic⟩] := by
  obtain ⟨prev, hprev, heq⟩ := findAllFrom_blank hb (show isWord none = false from rfl) 0 (AccessLevel.isPublic.specifier ++ m)
  obtain ⟨_, -, hrest⟩ := findAllFrom_blank hm (show isWord (some ':') = false from rfl) (b.length + 7) []
  have hfound : findAllFrom accessSpecifier prev b.length 0 (AccessLevel.isPublic.specifier ++ m) =
      [⟨b.length, b.length + 7⟩] := by
    have hpublic := accessSpecifier_public hprev hm
    rw [append_nil] at hrest
    change findAllFrom accessSpecifier prev b.length 0 ('p' :: ("ublic:" ++ m)) = _
    rw [findAllFrom, show accessSpecifier prev ('p' :: ("ublic:" ++ m)) = some 7 from hpublic]
    exact congrArg (_ :: ·) hrest
  have htext : between (b ++ (AccessLevel.isPublic.specifier ++ m)) b.length (b.length + 7) = AccessLevel.isPublic.specifier := by
    rw [between, drop_left, Nat.add_sub_cancel_left]
    rfl
  rw [labelsIn, findAll, heq, Nat.zero_add, hfound, map_singleton, htext]
  rfl

/-- What is put in is public, or it has a specifier of its own that makes it so. -/
def Opens (e : Entity) (p : Position) (front : Text) : Prop :=
  if e.hasAccessAt p .isPublic then front = [] else ∃ b, (∀ c ∈ b, isBlank c) ∧ front = b ++ AccessLevel.isPublic.specifier

/-- The specifier that is put in decides about what it reaches, and nothing else changes. -/
lemma accessAfter_eq {p : Position} {front own : Text} (hfront : e.Opens p front) (others : List TextEdit) (child : Entity) :
    e.accessAfter (⟨⟨p, p⟩, front ++ own⟩ :: others) p (front ++ Mask.all own) child =
      if e.hasAccessAt p .isPublic = false ∧ e.Reaches p child then some .isPublic else e.accessOf child := by
  have hbefore : e.accessOf child = accessAmong (accessAmong e.defaultAccess
      (e.labels.filter (·.offset < e.document.offsetAt p)) child.startOffset)
      (e.labels.filter (e.document.offsetAt p ≤ ·.offset)) child.startOffset := by
    rw [← accessAmong_append, filter_append_filter e.labels_pairwise, accessOf]
  have hown : ∀ c ∈ Mask.all own, isBlank c := forall_mem_map.mpr fun c _ => Mask.isBlank_maskChar c
  rw [accessAfter, labelsAfter, accessAmong_append, accessAmong_append, accessAmong_moved, accessAmong_moved, hbefore]
  by_cases hpublic : e.hasAccessAt p .isPublic
  · rw [Opens, if_pos hpublic] at hfront
    subst hfront
    rw [nil_append (Mask.all own), labelsIn_blank hown, if_neg (by simp [hpublic]), accessAmong_nil]
  · rw [Opens, if_neg hpublic] at hfront
    obtain ⟨b, hb, rfl⟩ := hfront
    have hplace := e.document.add_le_movedOffset_iff (x := child.startOffset) (k := b.length)
      ⟨⟨p, p⟩, b ++ AccessLevel.isPublic.specifier ++ own⟩ others (by simp)
    rw [append_assoc b _ (Mask.all own), labelsIn_public hb hown, accessAmong_singleton]
    simp only [hplace]
    by_cases hle : e.document.offsetAt p ≤ child.startOffset
    · by_cases hlabel : ∃ l ∈ e.labels, e.document.offsetAt p ≤ l.offset ∧ l.offset ≤ child.startOffset
      · obtain ⟨l, hl, hge, hlx⟩ := hlabel
        rw [if_pos hle, if_neg fun h => h.2.2 l hl ⟨hge, hlx⟩]
        exact accessAmong_of_mem _ _ (mem_filter.mpr ⟨hl, by simpa using hge⟩) hlx
      · have hnone : ∀ l ∈ e.labels.filter (e.document.offsetAt p ≤ ·.offset), ¬ l.offset ≤ child.startOffset := by
          intro l hl hlx
          obtain ⟨hl, hge⟩ := mem_filter.mp hl
          exact hlabel ⟨l, hl, by simpa using hge, hlx⟩
        rw [accessAmong_of_forall hnone, if_pos hle,
          if_pos ⟨by simpa using hpublic, hle, fun l hl hlx => hlabel ⟨l, hl, hlx⟩⟩]
    · rw [if_neg hle, if_neg fun h => hle h.2.1]

/-- All children keep their access if and only if the place is public, or all from there up to the next label is. -/
lemma access_kept_iff {p : Position} {front : Text} (hfront : e.Opens p front) (own : Text) (others : List TextEdit) :
    (∀ child ∈ e.children, e.accessAfter (⟨⟨p, p⟩, front ++ own⟩ :: others) p (front ++ Mask.all own) child =
      e.accessOf child) ↔
    e.hasAccessAt p .isPublic ∨ ∀ child ∈ e.children, e.Reaches p child → e.accessOf child = some .isPublic := by
  simp only [accessAfter_eq hfront]
  cases e.hasAccessAt p .isPublic with
  | true => simp
  | false =>
    simp only [true_and, Bool.false_eq_true, false_or]
    refine forall₂_congr fun child _ => ?_
    split
    next hreaches => exact ⟨fun h _ => h.symm, fun h => (h hreaches).symm⟩
    next hreaches => exact ⟨fun _ h => absurd h hreaches, fun _ => rfl⟩

/-! ## The place of a new member function -/

/-- A class laid out as in a text: no public block ends before it begins, a comment behind a public child lies in its
block, and the last child ends last. -/
structure Orderly (e : Entity) : Prop where
  blocks : ∀ r ∈ e.accessRanges .isPublic, r.start ≤ r.stop
  comments : ∀ child ∈ e.children, e.hasAccessAt child.range.stop .isPublic →
    e.hasAccessAt child.trailingCommentEnd .isPublic
  last : ∀ last ∈ e.children.getLast?, ∀ child ∈ e.children,
    child.startOffset < e.document.offsetAt last.trailingCommentEnd

instance (e : Entity) : Decidable e.Orderly :=
  decidable_of_iff (_ ∧ _ ∧ _) ⟨fun h => ⟨h.1, h.2.1, h.2.2⟩, fun h => ⟨h.blocks, h.comments, h.last⟩⟩

lemma Orderly.not_reaches_placeForChild (h : e.Orderly) {child : Entity} (hchild : child ∈ e.children) :
    ¬ e.Reaches e.placeForChild.position child := by
  intro hreaches
  unfold placeForChild at hreaches
  cases hlast : e.children.getLast? with
  | none =>
    rw [getLast?_eq_none_iff.mp hlast] at hchild
    cases hchild
  | some last =>
    rw [hlast] at hreaches
    have hlt := h.last last hlast child hchild
    have hle := hreaches.1
    dsimp only at hle
    omega

/-- A place that is chosen by access is public, or stands behind all children. -/
lemma Orderly.placeInAccess (h : e.Orderly) : e.hasAccessAt (e.placeInAccess .isPublic).position .isPublic ∨
    ∀ child ∈ e.children, ¬ e.Reaches (e.placeInAccess .isPublic).position child := by
  unfold Entity.placeInAccess
  dsimp only
  split
  next a hanchor =>
    -- the anchor is one of the public children
    have hmem : a ∈ e.children.filter fun c => (e.accessRanges .isPublic).any (·.contains c.range.stop) := by
      cases hfound : find? isFunction (e.children.filter fun c =>
          (e.accessRanges .isPublic).any (·.contains c.range.stop)).reverse with
      | none =>
        rw [hfound, Option.orElse] at hanchor
        exact mem_of_getLast? hanchor
      | some b =>
        rw [hfound, Option.orElse] at hanchor
        cases hanchor
        exact mem_reverse.mp (mem_of_find?_eq_some hfound)
    obtain ⟨ha, hin⟩ := mem_filter.mp hmem
    left
    exact h.comments a ha hin
  next =>
    split
    next s hspecifier =>
      obtain ⟨r, hr, hs⟩ := Option.bind_eq_some_iff.mp hspecifier
      have hstop : s.range.stop = r.start := by simpa using find?_some hs
      have hr := mem_of_getLast? hr
      refine .inl (any_eq_true.mpr ⟨r, hr, ?_⟩)
      rw [hstop, Range.contains, Bool.and_eq_true, decide_eq_true_eq, decide_eq_true_eq]
      exact ⟨Position.le_refl _, h.blocks r hr⟩
    next => exact .inr fun child hchild => h.not_reaches_placeForChild hchild

end Entity

namespace CodeAction

variable {w : Workspace} {s s' : ActionState} {d : OpenDocument} {member c : Entity}

/-! ## Runs that add accessors -/

lemma memberAt_ok {uri : Text} {p : Position} (h : (memberAt uri p).execute w s = (.ok (d, member, c), s')) :
    c.document = d ∧ c.isClass := by
  simp only [memberAt, execute_bind_ok] at h
  obtain ⟨d', s₁, hopen, header, s₂, -, h⟩ := h
  split at h
  · cases h
  · obtain ⟨found, s₃, hfound, h⟩ := execute_bind_ok.mp h
    split at h
    · cases h
    next found hmember =>
      obtain ⟨rfl, hvariable⟩ := Option.filter_eq_some_iff.mp hmember
      split at h
      · cases h
      next parent hparent =>
        cases h
        obtain ⟨node, hnode, rfl⟩ := Option.map_eq_some_iff.mp hparent
        have hdocument := OpenDocument.document_of_entityAt? hfound
        refine ⟨hdocument, ?_⟩
        rw [ScopedSymbol.parent?] at hnode
        rw [Entity.isMemberVariable, ScopedSymbol.isMemberVariable, Bool.and_eq_true] at hvariable
        split at hnode
        · cases hnode
        next hancestors =>
          cases hnode
          rw [hancestors] at hvariable
          exact hvariable.2

/-- A text shows a member function, apart from blanks: as a declaration or as a definition in place or elsewhere. -/
def Shows (w : Workspace) (f : MemberFunction) (t : Text) : Prop :=
  ∃ written, visible t = visible written ∧ (written = f.declaration ++ [';'] ∨
    written = f.declaration ++ " \x7b " ++ f.body ++ " \x7d" ∨
    ∃ target p separator s s', (f.definition target p separator).execute w s = (.ok written, s'))

/-- What is inserted to add member functions to a class: the first one, with an access specifier if needed and wanted,
then perhaps other ones. -/
def Declares (w : Workspace) (c : Entity) (place : Placement) (checkAccess : Bool) (fs : List MemberFunction)
    (edits : List TextEdit) : Prop :=
  ∃ front own others, edits = ⟨⟨place.position, place.position⟩, front ++ own⟩ :: others ∧
    (if checkAccess then c.Opens place.position front else front = []) ∧ (∃ f ∈ fs, Shows w f own) ∧
    ∀ e ∈ others, e.range.stop = e.range.start ∧ ∃ f ∈ fs, Shows w f e.newText

variable {place : Placement} {checkAccess : Bool} {edit : WorkspaceEdit} {f : MemberFunction} {fs : List MemberFunction}

section

variable (hindentation : w.settings.IndentsWithBlanks)
include hindentation

/-- A specifier comes before the member function as one word. -/
lemma exists_front {written newText : Text} {s₁ s₂ : ActionState}
    (h : (d.formatAt (if checkAccess then withSpecifier c .isPublic place.position d.eol written else written)
      place).execute w s₁ = (.ok newText, s₂)) :
    ∃ front own, newText = front ++ own ∧ (if checkAccess then c.Opens place.position front else front = []) ∧
      visible own = visible written := by
  have hsame := OpenDocument.sameWords_formatAt hindentation h
  cases checkAccess with
  | false => exact ⟨[], newText, rfl, rfl, hsame.1⟩
  | true =>
    simp only [if_true, withSpecifier, Entity.Opens] at hsame ⊢
    cases hpublic : c.hasAccessAt place.position .isPublic with
    | true =>
      rw [hpublic] at hsame
      exact ⟨[], newText, rfl, rfl, hsame.1⟩
    | false =>
      rw [hpublic, if_neg Bool.false_ne_true, append_assoc] at hsame
      have hword : AccessLevel.isPublic.specifier.all (!isBlank ·) := by decide
      obtain ⟨own, hown⟩ := hsame.2 AccessLevel.isPublic.specifier (by simpa using hword) (prefix_append _ _)
      have hsplit : newText = newText.takeWhile isBlank ++ AccessLevel.isPublic.specifier ++ own := by
        rw [append_assoc, hown, takeWhile_append_dropWhile]
      refine ⟨_, own, hsplit, ⟨_, fun c hc => mem_takeWhile_imp hc, rfl⟩, ?_⟩
      have hvisible := hsame.1
      rw [hsplit, append_assoc, visible_append, visible_eq_nil fun c hc => mem_takeWhile_imp hc, nil_append, visible_append,
        visible_append, visible_append, d.visible_eol, nil_append] at hvisible
      exact append_cancel_left hvisible

lemma addMember_ok {site : DefinitionSite} {edit' : WorkspaceEdit}
    (h : (addMember f c place d site checkAccess edit).execute w s = (.ok edit', s')) :
    ∃ edits, edit'.editsOf d.uri = edit.editsOf d.uri ++ edits ∧ Declares w c place checkAccess [f] edits := by
  unfold addMember at h
  dsimp only at h
  split at h
  · have hinline : ∃ text newText s₁, (d.formatAt (if checkAccess then withSpecifier c .isPublic place.position d.eol text
        else text) place).execute w s₁ = (.ok newText, s') ∧ edit' = edit.insert d.uri place.position newText ∧
        (∀ t, visible t = visible text → Shows w f t) := by
      split at h
      all_goals
        simp only [execute_bind_ok] at h
      · obtain ⟨_, _, -, text, _, htext, newText, s₁, hformat, h⟩ := h
        cases h
        exact ⟨text, newText, _, hformat, rfl, fun t ht => ⟨text, ht, .inr (.inr ⟨_, _, _, _, _, htext⟩)⟩⟩
      · obtain ⟨text, _, htext, newText, s₁, hformat, h⟩ := h
        cases h
        cases htext
        exact ⟨_, newText, _, hformat, rfl, fun t ht => ⟨_, ht, .inr (.inl rfl)⟩⟩
    obtain ⟨text, newText, s₁, hformat, rfl, hshows⟩ := hinline
    obtain ⟨front, own, rfl, hfront, hown⟩ := exists_front hindentation hformat
    exact ⟨_, WorkspaceEdit.editsOf_replace .., front, own, [], rfl, hfront, ⟨f, mem_singleton_self f, hshows own hown⟩,
      by simp⟩
  · simp only [execute_bind_ok] at h
    obtain ⟨target, _, -, _, _, -, definedAt, _, -, definition, _, hdefinition, newText, _, hformat, defined, _, hdefined,
      h⟩ := h
    cases h
    obtain ⟨front, own, rfl, hfront, hown⟩ := exists_front hindentation hformat
    have hdeclared : Shows w f own := ⟨_, hown, .inl rfl⟩
    have hshows : Shows w f defined :=
      ⟨_, (OpenDocument.sameWords_formatAt hindentation hdefined).1, .inr (.inr ⟨_, _, _, _, _, hdefinition⟩)⟩
    by_cases huri : d.uri = target.uri
    · refine ⟨[⟨⟨place.position, place.position⟩, front ++ own⟩, ⟨⟨definedAt.position, definedAt.position⟩, defined⟩], ?_,
        front, own, _, rfl, hfront, ⟨f, mem_singleton_self f, hdeclared⟩, ?_⟩
      · rw [WorkspaceEdit.insert, WorkspaceEdit.insert, huri, WorkspaceEdit.editsOf_replace,
          WorkspaceEdit.editsOf_replace, append_assoc]
        rfl
      · simpa using hshows
    · refine ⟨[⟨⟨place.position, place.position⟩, front ++ own⟩], ?_, front, own, [], rfl, hfront,
        ⟨f, mem_singleton_self f, hdeclared⟩, by simp⟩
      rw [WorkspaceEdit.insert, WorkspaceEdit.insert, WorkspaceEdit.editsOf_replace_of_ne huri,
        WorkspaceEdit.editsOf_replace]

end

/-- The actions that generate accessors of the member variable at a position. -/
def accessorActions : List (Text → Position → CodeAction WorkspaceEdit) :=
  [generateGetter, generateSetter, generateAccessors]

/-- The places for accessors: next to the setter or the getter of the member, or by access only. -/
def accessorPlaces (member c : Entity) (settings : Settings) : List Placement :=
  [c.placeForFunction .isPublic (some (member.setterName settings.caseStyle)) (some member) settings,
    c.placeForFunction .isPublic (some (member.getterName settings.caseStyle)) (some member) settings,
    c.placeForFunction .isPublic none none settings]

/-- The accessors of a member variable. -/
def accessorsOf (member : Entity) (settings : Settings) : List MemberFunction :=
  [.accessor (.getter member settings), .accessor (.setter member settings)]

lemma Declares.mono {edits : List TextEdit} {fs' : List MemberFunction} (h : Declares w c place checkAccess fs edits)
    (hfs : fs ⊆ fs') : Declares w c place checkAccess fs' edits := by
  obtain ⟨front, own, others, rfl, hfront, ⟨f, hf, hown⟩, hothers⟩ := h
  refine ⟨front, own, others, rfl, hfront, ⟨f, hfs hf, hown⟩, fun e he => ?_⟩
  obtain ⟨hinsertion, f, hf, hshows⟩ := hothers e he
  exact ⟨hinsertion, f, hfs hf, hshows⟩

lemma Declares.insertions {edits : List TextEdit} (h : Declares w c place false fs edits) :
    ∀ e ∈ edits, e.range.stop = e.range.start ∧ ∃ f ∈ fs, Shows w f e.newText := by
  obtain ⟨front, own, others, rfl, hfront, hown, hothers⟩ := h
  obtain rfl : front = [] := by simpa using hfront
  exact forall_mem_cons.mpr ⟨⟨rfl, hown⟩, hothers⟩

lemma Declares.append {place' : Placement} {edits edits' : List TextEdit} (h : Declares w c place checkAccess fs edits)
    (h' : Declares w c place' false fs edits') : Declares w c place checkAccess fs (edits ++ edits') := by
  have hlater := h'.insertions
  obtain ⟨front, own, others, rfl, hfront, hown, hothers⟩ := h
  exact ⟨front, own, others ++ edits', rfl, hfront, hown, fun e he => (mem_append.mp he).elim (hothers e) (hlater e)⟩

section

variable (hindentation : w.settings.IndentsWithBlanks)
include hindentation

lemma addMember_accessor {site : DefinitionSite} (hplace : place ∈ accessorPlaces member c w.settings)
    (hf : f ∈ accessorsOf member w.settings)
    (h : (addMember f c place d site true {}).execute w s = (.ok edit, s')) :
    ∃ place ∈ accessorPlaces member c w.settings,
      Declares w c place true (accessorsOf member w.settings) (edit.editsOf d.uri) := by
  obtain ⟨edits, hedits, hdeclares⟩ := addMember_ok hindentation h
  rw [hedits]
  exact ⟨place, hplace, hdeclares.mono (by simpa using hf)⟩

lemma addGetter_ok (h : (addGetter d member c).execute w s = (.ok edit, s')) :
    ∃ place ∈ accessorPlaces member c w.settings,
      Declares w c place true (accessorsOf member w.settings) (edit.editsOf d.uri) := by
  obtain ⟨settings, _, hsettings, h⟩ := execute_bind_ok.mp h
  cases hsettings
  split at h
  · cases h
  · exact addMember_accessor hindentation (by simp [accessorPlaces]) (by simp [accessorsOf]) h

lemma addSetter_ok (h : (addSetter d member c).execute w s = (.ok edit, s')) :
    ∃ place ∈ accessorPlaces member c w.settings,
      Declares w c place true (accessorsOf member w.settings) (edit.editsOf d.uri) := by
  obtain ⟨settings, _, hsettings, h⟩ := execute_bind_ok.mp h
  cases hsettings
  by_cases hconst : member.isConst
  · rw [if_pos hconst] at h
    cases h
  split at h
  · cases h
  · exact addMember_accessor hindentation (by simp [accessorPlaces]) (by simp [accessorsOf]) h

/-- Each action first declares an accessor at one of these places; the rest puts in accessors too. -/
lemma accessorActions_ok {g : Text → Position → CodeAction WorkspaceEdit} (hg : g ∈ accessorActions) {uri : Text}
    {p : Position} (h : (g uri p).execute w s = (.ok edit, s')) :
    ∃ d member c s₁, (memberAt uri p).execute w s = (.ok (d, member, c), s₁) ∧
      ∃ place ∈ accessorPlaces member c w.settings,
        Declares w c place true (accessorsOf member w.settings) (edit.editsOf d.uri) := by
  simp only [accessorActions, mem_cons, not_mem_nil, or_false] at hg
  rcases hg with rfl | rfl | rfl
  · obtain ⟨⟨d, member, c⟩, s₁, hmember, h⟩ := execute_bind_ok.mp h
    exact ⟨d, member, c, s₁, hmember, addGetter_ok hindentation h⟩
  · obtain ⟨⟨d, member, c⟩, s₁, hmember, h⟩ := execute_bind_ok.mp h
    exact ⟨d, member, c, s₁, hmember, addSetter_ok hindentation h⟩
  · obtain ⟨⟨d, member, c⟩, s₁, hmember, h⟩ := execute_bind_ok.mp h
    refine ⟨d, member, c, s₁, hmember, ?_⟩
    obtain ⟨settings, _, hsettings, h⟩ := execute_bind_ok.mp h
    cases hsettings
    dsimp only at h
    split at h
    · split at h
      · cases h
      · exact addGetter_ok hindentation h
    split at h
    · cases h
    · exact addSetter_ok hindentation h
    · exact addGetter_ok hindentation h
    · obtain ⟨first, s₂, hgetter, hsetter⟩ := execute_bind_ok.mp h
      obtain ⟨edits, hedits, hdeclares⟩ := addMember_ok hindentation hgetter
      obtain ⟨edits', hedits', hdeclares'⟩ := addMember_ok hindentation hsetter
      rw [hedits', hedits]
      exact ⟨_, by simp [accessorPlaces],
        (hdeclares.mono (by simp [accessorsOf])).append (hdeclares'.mono (by simp [accessorsOf]))⟩

end

lemma placeNextTo_position (child : Entity) (before : Bool) :
    (child.placeNextTo before).position = if before then child.leadingCommentStart else child.trailingCommentEnd := by
  rw [Entity.placeNextTo, apply_ite Placement.position]

/-- The place is at one end of the child with the related name, or it is chosen by access. -/
lemma placeForFunction_cases (hc : c.isClass) (related : Option Text) (anchor : Option Entity) (settings : Settings) :
    let place := c.placeForFunction .isPublic related anchor settings
    (∃ child ∈ c.children, related = some child.name ∧
      (place.position = child.leadingCommentStart ∨ place.position = child.trailingCommentEnd)) ∨
    place = c.placeInAccess .isPublic := by
  unfold Entity.placeForFunction Entity.placeForFunction?
  rw [if_pos hc]
  cases hfound : (related.bind fun name => c.children.reverse.find? (·.name == name)) with
  | none => exact .inr (Option.getD_some ..)
  | some child =>
    obtain ⟨name, rfl, hchild⟩ := Option.bind_eq_some_iff.mp hfound
    have hname : child.name = name := by simpa using find?_some hchild
    refine .inl ⟨child, mem_reverse.mp (mem_of_find?_eq_some hchild), by rw [hname], ?_⟩
    rw [Option.getD_some, placeNextTo_position]
    exact ite_eq_or_eq _ _ _

/-- The accessors that a member has already are public, from their comments on. -/
def PublicAccessors (member c : Entity) (settings : Settings) : Prop :=
  ∀ child ∈ c.children, child.name = member.getterName settings.caseStyle ∨
      child.name = member.setterName settings.caseStyle →
    c.hasAccessAt child.leadingCommentStart .isPublic ∧ c.hasAccessAt child.trailingCommentEnd .isPublic

instance (member c : Entity) (settings : Settings) : Decidable (PublicAccessors member c settings) :=
  inferInstanceAs (Decidable (∀ child ∈ c.children, _))

/-- In an orderly class an accessor that is there already and public leads to a public place. -/
lemma accessorPlaces_reach_nothing {settings : Settings} (hc : c.isClass) (horderly : c.Orderly)
    (hpublic : PublicAccessors member c settings) (hplace : place ∈ accessorPlaces member c settings) :
    c.hasAccessAt place.position .isPublic ∨ ∀ child ∈ c.children, ¬ c.Reaches place.position child := by
  have hrelated : ∃ related anchor, place = c.placeForFunction .isPublic related anchor settings ∧
      ∀ name ∈ related, name = member.getterName settings.caseStyle ∨ name = member.setterName settings.caseStyle := by
    simp only [accessorPlaces, mem_cons, not_mem_nil, or_false] at hplace
    rcases hplace with rfl | rfl | rfl
    all_goals exact ⟨_, _, rfl, by simp⟩
  obtain ⟨related, anchor, rfl, hnames⟩ := hrelated
  rcases placeForFunction_cases hc related anchor settings with ⟨child, hchild, hname, hat⟩ | hat
  · obtain ⟨hleading, htrailing⟩ := hpublic child hchild (hnames child.name hname)
    rcases hat with hat | hat
    · exact .inl (hat ▸ hleading)
    · exact .inl (hat ▸ htrailing)
  · rw [hat]
    exact horderly.placeInAccess

/-- **Which members generated accessors open.** All existing members keep their access if and only if the place was
public, or all members behind it up to the next specifier were. In an orderly class this is so unless the member has an
accessor already that is not public. -/
theorem accessors_keep_access_iff (hindentation : w.settings.IndentsWithBlanks)
    {g : Text → Position → CodeAction WorkspaceEdit} (hg : g ∈ accessorActions)
    {uri : Text} {p : Position} {edit : WorkspaceEdit} (h : (g uri p).execute w s = (.ok edit, s')) :
    ∃ d member c s₁ place front own others,
      (memberAt uri p).execute w s = (.ok (d, member, c), s₁) ∧ place ∈ accessorPlaces member c w.settings ∧
      edit.editsOf d.uri = ⟨⟨place.position, place.position⟩, front ++ own⟩ :: others ∧
      (∃ f ∈ accessorsOf member w.settings, Shows w f own) ∧
      (∀ e ∈ others, e.range.stop = e.range.start ∧ ∃ f ∈ accessorsOf member w.settings, Shows w f e.newText) ∧
      front ++ own <+: (edit.apply d.toTextDocument).text.drop
        (d.offsetAt place.position + d.lengthBefore (edit.editsOf d.uri) (d.offsetAt place.position)) ∧
      (∀ x, (edit.apply d.toTextDocument).text[d.movedOffset (edit.editsOf d.uri) x]? = d.text[x]?) ∧
      let kept := ∀ child ∈ c.children,
        c.accessAfter (edit.editsOf d.uri) place.position (front ++ Mask.all own) child = c.accessOf child
      (kept ↔ c.hasAccessAt place.position .isPublic = true ∨
        ∀ child ∈ c.children, c.Reaches place.position child → c.accessOf child = some .isPublic) ∧
      (c.Orderly → PublicAccessors member c w.settings → kept) := by
  obtain ⟨d, member, c, s₁, hmember, place, hplace, hdeclares⟩ := accessorActions_ok hindentation hg h
  obtain ⟨front, own, others, hedits, hfront, hown, hothers⟩ := hdeclares
  have hinsertions : ∀ e ∈ edit.editsOf d.uri, e.range.stop = e.range.start := by
    rw [hedits]
    exact forall_mem_cons.mpr ⟨rfl, fun e he => (hothers e he).1⟩
  have hiff := Entity.access_kept_iff hfront own others
  rw [← hedits] at hiff
  refine ⟨d, member, c, s₁, place, front, own, others, hmember, hplace, hedits, hown, hothers, ?_,
    d.getElem?_movedOffset hinsertions, hiff, fun horderly hpublic => hiff.mpr ?_⟩
  · rw [hedits] at hinsertions
    rw [WorkspaceEdit.apply, hedits]
    exact d.newText_prefix_drop hinsertions
  · rcases accessorPlaces_reach_nothing (memberAt_ok hmember).2 horderly hpublic hplace with hplace | hplace
    · exact .inl hplace
    · exact .inr fun child hchild hreaches => absurd hreaches (hplace child hchild)

/-! ### Two headers -/

/-- A workspace with one header, in which nothing is linked. -/
def headerWorkspace (d : TextDocument) : Workspace := { source := .bare fun _ => .ok d }

/-- The symbol of a member on a line of its own, with the columns of its name and of its end. -/
def memberSymbol (name : Text) (kind : SymbolKind) (line start stop : Int) : Symbol :=
  ⟨name, name, [], kind, ⟨⟨line, 4⟩, ⟨line, stop⟩⟩, ⟨⟨line, start⟩, ⟨line, start + name.length⟩⟩, []⟩

/-- The state in which the symbols of a header are loaded that holds one class up to the given line. -/
def classLoaded (lastLine : Int) (children : List Symbol) : ActionState :=
  { loaded := [(0, [⟨['A'], ['A'], [], .classType, ⟨⟨0, 0⟩, ⟨lastLine, 1⟩⟩, ⟨⟨0, 6⟩, ⟨0, 7⟩⟩, children⟩])] }

/-- A setter next to a public getter opens nothing. -/
theorem setter_beside_public_getter :
    let d : TextDocument :=
      { uri := "file:///p/a.h"
        text := "class A \x7b\npublic:\n    int getX() const;\nprivate:\n    int x;\n    int y;\n\x7d;\n" }
    let s := classLoaded 6 [memberSymbol "getX" .method 2 8 20, memberSymbol ['x'] .field 4 8 9,
      memberSymbol ['y'] .field 5 8 9]
    ∃ edit s' header member c s₁ place front own others,
      (generateSetter d.uri ⟨4, 8⟩).execute (headerWorkspace d) s = (.ok edit, s') ∧
      (memberAt d.uri ⟨4, 8⟩).execute (headerWorkspace d) s = (.ok (header, member, c), s₁) ∧ c.Orderly ∧
      place ∈ accessorPlaces member c (headerWorkspace d).settings ∧
      edit.editsOf header.uri = ⟨⟨place.position, place.position⟩, front ++ own⟩ :: others ∧
      ∀ child ∈ c.children,
        c.accessAfter (edit.editsOf header.uri) place.position (front ++ Mask.all own) child = c.accessOf child := by
  intro d s
  have hrun : ((generateSetter d.uri ⟨4, 8⟩).execute (headerWorkspace d) s).1.toOption.isSome = true := by
    decide +kernel
  have hclass : ((memberAt d.uri ⟨4, 8⟩).execute (headerWorkspace d) s).1.toOption.all (fun r =>
      decide (r.2.2.Orderly ∧ PublicAccessors r.2.1 r.2.2 (headerWorkspace d).settings)) = true := by
    decide +kernel
  rcases hsetter : (generateSetter d.uri ⟨4, 8⟩).execute (headerWorkspace d) s with ⟨fault | edit, s'⟩
  · rw [hsetter] at hrun
    cases hrun
  · obtain ⟨header, member, c, s₁, place, front, own, others, hmember, hplace, hedits, -, -, -, -, -, hkept⟩ :=
      accessors_keep_access_iff Settings.indentsWithBlanks_standard (by simp [accessorActions]) hsetter
    rw [hmember] at hclass
    obtain ⟨horderly, hpublic⟩ := of_decide_eq_true hclass
    exact ⟨edit, s', header, member, c, s₁, place, front, own, others, rfl, hmember, horderly, hplace, hedits,
      hkept horderly hpublic⟩

/-- A getter next to a private setter opens the setter and what follows it. -/
theorem getter_opens_private_setter :
    let d : TextDocument :=
      { uri := "file:///p/a.h"
        text := "class A \x7b\n    int x;\n    void setX(int v);\n    int y;\n\x7d;\n" }
    let s := classLoaded 4 [memberSymbol ['x'] .field 1 8 9, memberSymbol "setX" .method 2 9 20,
      memberSymbol ['y'] .field 3 8 9]
    let newText := "public:\n    int getX() const \x7b return x; \x7d\n    "
    let edits : List TextEdit := [⟨⟨⟨2, 4⟩, ⟨2, 4⟩⟩, newText⟩]
    let edited := d.withText ("class A \x7b\n    int x;\n    public:\n    int getX() const \x7b return x; \x7d\n" ++
      "    void setX(int v);\n    int y;\n\x7d;\n")
    let s' := classLoaded 6 [memberSymbol ['x'] .field 1 8 9, memberSymbol "getX" .method 3 8 34,
      memberSymbol "setX" .method 4 9 20, memberSymbol ['y'] .field 5 8 9]
    let accesses (d : TextDocument) (s : ActionState) :=
      ((memberAt d.uri ⟨1, 8⟩).execute (headerWorkspace d) s).1.toOption.map fun r =>
        r.2.2.children.map fun child => (child.name, r.2.2.accessOf child)
    ((generateGetter d.uri ⟨1, 8⟩).execute (headerWorkspace d) s).1.toOption.map (·.editsOf d.uri) = some edits ∧
      d.applyEdits edits = edited ∧
      accesses d s = some [(['x'], some .isPrivate), ("setX", some .isPrivate), (['y'], some .isPrivate)] ∧
      accesses edited s' = some [(['x'], some .isPrivate), ("getX", some .isPublic),
        ("setX", some .isPublic), (['y'], some .isPublic)] := by
  intro d s newText edits edited s' accesses
  refine ⟨by decide +kernel, ?_, by decide +kernel, by decide +kernel⟩
  have hplaced : d.placeEdits edits = [⟨d.offsetAt ⟨2, 4⟩, d.offsetAt ⟨2, 4⟩, 0, newText⟩] := rfl
  rw [TextDocument.applyEdits, hplaced, List.mergeSort_singleton]
  decide +kernel

end CodeAction

end CppScaffold
