import CppScaffold.CodeAction.Move
import CppScaffold.Proofs.Actions
import CppScaffold.Proofs.Recognizers
import CppScaffold.Proofs.Trimming

/-!
# The body of a definition that moves

A definition that moves gets other indentation and line breaks, so the visible characters of its body come through
every move.
-/

namespace CppScaffold

open Text Action Recognizer List OpenDocument

namespace Text

/-- The characters of a text that are no blanks. -/
def visible (t : Text) : Text := t.filter (!isBlank ·)

lemma visible_append (s t : Text) : visible (s ++ t) = visible s ++ visible t := filter_append ..

lemma visible_cons (c : Char) (t : Text) : visible (c :: t) = visible [c] ++ visible t := visible_append [c] t

lemma visible_eq_nil {t : Text} (h : ∀ c ∈ t, isBlank c) : visible t = [] := by
  simpa [visible] using h

lemma visible_cons_of_blank {c : Char} (h : isBlank c) (t : Text) : visible (c :: t) = visible t :=
  filter_cons_of_neg (by simp [h])

lemma visible_drop_of_isPrefixOf {part rest : Text} {c : Char} (hne : part.isEmpty = false)
    (h : part.isPrefixOf (c :: rest)) :
    visible part ++ visible (rest.drop (part.length - 1)) = visible (c :: rest) := by
  obtain ⟨d, part, rfl⟩ := exists_cons_of_ne_nil (isEmpty_eq_false_iff.mp hne)
  obtain ⟨more, hmore⟩ := isPrefixOf_iff_prefix.mp h
  rw [cons_append] at hmore
  obtain ⟨rfl, rfl⟩ := cons_eq_cons.mp hmore
  rw [← visible_append, length_cons, Nat.add_sub_cancel, drop_left, cons_append]

/-! ## Reindenting -/

variable {old new : Text}

lemma visible_replaceLineStartsFrom (hold : visible old = []) (hnew : visible new = []) (prev : Option Char)
    (skip : Nat) (t : Text) : visible (replaceLineStartsFrom old new prev skip t) = visible (t.drop skip) := by
  induction t generalizing prev skip with
  | nil => rw [replaceLineStartsFrom, drop_nil]
  | cons c rest ih =>
    cases skip with
    | succ skip => exact ih _ _
    | zero =>
      rw [replaceLineStartsFrom]
      split
      next hstart =>
        simp only [Bool.and_eq_true, Bool.not_eq_true'] at hstart
        rw [visible_append, ih, hnew, ← hold, visible_drop_of_isPrefixOf hstart.1.2 hstart.2, drop_zero]
      next => rw [visible_cons, ih, drop_zero, drop_zero, ← visible_cons]

/-! ## Other blanks -/

/-- A text has other blanks than another one, but none that divide a word; `within` tells that a word has begun. -/
inductive Respaced : Bool → Text → Text → Prop
  | nil {within : Bool} : Respaced within [] []
  | keep {within : Bool} {c : Char} {t t' : Text} : Respaced (!isBlank c) t t' → Respaced within (c :: t) (c :: t')
  | skip {within : Bool} {c : Char} {t t' : Text} : isBlank c → Respaced false t t' → Respaced within (c :: t) t'
  | add {c : Char} {t t' : Text} : isBlank c → Respaced false t t' → Respaced false t (c :: t')

namespace Respaced

variable {within : Bool} {t t' b word : Text}

lemma visible_eq (h : Respaced within t t') : visible t' = visible t := by
  induction h with
  | nil => rfl
  | keep _ ih => rw [visible_cons, ih, ← visible_cons]
  | skip hc _ ih => rw [visible_cons_of_blank hc, ih]
  | add hc _ ih => rw [visible_cons_of_blank hc, ih]

lemma addAll (hb : visible b = []) (h : Respaced false t t') : Respaced false t (b ++ t') := by
  induction b with
  | nil => exact h
  | cons c b ih =>
    simp only [visible, filter_eq_nil_iff, forall_mem_cons] at hb ih
    exact .add (by simpa using hb.1) (ih hb.2)

/-- The first word stays whole. -/
lemma prefix_dropWhile (h : Respaced within t t') (hword : ∀ c ∈ word, isBlank c = false) :
    (within → word <+: t → word <+: t') ∧ (word <+: t.dropWhile isBlank → word <+: t'.dropWhile isBlank) := by
  induction h generalizing word with
  | nil => exact ⟨fun _ => id, id⟩
  | @keep within c t t' _ ih =>
    have hcopy : isBlank c = false → word <+: c :: t → word <+: c :: t' := by
      intro hc hstart
      cases word with
      | nil => exact nil_prefix
      | cons d word =>
        obtain ⟨rfl, hrest⟩ := cons_prefix_cons.mp hstart
        exact cons_prefix_cons.mpr ⟨rfl, (ih (forall_mem_cons.mp hword).2).1 (by simp [hc]) hrest⟩
    refine ⟨fun _ hstart => ?_, fun hstart => ?_⟩
    · cases word with
      | nil => exact nil_prefix
      | cons d word => exact hcopy ((cons_prefix_cons.mp hstart).1 ▸ hword d mem_cons_self) hstart
    · by_cases hc : isBlank c
      · rw [dropWhile_cons_of_pos hc] at hstart ⊢
        exact (ih hword).2 hstart
      · rw [dropWhile_cons_of_neg hc] at hstart ⊢
        exact hcopy (by simpa using hc) hstart
  | @skip within c t t' hc _ ih =>
    refine ⟨fun _ hstart => ?_, fun hstart => (ih hword).2 ?_⟩
    · cases word with
      | nil => exact nil_prefix
      | cons d word =>
        have hd := hword d mem_cons_self
        rw [(cons_prefix_cons.mp hstart).1, hc] at hd
        cases hd
    · rwa [dropWhile_cons_of_pos hc] at hstart
  | add hc _ ih => exact ⟨by simp, fun hstart => by rw [dropWhile_cons_of_pos hc]; exact (ih hword).2 hstart⟩

end Respaced

/-- A text has the visible characters of another one, and its first word stays whole. -/
def SameWords (t t' : Text) : Prop :=
  visible t' = visible t ∧ ∀ word, (∀ c ∈ word, isBlank c = false) → word <+: t.dropWhile isBlank →
    word <+: t'.dropWhile isBlank

namespace SameWords

variable {t t' t'' : Text}

lemma refl (t : Text) : SameWords t t := ⟨rfl, fun _ _ => id⟩

lemma trans (h : SameWords t t') (h' : SameWords t' t'') : SameWords t t'' :=
  ⟨h'.1.trans h.1, fun word hword hstart => h'.2 word hword (h.2 word hword hstart)⟩

lemma ite {p : Prop} {_ : Decidable p} (h : SameWords t t') (h' : SameWords t t'') : SameWords t (if p then t' else t'') := by
  split
  · exact h
  · exact h'

lemma blank_append {b : Text} (hb : visible b = []) (t : Text) : SameWords t (b ++ t) := by
  refine ⟨by rw [visible_append, hb, nil_append], fun word _ hstart => ?_⟩
  rwa [dropWhile_append_of_pos fun c hc => by simpa using filter_eq_nil_iff.mp hb c hc]

lemma append_blank {b : Text} (hb : visible b = []) (t : Text) : SameWords t (t ++ b) := by
  refine ⟨by rw [visible_append, hb, append_nil], fun word _ hstart => ?_⟩
  rw [dropWhile_append]
  split
  next hnil =>
    rw [isEmpty_iff.mp hnil, prefix_nil] at hstart
    exact hstart ▸ nil_prefix
  next => exact hstart.trans (prefix_append ..)

end SameWords

lemma Respaced.sameWords {within : Bool} {t t' : Text} (h : Respaced within t t') : SameWords t t' :=
  ⟨h.visible_eq, fun _ hword => (h.prefix_dropWhile hword).2⟩

end Text

namespace Template

variable {t : Text}

lemma pieces_eq (h : '\\' ∉ t) : pieces t = t.map fun c => [c] := by
  fun_induction pieces t with
  | case1 => rfl
  | case2 c rest ih => simp at h
  | case3 c rest hform ih => rw [ih fun hmem => h (mem_cons_of_mem c hmem), map_cons]

lemma checkNext_of_notMem (h : '\\' ∉ t) (offset : Nat) : checkNext offset (t.map fun c => [c]) = .ok () := by
  rw [checkNext, if_neg]
  cases t with
  | nil => simp
  | cons c rest =>
    simp only [map_cons, head?_cons, beq_iff_eq, Option.some.injEq, cons.injEq, and_true]
    rintro rfl
    exact h mem_cons_self

lemma expandFrom_eq (h : '\\' ∉ t) (offset : Nat) : expandFrom offset 0 (t.map fun c => [c]) = .ok t := by
  induction t generalizing offset with
  | nil => rfl
  | cons c rest ih =>
    have hrest : '\\' ∉ rest := fun hmem => h (mem_cons_of_mem c hmem)
    rw [map_cons, expandFrom, checkNext_of_notMem hrest]
    simp only [bind, Except.bind, ih hrest]
    rfl

lemma expand_eq (h : '\\' ∉ t) : expand t = .ok t := by
  rw [expand, pieces_eq h]
  simp only [checkNext_of_notMem h, expandFrom_eq h]

end Template

lemma TextDocument.visible_eol (d : TextDocument) : visible d.eol = [] := by
  rw [eol]
  split <;> decide

namespace Placement

lemma respaced_convertBreaks {eol : Text} (heol : visible eol = []) (within : Bool) (t : Text) :
    Respaced within t (convertBreaks eol t) := by
  fun_induction convertBreaks eol t generalizing within with
  | case1 => exact .nil
  | case2 rest ih => exact .skip rfl (.skip rfl ((ih false).addAll heol))
  | case3 c rest hform hc ih =>
    obtain rfl := eq_of_beq hc
    exact .skip rfl ((ih false).addAll heol)
  | case4 c rest hform hc ih => exact .keep (ih _)

/-- A line does not begin within a word. -/
lemma respaced_indentLinesFrom {lead : Text} (hlead : visible lead = []) (prev : Option Char) (t : Text) :
    Respaced (prev.any (!isBlank ·)) t (indentLinesFrom lead prev t) := by
  induction t generalizing prev with
  | nil => exact .nil
  | cons c rest ih =>
    have hkeep {within : Bool} : Respaced within (c :: rest) (c :: indentLinesFrom lead (some c) rest) := .keep (ih (some c))
    rw [indentLinesFrom]
    split
    next hstart =>
      have hbetween : prev.any (!isBlank ·) = false := by
        cases prev with
        | none => rfl
        | some d =>
          simp only [Option.isNone_some, Bool.false_or, Bool.and_eq_true, beq_iff_eq, Option.some.injEq] at hstart
          rw [hstart.1]
          rfl
      rw [hbetween]
      exact hkeep.addAll hlead
    next => exact hkeep

lemma respaced_replace_feed {lead : Text} (hlead : visible lead = []) (within : Bool) (t : Text) :
    Respaced within t (replaceFrom ['\n'] ('\n' :: lead) 0 t) := by
  induction t generalizing within with
  | nil => exact .nil
  | cons c rest ih =>
    rw [replaceFrom]
    split
    next hfeed =>
      have hc : '\n' = c := by simpa [isPrefixOf] using hfeed
      exact hc ▸ .keep ((ih _).addAll hlead)
    next => exact .keep (ih _)

lemma respaced_removeAll_specifierIndent {indentation : Text} (h : visible indentation = []) (within : Bool)
    (prev : Option Char) (t : Text) (skip : Nat) (hskip : ∀ c ∈ t.take skip, isBlank c) :
    Respaced within t (replaceAllFrom (specifierIndent indentation) (fun _ => []) prev skip t) := by
  induction t generalizing within prev skip with
  | nil => exact .nil
  | cons c rest ih =>
    cases skip with
    | succ skip =>
      rw [take_succ_cons, forall_mem_cons] at hskip
      exact .skip hskip.1 (ih _ _ _ hskip.2)
    | zero =>
      rw [replaceAllFrom]
      split
      next n hn =>
        rw [specifierIndent, andThen_eq_some_iff] at hn
        obtain ⟨a, b, hindent, hspecifier, hlength⟩ := hn
        obtain ⟨hstart, rfl⟩ := exactly_eq_some_iff.mp hindent
        have hb := (ahead_eq_some_iff.mp hspecifier).2
        have hblank : ∀ d ∈ (c :: rest).take (n + 1), isBlank d := by
          rw [show n + 1 = _ from hlength, hb, Nat.add_zero, ← prefix_iff_eq_take.mp hstart]
          exact fun d hd => by simpa using filter_eq_nil_iff.mp h d hd
        rw [take_succ_cons, forall_mem_cons] at hblank
        exact .skip hblank.1 (ih _ _ _ hblank.2)
      next => exact .keep (ih _ _ _ (by simp))

lemma visible_indentation (l : TextLine) : visible l.indentation = [] :=
  visible_eq_nil fun _ hc => mem_takeWhile_imp hc

/-- Formatting a text for its place adds and removes blanks only, and none within its first word. -/
lemma sameWords_format (p : Placement) (t : Text) (d : TextDocument) {level indentation : Text}
    (hlevel : visible level = []) (hindentation : visible indentation = []) (indentNamespaceBody : Bool) :
    SameWords t (p.format t d level indentation indentNamespaceBody) := by
  have heol := d.visible_eol
  have hlead := visible_indentation (d.lineAt ((p.relativeTo.map (·.start)).getD p.position).line)
  have hgap : visible (if p.nextTo || p.isCrowded d then d.eol else d.eol ++ d.eol) = [] := by
    rw [apply_ite visible, visible_append, heol]
    exact ite_self _
  have hindent {lead : Text} (h : visible lead = []) (t : Text) : SameWords t (indentLines lead t) :=
    (respaced_indentLinesFrom h none t).sameWords
  -- the passes, from the last one back to the first
  refine .trans ?_ (.ite (.append_blank hlead _) (.refl _))
  refine .trans ?_ (.ite (.append_blank heol _) (.refl _))
  refine .trans ?_ (.ite (.blank_append hgap _) (.ite (.append_blank hgap _) (.refl _)))
  refine .trans ?_ (.ite (.refl _)
    (respaced_removeAll_specifierIndent hindentation false none _ 0 (by simp)).sameWords)
  refine .trans ?_ (.ite (respaced_replace_feed hlead false _).sameWords (hindent hlead _))
  refine .trans ?_ (.ite (hindent hlevel _) (.refl _))
  exact .ite (respaced_convertBreaks heol false t).sameWords (.refl t)

lemma sameWords_formatWith {p : Placement} {t out : Text} {d : TextDocument} {indentation : Json} {inNamespace : Bool}
    (h : p.formatWith t d indentation inNamespace = .ok out)
    (hindentation : ∀ text, indentation = .str text → visible text = []) : SameWords t out := by
  unfold formatWith at h
  split at h
  next text =>
    have hblank := hindentation text rfl
    have hexpand : Template.expand text = .ok text :=
      Template.expand_eq fun hmem => by
        have hvisible : '\\' ∈ visible text := mem_filter.mpr ⟨hmem, by decide⟩
        rw [hblank] at hvisible
        cases hvisible
    rw [hexpand] at h
    have hout : p.format t d text text inNamespace = out := by split at h <;> exact Except.ok.inj h
    rw [← hout]
    exact sameWords_format p t d hblank hblank inNamespace
  next =>
    split at h
    · obtain rfl := Except.ok.inj h
      exact sameWords_format p t d rfl rfl inNamespace
    · cases h

end Placement

lemma Settings.visible_spaces {n : Int} {t : Text} (h : spaces n = .ok t) : visible t = [] := by
  unfold spaces at h
  split at h
  · cases h
  · split at h
    · cases h
    · obtain rfl := Except.ok.inj h
      refine visible_eq_nil fun c hc => ?_
      rw [eq_of_mem_replicate hc]
      decide

/-- The indentation is white space if it is configured as a text. -/
def Settings.IndentsWithBlanks (s : Settings) : Prop := ∀ t, s.value "indentation" = .str t → isAllBlank t

lemma Settings.visible_indentation {s : Settings} (h : s.IndentsWithBlanks) {t : Text}
    (ht : s.indentation = .ok (.str t)) : visible t = [] := by
  unfold indentation at ht
  split at ht
  next i _ =>
    obtain ⟨spaces, hspaces, ht⟩ := exists_ok_of_bind ht
    obtain rfl : spaces = t := by injection Except.ok.inj ht
    exact visible_spaces hspaces
  next b _ =>
    have ht : (if b then [' '] else []) = t := by injection Except.ok.inj ht
    rw [← ht]
    cases b <;> decide
  next hvalue => exact visible_eq_nil (all_eq_true.mp (h t (Except.ok.inj ht)))

lemma Settings.indentsWithBlanks_standard : Settings.standard.IndentsWithBlanks := by
  rintro t h
  cases h
  decide

namespace OpenDocument

open CodeAction

variable {w : Workspace} {s s' : ActionState}

lemma sameWords_formatAt (hindentation : w.settings.IndentsWithBlanks) {d : OpenDocument} {t out : Text} {p : Placement}
    (h : (d.formatAt t p).execute w s = (.ok out, s')) : SameWords t out := by
  simp only [formatAt, execute_bind_ok] at h
  obtain ⟨_, _, hsettings, indentation, _, hvalue, h⟩ := h
  cases hsettings
  refine Placement.sameWords_formatWith (Prod.mk.inj h).1 fun text heq => ?_
  subst heq
  exact Settings.visible_indentation hindentation (Prod.mk.inj hvalue).1

end OpenDocument

namespace Entity

open CodeAction

variable {w : Workspace} {s s' : ActionState}

lemma visible_removeIndentation (e : Entity) (t : Text) : visible (e.removeIndentation t) = visible t :=
  visible_replaceLineStartsFrom (Placement.visible_indentation _) rfl none 0 t

lemma visible_indentContinuation {lead : Text} (hlead : visible lead = []) (t : Text) :
    visible (indentContinuation lead t) = visible t := by
  induction t with
  | nil => rfl
  | cons c rest ih =>
    rw [indentContinuation]
    split
    · rw [cons_append, visible_cons, visible_append, hlead, ih, nil_append, ← visible_cons]
    · rw [visible_cons, ih, ← visible_cons]

lemma visible_bodyText_of_definitionAt {e : Entity} {target : OpenDocument} {p : Position} {declaration : Option Entity}
    {mayBeInline : Bool} {t : Text} (h : (e.definitionAt target p declaration mayBeInline).execute w s = (.ok t, s')) :
    visible e.bodyText <:+ visible t := by
  simp only [definitionAt, execute_bind_ok] at h
  obtain ⟨_, _, -, _, _, -, _, _, -, h⟩ := h
  cases h
  rw [visible_append, visible_removeIndentation]
  exact suffix_append ..

lemma visible_bodyText_of_withBodyOf (e definition : Entity) :
    visible definition.bodyText <:+ visible (e.withBodyOf definition) := by
  have hbody : visible (indentContinuation (e.document.lineAt e.range.start.line).indentation
      (definition.removeIndentation definition.bodyText)) = visible definition.bodyText := by
    rw [visible_indentContinuation (Placement.visible_indentation _), visible_removeIndentation]
  rw [withBodyOf]
  split
  all_goals
    rw [visible_append, hbody]
    exact suffix_append ..

end Entity

namespace CodeAction

variable {w : Workspace} {s s' : ActionState} {uri : Text} {edit : WorkspaceEdit}

/-- A definition is written to a new place with all of its body, and something of its own document is replaced. -/
def MovesBody (definition : Entity) (uri : Text) (edit : WorkspaceEdit) : Prop :=
  ∃ target range text vacated left, edit = (WorkspaceEdit.replace {} target range text).replace uri vacated left ∧
    visible definition.bodyText <:+ visible text

/-- The definition at a position of a document is moved. -/
def MovesFound (w : Workspace) (s : ActionState) (uri : Text) (p : Position) (edit : WorkspaceEdit) : Prop :=
  ∃ d s₁ s₂ definition, (openDocument uri).execute w s = (.ok d, s₁) ∧
    (d.entityAt? p).execute w s₁ = (.ok (some definition), s₂) ∧ definition.isFunctionDefinition ∧
    MovesBody definition uri edit

section

variable (hindentation : w.settings.IndentsWithBlanks)

include hindentation

/-- What is formatted for its place keeps the body that it ends with. -/
lemma visible_bodyText_of_formatAt {definition : Entity} {target d : OpenDocument} {p : Position}
    {declaration : Option Entity} {mayBeInline : Bool} {text inserted : Text} {place : Placement}
    {s₁ s₁' s₂ s₂' : ActionState} (front : Text)
    (htext : (definition.definitionAt target p declaration mayBeInline).execute w s₁ = (.ok text, s₁'))
    (hinserted : (d.formatAt (front ++ text) place).execute w s₂ = (.ok inserted, s₂')) :
    visible definition.bodyText <:+ visible inserted := by
  rw [(sameWords_formatAt hindentation hinserted).1, visible_append]
  exact (Entity.visible_bodyText_of_definitionAt htext).trans (suffix_append ..)

lemma movesBody_of_moveOutOfClass {d : OpenDocument} {definition : Entity}
    (h : (moveOutOfClass uri d definition).execute w s = (.ok edit, s')) : MovesBody definition uri edit := by
  simp only [moveOutOfClass, execute_bind_ok] at h
  obtain ⟨place, _, -, text, _, htext, inserted, _, hinserted, _, _, -, h⟩ := h
  cases h
  exact ⟨_, _, inserted, _, _, rfl, visible_bodyText_of_formatAt hindentation [] htext hinserted⟩

lemma movesBody_of_moveIntoClass {d : OpenDocument} {definition : Entity} {access : Text}
    (h : (moveIntoClass uri d definition access).execute w s = (.ok edit, s')) : MovesBody definition uri edit := by
  rw [moveIntoClass, execute_bind_ok] at h
  obtain ⟨parent, _, -, h⟩ := h
  cases parent with
  | none => cases h
  | some c =>
    simp only [execute_bind_ok, withSpecifier] at h
    obtain ⟨level, _, -, place, _, -, text, _, htext, inserted, _, hinserted, h⟩ := h
    cases h
    refine ⟨_, _, inserted, _, _, rfl, ?_⟩
    split at hinserted
    · exact visible_bodyText_of_formatAt hindentation [] htext hinserted
    · exact visible_bodyText_of_formatAt hindentation _ htext hinserted

lemma moveToPartner_ok {p : Position} (h : (moveToPartner uri p).execute w s = (.ok edit, s')) :
    MovesFound w s uri p edit := by
  simp only [moveToPartner, execute_bind_ok] at h
  obtain ⟨d, s₁, hopened, found, s₂, hfound, partner, _, -, h⟩ := h
  cases hdefinition : found.filter (·.isFunctionDefinition) with
  | none => simp [hdefinition] at h
  | some definition =>
    obtain ⟨rfl, hbody⟩ := Option.filter_eq_some_iff.mp hdefinition
    refine ⟨d, s₁, s₂, definition, hopened, hfound, hbody, ?_⟩
    rw [hdefinition] at h
    cases partner with
    | none => cases h
    | some partner =>
      simp only [execute_bind_ok] at h
      obtain ⟨_, _, -, target, _, -, declaration, _, -, place, _, -, text, _, htext, inserted, _, hinserted, h⟩ := h
      have hkept := visible_bodyText_of_formatAt hindentation [] htext hinserted
      obtain ⟨leaves, _, -, h⟩ := execute_ite_bind_ok.mp h
      cases leaves with
      | false =>
        cases h
        exact ⟨_, _, inserted, _, _, rfl, hkept⟩
      | true =>
        obtain ⟨_, _, -, h⟩ := execute_bind_ok.mp h
        cases h
        exact ⟨_, _, inserted, _, _, rfl, hkept⟩

lemma moveAcrossClass_ok {p : Position} {access : Text}
    (h : (moveAcrossClass uri p access).execute w s = (.ok edit, s')) : MovesFound w s uri p edit := by
  simp only [moveAcrossClass, execute_bind_ok] at h
  obtain ⟨d, s₁, hopened, found, s₂, hfound, h⟩ := h
  cases hdefinition : found.filter (·.isFunctionDefinition) with
  | none => simp [hdefinition] at h
  | some definition =>
    obtain ⟨rfl, hbody⟩ := Option.filter_eq_some_iff.mp hdefinition
    refine ⟨d, s₁, s₂, definition, hopened, hfound, hbody, ?_⟩
    rw [hdefinition] at h
    dsimp only at h
    split at h
    · exact movesBody_of_moveOutOfClass hindentation h
    · obtain ⟨declaration, _, -, h⟩ := execute_bind_ok.mp h
      split at h
      next e _ =>
        cases h
        exact ⟨e.uri, e.fullRange, _, _, _, rfl, Entity.visible_bodyText_of_withBodyOf e definition⟩
      next => exact movesBody_of_moveIntoClass hindentation h

end

/-- **Moved bodies.** With whitespace for indentation, the visible characters of what a move writes end with those of
the definition from the end of its declaration on. -/
theorem moveDefinition_keeps_body {destination access : Text} {p : Position}
    (hindentation : w.settings.IndentsWithBlanks)
    (h : (moveDefinition destination uri p access).execute w s = (.ok edit, s')) :
    ∃ d s₁ s₂ definition, (openDocument uri).execute w s = (.ok d, s₁) ∧
      (d.entityAt? p).execute w s₁ = (.ok (some definition), s₂) ∧ definition.isFunctionDefinition = true ∧
      ∃ target range text vacated left, edit = (WorkspaceEdit.replace {} target range text).replace uri vacated left ∧
        visible (d.getText ⟨definition.declarationEnd, definition.range.stop⟩) <:+ visible text := by
  suffices hmoved : MovesFound w s uri p edit by
    obtain ⟨d, s₁, s₂, definition, hopened, hfound, hdefinition, hbody⟩ := hmoved
    obtain rfl := OpenDocument.document_of_entityAt? hfound
    exact ⟨_, s₁, s₂, definition, hopened, hfound, hdefinition, hbody⟩
  rw [moveDefinition] at h
  split at h
  · exact moveToPartner_ok hindentation h
  · split at h
    · exact moveAcrossClass_ok hindentation h
    · simp at h

/-! ### A definition that moves into its class -/

/-- The method that is declared in the class. -/
def memberDeclaration : Symbol := ⟨"f", "f", [], .method, ⟨⟨1, 2⟩, ⟨1, 10⟩⟩, ⟨⟨1, 7⟩, ⟨1, 8⟩⟩, []⟩

def declaringClass : Symbol := ⟨"A", "A", [], .struct, ⟨⟨0, 0⟩, ⟨2, 1⟩⟩, ⟨⟨0, 7⟩, ⟨0, 8⟩⟩, [memberDeclaration]⟩

/-- The definition, which is indented by a tab. -/
def definitionOutside : Entity where
  document := { uri := "file:///p/a.h", text := "struct A \x7b\n  void f();\n\x7d;\n\n\tvoid A::f() \x7b\n\t\tg();\n\t\x7d\n",
                opening := 0 }
  node := ⟨⟨"f", "f", [], .method, ⟨⟨4, 1⟩, ⟨6, 2⟩⟩, ⟨⟨4, 9⟩, ⟨4, 10⟩⟩, []⟩, []⟩

def outsideWorkspace : Workspace where
  source := { SymbolSource.bare fun _ => .ok definitionOutside.document.toTextDocument with
    declarations := fun uri _ => .ok [.plain ⟨uri, memberDeclaration.selection⟩] }

/-- The body is written into the class with its own indentation, without the one of the definition. -/
theorem moveDefinition_keeps_body_outside :
    let s : ActionState := { loaded := [(0, [declaringClass, definitionOutside.symbol])] }
    outsideWorkspace.settings.IndentsWithBlanks ∧
    ∃ edit s', (moveDefinition "class" definitionOutside.uri ⟨4, 9⟩ "public").execute outsideWorkspace s = (.ok edit, s') ∧
      ∃ target range text vacated left,
        edit = (WorkspaceEdit.replace {} target range text).replace definitionOutside.uri vacated left ∧
        "\x7bg();\x7d" <:+ visible text := by
  intro s
  have hindentation : outsideWorkspace.settings.IndentsWithBlanks := Settings.indentsWithBlanks_standard
  obtain ⟨edit, hedit, -⟩ := @exists_ok_of_any _ ((moveDefinition "class" definitionOutside.uri ⟨4, 9⟩ "public").execute
    outsideWorkspace s).1 (fun _ => true) (by decide +kernel)
  obtain ⟨s', hrun⟩ := exists_run_of_fst hedit
  obtain ⟨d, s₁, s₂, definition, hd, hdefinition, -, hbody⟩ := moveDefinition_keeps_body hindentation hrun
  cases hd
  obtain rfl : definitionOutside = definition := Option.some.inj (Except.ok.inj (Prod.mk.inj hdefinition).1)
  have hliteral : visible (definitionOutside.document.getText ⟨definitionOutside.declarationEnd,
      definitionOutside.range.stop⟩) = "\x7bg();\x7d" := by decide +kernel
  exact ⟨hindentation, edit, s', hrun, hliteral ▸ hbody⟩

end CodeAction

end CppScaffold
