import CppScaffold.CodeAction.Signature
import CppScaffold.Proofs.Heads

/-!
# The edits of a signature

The edits of a signature are found independently. Specifiers put in or removed never disturb each other; what remains
is whether the rewritten parts are apart and hold no removed specifier.
-/

namespace CppScaffold

open Text Action Recognizer List Signature WorkspaceEdit OpenDocument

namespace WorkspaceEdit

def rangesOf (w : WorkspaceEdit) (uri : Text) : List Range := (w.editsOf uri).map (·.range)

lemma rangesOf_replace (w : WorkspaceEdit) (uri : Text) (r : Range) (text : Text) :
    (w.replace uri r text).rangesOf uri = w.rangesOf uri ++ [r] := by
  rw [rangesOf, rangesOf, editsOf_replace, map_append]
  rfl

lemma rangesOf_ite_replace (c : Bool) (w : WorkspaceEdit) (uri : Text) (r : Range) (text : Text) :
    (if c then w else w.replace uri r text).rangesOf uri = w.rangesOf uri ++ if c then [] else [r] := by
  cases c
  · exact rangesOf_replace ..
  · exact (append_nil _).symm

end WorkspaceEdit

namespace SignatureUpdate

/-! ## Which ranges are edited -/

variable (current linked : Signature) (d : TextDocument)

/-- The parts of the linked signature that are written anew, because they differ. -/
def rewrittenParts : List Range :=
  (if current.normalizedReturnType == linked.normalizedReturnType then [] else [linked.returnRange])
    ++ (if current.parameters.typesAreEqual linked.parameters then [] else [linked.parameters.range])
    ++ (if trailingText current linked (d.getText linked.trailingRange) == d.getText linked.trailingRange then []
      else [linked.trailingRange])

/-- Where a specifier is put in that the linked signature lacks. -/
def insertedSpecifier (wanted present : Bool) : List Range :=
  if wanted && !present then [⟨linked.range.start, linked.range.start⟩] else []

/-- Where a specifier is removed that the linked signature should not have, with the blanks after it. -/
def removedSpecifier (name : String) (wanted present : Bool) : List Range :=
  if present && !wanted then
    match search? (andThen (word name.toList) (many isSpaceOrTab)) (Mask.comments (d.getText linked.range) true) with
    | some s => [d.rangeAt (d.offsetAt linked.range.start + s.start) (d.offsetAt linked.range.start + s.stop)]
    | none => []
  else []

def insertedSpecifiers : List Range :=
  insertedSpecifier linked current.isConstexpr linked.isConstexpr
    ++ insertedSpecifier linked current.isConsteval linked.isConsteval

def removedSpecifiers : List Range :=
  removedSpecifier linked d "constexpr" current.isConstexpr linked.isConstexpr
    ++ removedSpecifier linked d "consteval" current.isConsteval linked.isConsteval

variable {current linked d}

lemma rangesOf_leadingSpecifier (name : String) (wanted present : Bool) (edit : WorkspaceEdit) :
    (leadingSpecifier name wanted present linked d edit).rangesOf d.uri = edit.rangesOf d.uri ++
      (insertedSpecifier linked wanted present ++ removedSpecifier linked d name wanted present) := by
  unfold leadingSpecifier insertedSpecifier removedSpecifier
  cases wanted <;> cases present
  · simp
  · simp only [Bool.false_and, Bool.false_eq_true, if_false, Bool.true_and, Bool.not_false, if_true, nil_append]
    generalize search? (andThen (word name.toList) (many isSpaceOrTab)) _ = found
    cases found with
    | none => rw [append_nil]
    | some s => exact WorkspaceEdit.rangesOf_replace _ _ _ _
  · simp [WorkspaceEdit.insert, WorkspaceEdit.rangesOf_replace]
  · simp

/-- Every edit of the linked document rewrites a part, or puts in or removes a specifier. -/
lemma rangesOf_edits_perm : ((edits current linked d).rangesOf d.uri).Perm
    (rewrittenParts current linked d ++ (insertedSpecifiers current linked ++ removedSpecifiers current linked d)) := by
  rw [edits, trailing, rangesOf_ite_replace, rangesOf_leadingSpecifier, rangesOf_leadingSpecifier, parameters,
    rangesOf_ite_replace, returnType, rangesOf_ite_replace, rewrittenParts, insertedSpecifiers, removedSpecifiers]
  -- the specifiers stand between the parameters and the qualifiers
  refine perm_iff_count.mpr fun r => ?_
  simp only [count_append, show ({} : WorkspaceEdit).rangesOf d.uri = [] from rfl, count_nil]
  omega

/-! ## Which edits are apart -/

lemma rewrittenParts_sublist : (rewrittenParts current linked d).Sublist linked.parts := by
  have hpart : ∀ (b : Bool) (r : Range), (if b then [] else [r]).Sublist [r] := by
    intro b r
    cases b
    · exact List.Sublist.refl _
    · exact nil_sublist _
  exact ((hpart _ _).append (hpart _ _)).append (hpart _ _)

variable {r : Range} {e : Entity}

lemma eq_of_mem_insertedSpecifiers (h : r ∈ insertedSpecifiers current linked) :
    r = ⟨linked.range.start, linked.range.start⟩ := by
  have hone : ∀ wanted present, r ∈ insertedSpecifier linked wanted present →
      r = ⟨linked.range.start, linked.range.start⟩ := by
    intro wanted present hr
    unfold insertedSpecifier at hr
    split at hr
    · exact mem_singleton.mp hr
    · simp at hr
  rcases mem_append.mp h with h | h
  · exact hone _ _ h
  · exact hone _ _ h

variable (linked d) in
lemma removedSpecifier_eq_nil_or (name : String) (wanted present : Bool) :
    removedSpecifier linked d name wanted present = [] ∨
      ∃ s, search? (andThen (word name.toList) (many isSpaceOrTab)) (Mask.comments (d.getText linked.range) true) = some s ∧
        removedSpecifier linked d name wanted present =
          [d.rangeAt (d.offsetAt linked.range.start + s.start) (d.offsetAt linked.range.start + s.stop)] := by
  unfold removedSpecifier
  split
  · split
    next s hs => exact Or.inr ⟨s, hs, rfl⟩
    next => exact Or.inl rfl
  · exact Or.inl rfl

lemma mem_removedSpecifier {name : String} {wanted present : Bool}
    (h : r ∈ removedSpecifier linked d name wanted present) :
    ∃ s, search? (andThen (word name.toList) (many isSpaceOrTab)) (Mask.comments (d.getText linked.range) true) = some s ∧
      r = d.rangeAt (d.offsetAt linked.range.start + s.start) (d.offsetAt linked.range.start + s.stop) := by
  rcases removedSpecifier_eq_nil_or linked d name wanted present with hnil | ⟨s, hs, heq⟩
  · simp [hnil] at h
  · rw [heq] at h
    exact ⟨s, hs, mem_singleton.mp h⟩

/-- A specifier that is removed begins in the head, and does not end before it begins. -/
lemma removedSpecifiers_in_head (h : r ∈ removedSpecifiers current linked d) :
    d.offsetAt linked.range.start ≤ d.offsetAt r.start ∧ d.offsetAt r.start ≤ d.offsetAt r.stop := by
  have hone : ∀ name wanted present, r ∈ removedSpecifier linked d name wanted present →
      d.offsetAt linked.range.start ≤ d.offsetAt r.start ∧ d.offsetAt r.start ≤ d.offsetAt r.stop := by
    intro name wanted present hr
    obtain ⟨s, hs, rfl⟩ := mem_removedSpecifier hr
    have hle := (search?_eq_some_iff.mp hs).1
    exact ⟨d.le_offsetAt_positionAt (by omega), d.offsetAt_positionAt_mono (by omega)⟩
  rcases mem_append.mp h with h | h
  · exact hone _ _ _ h
  · exact hone _ _ _ h

lemma isWordChar_of_isSpaceOrTab {c : Char} (h : isSpaceOrTab c = true) : isWordChar c = false := by
  rw [isSpaceOrTab, Bool.or_eq_true, beq_iff_eq, beq_iff_eq] at h
  rcases h with rfl | rfl <;> decide

/-- The two specifiers are different words, so what is removed of them is apart. -/
lemma removedSpecifiers_pairwise : (removedSpecifiers current linked d).Pairwise d.Apart := by
  have hone : ∀ name wanted present, (removedSpecifier linked d name wanted present).Pairwise d.Apart := by
    intro name wanted present
    rcases removedSpecifier_eq_nil_or linked d name wanted present with hnil | ⟨s, _, heq⟩
    · rw [hnil]
      exact .nil
    · rw [heq]
      exact pairwise_singleton _ _
  refine pairwise_append.mpr ⟨hone _ _ _, hone _ _ _, fun r hr r' hr' => ?_⟩
  obtain ⟨s, hs, rfl⟩ := mem_removedSpecifier hr
  obtain ⟨s', hs', rfl⟩ := mem_removedSpecifier hr'
  -- stated with `List.all`, as a quantifier over characters would be decided by trying all of them
  have hconstexpr : "constexpr".toList.all isWordChar = true := by decide +kernel
  have hconsteval : "consteval".toList.all isWordChar = true := by decide +kernel
  rw [all_eq_true] at hconstexpr hconsteval
  have hapart := words_apart hconstexpr hconsteval (by decide +kernel) (by decide +kernel)
    (fun c hc => isWordChar_of_isSpaceOrTab hc) hs hs'
  rcases hapart with hle | hle
  · exact Or.inl (d.offsetAt_positionAt_mono (by omega))
  · exact Or.inr (d.offsetAt_positionAt_mono (by omega))

/-- **When the edits of a signature overlap**: unless the rewritten parts are apart and no specifier is removed from
within one. -/
theorem nonOverlapping_edits_iff (hnested : e.Nested) (h : ofEntity e = .ok linked) :
    let d := e.document.toTextDocument
    d.NonOverlapping ((edits current linked d).editsOf e.uri) ↔ (rewrittenParts current linked d).Pairwise d.Apart ∧
      ∀ r ∈ removedSpecifiers current linked d, ∀ part ∈ rewrittenParts current linked d, d.Apart r part := by
  intro d
  have hsymm : ∀ {r s : Range}, d.Apart r s → d.Apart s r := Or.symm
  have hparts : ∀ part ∈ rewrittenParts current linked d,
      d.offsetAt linked.range.start ≤ d.offsetAt part.start ∧ d.offsetAt part.start ≤ d.offsetAt part.stop :=
    fun part hpart => parts_in_head hnested h part (rewrittenParts_sublist.subset hpart)
  have hperm : ((edits current linked d).rangesOf e.uri).Perm _ := rangesOf_edits_perm
  rw [TextDocument.nonOverlapping_iff_ranges, ← rangesOf, hperm.pairwise_iff hsymm, pairwise_append, pairwise_append]
  -- what is put in is apart from all else, and so are two removed specifiers; the other pairs remain
  constructor
  · rintro ⟨_, hrewritten, _, hcross⟩
    exact ⟨hrewritten, fun r hr part hpart => hsymm (hcross part hpart r (mem_append_right _ hr))⟩
  · rintro ⟨hrewritten, hremoved⟩
    have hinserted : ∀ r ∈ insertedSpecifiers current linked, ∀ s : Range,
        d.offsetAt linked.range.start ≤ d.offsetAt s.start → d.Apart r s :=
      fun r hr s hs => eq_of_mem_insertedSpecifiers hr ▸ Or.inl hs
    refine ⟨fun r hr => ?_, hrewritten, ⟨?_, removedSpecifiers_pairwise, fun r hr s hs => ?_⟩, fun part hpart r hr => ?_⟩
    · rw [hperm.mem_iff, mem_append, mem_append] at hr
      rcases hr with hr | hr | hr
      · exact (hparts r hr).2
      · rw [eq_of_mem_insertedSpecifiers hr]
      · exact (removedSpecifiers_in_head hr).2
    · refine pairwise_of_forall_mem_list fun r hr s hs => hinserted r hr s ?_
      rw [eq_of_mem_insertedSpecifiers hs]
    · exact hinserted r hr s (removedSpecifiers_in_head hs).1
    · rcases mem_append.mp hr with hr | hr
      · exact hsymm (hinserted r hr part (hparts part hpart).1)
      · exact hsymm (hremoved r hr part hpart)

lemma mem_rewrittenParts (h : r ∈ rewrittenParts current linked d) :
    (r = linked.returnRange ∧ current.normalizedReturnType ≠ linked.normalizedReturnType) ∨
      r = linked.parameters.range ∨ r = linked.trailingRange := by
  unfold rewrittenParts at h
  simp only [mem_append, mem_ite_nil_left, mem_singleton, beq_iff_eq] at h
  rcases h with (h | h) | h
  · exact .inl h.symm
  · exact .inr (.inl h.2)
  · exact .inr (.inr h.2)

lemma returnRange_mem_rewrittenParts (h : current.normalizedReturnType ≠ linked.normalizedReturnType) :
    linked.returnRange ∈ rewrittenParts current linked d := by
  unfold rewrittenParts
  rw [if_neg fun heq => h (beq_iff_eq.mp heq)]
  simp

/-- Specifiers that are removed before the name can only disturb the return type. -/
lemma removedSpecifiers_apart_iff (hnested : e.Nested) (h : ofEntity e = .ok linked) (hd : e.document.toTextDocument = d)
    (hbefore : ∀ r ∈ removedSpecifiers current linked d, d.offsetAt r.stop ≤ d.offsetAt e.selection.start) :
    (∀ r ∈ removedSpecifiers current linked d, ∀ part ∈ rewrittenParts current linked d, d.Apart r part) ↔
      current.normalizedReturnType = linked.normalizedReturnType ∨
        ∀ r ∈ removedSpecifiers current linked d, d.Apart r linked.returnRange := by
  subst hd
  obtain ⟨hparameters, htrailing⟩ := selection_le_parts hnested h
  constructor
  · intro hall
    by_cases heq : current.normalizedReturnType = linked.normalizedReturnType
    · exact Or.inl heq
    · exact Or.inr fun r hr => hall r hr _ (returnRange_mem_rewrittenParts heq)
  · intro hreturn r hr part hpart
    have hstop := hbefore r hr
    rcases mem_rewrittenParts hpart with ⟨rfl, hne⟩ | rfl | rfl
    · exact hreturn.resolve_left hne r hr
    · exact Or.inl (Nat.le_trans hstop hparameters)
    · exact Or.inl (Nat.le_trans hstop htrailing)

/-! ## The action -/

/-- Where the counterpart of a function is looked for. -/
def counterpart (function : Entity) : CodeAction (Option Location) :=
  if function.isFunctionDeclaration then function.findDefinition else function.findDeclaration

/-- What an update finds on its way between two states: the function asked for and the entity to be brought in line,
each with its signature. -/
structure Run (w : Workspace) (s s' : ActionState) (uri : Text) (p : Position) (function linked : Entity)
    (current signature : Signature) : Prop where
  /-- The requests: the document and the function in it, the place of its counterpart, and the entity there. -/
  requests : ∃ s₁ s₂ s₃ s₄ l, (CodeAction.openDocument uri).execute w s = (.ok function.document, s₁) ∧
    (function.document.entityAt? p).execute w s₁ = (.ok (some function), s₂) ∧
    (counterpart function).execute w s₂ = (.ok (some l), s₃) ∧
    (function.document.openOther l.uri).execute w s₃ = (.ok linked.document, s₄) ∧
    (linked.document.entityAt? l.range.start).execute w s₄ = (.ok (some linked), s')
  isFunction : function.isFunction = true
  name_eq : linked.name = function.name
  isCounterpart : (if function.isFunctionDeclaration then linked.isFunctionDefinition
    else linked.isFunctionDeclaration) = true
  current_eq : ofEntity function = .ok current
  signature_eq : ofEntity linked = .ok signature

end SignatureUpdate

namespace CodeAction

open SignatureUpdate

variable {w : Workspace} {s s' : ActionState} {uri : Text} {p : Position} {edit : WorkspaceEdit}

/-- An update succeeds if and only if it finds a function and its counterpart, both with a signature. -/
lemma execute_updateSignature_ok :
    (updateSignature uri p).execute w s = (.ok edit, s') ↔
      ∃ function linked current signature, Run w s s' uri p function linked current signature ∧
        edit = edits current signature linked.document.toTextDocument := by
  constructor
  · intro h
    simp only [updateSignature, execute_bind_ok] at h
    obtain ⟨d, s₁, hd, found, s₂, hfound, h⟩ := h
    cases hfunction : found.filter (·.isFunction) with
    | none => simp [hfunction] at h
    | some function =>
      rw [hfunction] at h
      obtain ⟨rfl, hisFunction⟩ := Option.filter_eq_some_iff.mp hfunction
      obtain rfl := document_of_entityAt? hfound
      dsimp only at h
      -- a declaration and a definition ask for different places and go on alike
      obtain ⟨location, s₃, hlocation, h⟩ := execute_ite_bind_ok.mp h
      cases location with
      | none => cases h
      | some l =>
        simp only [execute_bind_ok] at h
        obtain ⟨linkedDocument, s₄, hother, found, s₅, hfound', h⟩ := h
        split at h
        next => cases h
        next linked hlinked =>
          obtain ⟨rfl, hcounterpart⟩ := Option.filter_eq_some_iff.mp hlinked
          obtain rfl := document_of_entityAt? hfound'
          simp only [execute_bind_ok, execute_lift, execute_pure, Prod.mk.injEq, Except.ok.injEq] at h
          obtain ⟨current, _, ⟨hcurrent, rfl⟩, signature, _, ⟨hsignature, rfl⟩, hedit, rfl⟩ := h
          rw [Bool.and_eq_true, beq_iff_eq] at hcounterpart
          exact ⟨function, linked, current, signature, ⟨⟨s₁, s₂, s₃, s₄, l, hd, hfound, hlocation, hother, hfound'⟩,
            hisFunction, hcounterpart.1, hcounterpart.2, hcurrent, hsignature⟩, hedit.symm⟩
  · rintro ⟨function, linked, current, signature, ⟨⟨s₁, s₂, s₃, s₄, l, hd, hfound, hlocation, hother, hlinked⟩,
      hisFunction, hname, hcounterpart, hcurrent, hsignature⟩, rfl⟩
    simp only [updateSignature, execute_bind_ok]
    refine ⟨_, _, hd, _, _, hfound, ?_⟩
    rw [Option.filter_some, if_pos hisFunction]
    refine execute_ite_bind_ok.mpr ⟨_, _, hlocation, ?_⟩
    simp only [execute_bind_ok]
    refine ⟨_, _, hother, _, _, hlinked, ?_⟩
    rw [Option.filter_some, if_pos (by rw [Bool.and_eq_true, beq_iff_eq]; exact ⟨hname, hcounterpart⟩)]
    simp only [execute_bind, execute_lift, hcurrent, hsignature, execute_pure]

/-- **When the edits of an update overlap.** If the ranges of the linked symbol are nested, they do not if and only if
the rewritten parts are apart and no removed specifier disturbs one. In a head that is in order the parts are apart,
and specifiers before the name disturb a rewritten return type only. -/
theorem updateSignature_nonOverlapping_iff (h : (updateSignature uri p).execute w s = (.ok edit, s')) :
    (∃ function linked current signature, Run w s s' uri p function linked current signature) ∧
    ∀ function linked current signature, Run w s s' uri p function linked current signature → linked.Nested →
      let d := linked.document.toTextDocument
      let rewritten := rewrittenParts current signature d
      let removed := removedSpecifiers current signature d
      (d.NonOverlapping (edit.editsOf linked.uri) ↔
        rewritten.Pairwise d.Apart ∧ ∀ r ∈ removed, ∀ part ∈ rewritten, d.Apart r part) ∧
      ∀ head, Signature.headOf linked = .ok head → Signature.InOrder linked head →
        rewritten.Pairwise d.Apart ∧
        ((∀ r ∈ removed, d.offsetAt r.stop ≤ d.offsetAt linked.selection.start) →
          (d.NonOverlapping (edit.editsOf linked.uri) ↔
            current.normalizedReturnType = signature.normalizedReturnType ∨
              ∀ r ∈ removed, d.Apart r signature.returnRange)) := by
  constructor
  · obtain ⟨function, linked, current, signature, hrun, _⟩ := execute_updateSignature_ok.mp h
    exact ⟨function, linked, current, signature, hrun⟩
  · intro function linked current signature hrun hnested
    have hsignature := hrun.signature_eq
    -- an action has one outcome, so these are the signatures that made the edits
    have hedit := h.symm.trans (execute_updateSignature_ok.mpr ⟨function, linked, current, signature, hrun, rfl⟩)
    rw [Prod.mk.injEq, Except.ok.injEq] at hedit
    obtain ⟨rfl, _⟩ := hedit
    refine ⟨nonOverlapping_edits_iff hnested hsignature, fun head hhead horder => ?_⟩
    have hparts := (Signature.parts_apart hnested hsignature hhead horder).sublist
      (@rewrittenParts_sublist current signature linked.document.toTextDocument)
    refine ⟨hparts, fun hbefore => ?_⟩
    refine (nonOverlapping_edits_iff hnested hsignature).trans ((and_iff_right hparts).trans ?_)
    exact removedSpecifiers_apart_iff hnested hsignature rfl hbefore

/-! ### A specifier behind the type -/

/-- A declaration whose specifier stands between the type and the name. -/
def specifierBehindType : Entity where
  document := { uri := "file:///p/a.h", text := "int constexpr f();", opening := 1 }
  node := ⟨⟨"f", "f", [], .function, ⟨⟨0, 0⟩, ⟨0, 17⟩⟩, ⟨⟨0, 14⟩, ⟨0, 15⟩⟩, []⟩, []⟩

def definitionWithoutSpecifier : Entity where
  document := { uri := "file:///p/a.cpp", text := "int f() \x7b return 1; \x7d", opening := 0 }
  node := ⟨⟨"f", "f", [], .function, ⟨⟨0, 0⟩, ⟨0, 21⟩⟩, ⟨⟨0, 4⟩, ⟨0, 5⟩⟩, []⟩, []⟩

def behindTypeWorkspace : Workspace where
  source :=
    let at? (uri : Text) := if uri = specifierBehindType.uri then specifierBehindType else definitionWithoutSpecifier
    { SymbolSource.bare fun uri => .ok (at? uri).document.toTextDocument with
      symbols := fun uri => .ok [⟨"f", .function, (at? uri).symbol.range, (at? uri).selection, [], []⟩]
      declarations := fun _ _ => .ok [.plain ⟨specifierBehindType.uri, specifierBehindType.selection⟩] }

lemma execute_entityAt?_behindType {e : Entity} (he : e = specifierBehindType ∨ e = definitionWithoutSpecifier)
    {s : ActionState} (hloaded : s.loaded.lookup e.document.opening = none) (hcache : s.cache = none) :
    (e.document.entityAt? e.selection.start).execute behindTypeWorkspace s =
      (.ok (some e), { s with requests := s.requests + 1, loaded := (e.document.opening, [e.symbol]) :: s.loaded }) := by
  rw [entityAt?, execute_bind_ok]
  rcases he with rfl | rfl
  all_goals
    have h := @OpenDocument.execute_symbols behindTypeWorkspace _ _ _ hloaded hcache rfl
    rw [mergeSort_singleton, Symbol.ofInfos, Symbol.ofInfos, Symbol.ofInfo, Symbol.ofInfos, mergeSort_nil] at h
    exact ⟨_, _, h, rfl⟩

lemma execute_counterpart_behindType (s : ActionState) :
    (counterpart definitionWithoutSpecifier).execute behindTypeWorkspace s =
      (.ok (some ⟨specifierBehindType.uri, specifierBehindType.selection⟩), s) := by
  rw [counterpart, if_neg (by decide +kernel)]
  rfl

/-- The specifier is taken for the return type, so that both are edited. -/
lemma run_behindType : ∃ s' current signature,
    Run behindTypeWorkspace {} s' definitionWithoutSpecifier.uri ⟨0, 4⟩ definitionWithoutSpecifier specifierBehindType
      current signature ∧
    (edits current signature specifierBehindType.document.toTextDocument).editsOf specifierBehindType.uri =
      [⟨⟨⟨0, 4⟩, ⟨0, 13⟩⟩, "int"⟩, ⟨⟨⟨0, 4⟩, ⟨0, 14⟩⟩, []⟩] ∧
    removedSpecifiers current signature specifierBehindType.document.toTextDocument = [⟨⟨0, 4⟩, ⟨0, 14⟩⟩] := by
  obtain ⟨current, hcurrent, hread⟩ := @exists_ok_of_any _ (ofEntity definitionWithoutSpecifier) (fun current =>
    (ofEntity specifierBehindType).toOption.any fun signature => decide (
      (edits current signature specifierBehindType.document.toTextDocument).editsOf specifierBehindType.uri =
        [⟨⟨⟨0, 4⟩, ⟨0, 13⟩⟩, "int"⟩, ⟨⟨⟨0, 4⟩, ⟨0, 14⟩⟩, []⟩] ∧
      removedSpecifiers current signature specifierBehindType.document.toTextDocument = [⟨⟨0, 4⟩, ⟨0, 14⟩⟩]))
    (by decide +kernel)
  obtain ⟨signature, hsignature, hedits⟩ := exists_ok_of_any hread
  have hcounterpart : (if definitionWithoutSpecifier.isFunctionDeclaration then specifierBehindType.isFunctionDefinition
      else specifierBehindType.isFunctionDeclaration) = true := by decide +kernel
  have hfirst := @execute_entityAt?_behindType _ (Or.inr rfl) { openings := 1 } rfl rfl
  have hsecond := @execute_entityAt?_behindType _ (Or.inl rfl)
    { openings := 2, requests := 1, loaded := [(0, [definitionWithoutSpecifier.symbol])] } rfl rfl
  exact ⟨_, current, signature, ⟨⟨_, _, _, _, _, rfl, hfirst, execute_counterpart_behindType _, rfl, hsecond⟩, rfl, rfl,
    hcounterpart, hcurrent, hsignature⟩, of_decide_eq_true hedits⟩

lemma inOrder_behindType : ∃ head, headOf specifierBehindType = .ok head ∧ InOrder specifierBehindType head := by
  obtain ⟨head, hok, hhead⟩ := @exists_ok_of_any _ (headOf specifierBehindType) (fun head => decide (
    head.offset ≤ specifierBehindType.document.offsetAt specifierBehindType.scopesStart ∧
    head.leftParenthesis < head.rightParenthesis ∧
    (specifierBehindType.isConstructor || specifierBehindType.isDestructor) = false)) (by decide +kernel)
  obtain ⟨hscopes, hparentheses, hname⟩ := of_decide_eq_true hhead
  exact ⟨head, hok, hscopes, hparentheses, fun hspecial => by simp [hname] at hspecial⟩

/-- For a specifier behind the type the edits overlap: it is removed from within the return type. -/
theorem updateSignature_nonOverlapping_iff_behindType : ∃ edit s' current signature,
    (updateSignature definitionWithoutSpecifier.uri ⟨0, 4⟩).execute behindTypeWorkspace {} = (.ok edit, s') ∧
    Run behindTypeWorkspace {} s' definitionWithoutSpecifier.uri ⟨0, 4⟩ definitionWithoutSpecifier specifierBehindType
      current signature ∧
    specifierBehindType.Nested ∧
    ¬ specifierBehindType.document.NonOverlapping (edit.editsOf specifierBehindType.uri) ∧
    ∃ r ∈ removedSpecifiers current signature specifierBehindType.document.toTextDocument,
      ¬ specifierBehindType.document.Apart r signature.returnRange := by
  obtain ⟨s', current, signature, hrun, hedits, hremoved⟩ := run_behindType
  obtain ⟨head, hhead, horder⟩ := inOrder_behindType
  have h := execute_updateSignature_ok.mpr ⟨_, _, _, _, hrun, rfl⟩
  have hnested : specifierBehindType.Nested := ⟨by decide, by decide, by decide⟩
  have hoverlap : ¬ specifierBehindType.document.NonOverlapping
      ((edits current signature specifierBehindType.document.toTextDocument).editsOf specifierBehindType.uri) := by
    rw [hedits, TextDocument.nonOverlapping_iff_ranges]
    decide +kernel
  have hbefore : ∀ r ∈ removedSpecifiers current signature specifierBehindType.document.toTextDocument,
      specifierBehindType.document.offsetAt r.stop ≤
        specifierBehindType.document.offsetAt specifierBehindType.selection.start := by
    rw [hremoved]
    decide +kernel
  have hiff := (((updateSignature_nonOverlapping_iff h).2 _ _ _ _ hrun hnested).2 head hhead horder).2 hbefore
  refine ⟨_, s', current, signature, h, hrun, hnested, hoverlap, ?_⟩
  by_contra hnone
  refine hoverlap (hiff.mpr (Or.inr fun r hr => ?_))
  by_contra hr'
  exact hnone ⟨r, hr, hr'⟩

end CodeAction

end CppScaffold
