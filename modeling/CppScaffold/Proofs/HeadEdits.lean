import CppScaffold.Proofs.SignatureEdits

/-!
# Edits stay in the head

All edits of a signature lie between the start of the declaration and its end, so the text around the head stays.
-/

namespace CppScaffold

open Text Recognizer List Signature

namespace TextDocument

variable (d : TextDocument)

lemma applyEdits_frame {edits : List TextEdit} {a b : Nat} (h : d.NonOverlapping edits) (hab : a ≤ b)
    (hin : ∀ r ∈ edits.map (·.range), a ≤ d.offsetAt r.start ∧ d.offsetAt r.stop ≤ b) :
    ∃ new, (d.applyEdits edits).text = d.text.take a ++ new ++ d.text.drop b := by
  have hplaced : ∀ e ∈ d.orderedEdits edits, (a ≤ e.start ∧ e.start ≤ e.stop ∧ e.stop ≤ d.text.length) ∧ e.stop ≤ b := by
    intro e he
    have he := d.mem_orderedEdits.mp he
    obtain ⟨f, hf, hstart, hstop, _⟩ := d.mem_placeEdits.mp he
    obtain ⟨ha, hb⟩ := hin f.range (mem_map_of_mem (mem_of_getElem? hf))
    rw [← hstart] at ha
    rw [← hstop] at hb
    exact ⟨⟨ha, h.start_le_stop e he, d.stop_le_length he⟩, hb⟩
  have hfold := foldr_apply_eq_substitute (fun e he => (hplaced e he).1) h.pairwise
  have hsplit := @substitute_append d.text a (d.orderedEdits edits) [] b hab
    (fun e he => ⟨(hplaced e he).1.2.1, (hplaced e he).2⟩) (by simp)
  rw [append_nil, substitute] at hsplit
  refine ⟨substitute (d.text.take b) a (d.orderedEdits edits), ?_⟩
  rw [applyEdits, withText, mergeSort_appliedBefore, foldl_reverse, hfold, hsplit, append_assoc]

lemma le_statementEnd (p : Position) : d.offsetAt p ≤ d.offsetAt (d.statementEnd p) := by
  unfold statementEnd
  dsimp only
  split
  · exact Nat.le_refl _
  · exact d.le_offsetAt_positionAt (by omega)

end TextDocument

/-- The declaration ends no earlier than the name, from which its end is looked for. -/
lemma Entity.Nested.le_declarationEnd {e : Entity} (h : e.Nested) :
    e.document.offsetAt e.selection.stop ≤ e.document.offsetAt e.declarationEnd := by
  have hwithin : ∀ i : Nat, e.document.offsetAt e.selection.stop ≤
      e.document.offsetAt (e.positionWithin (e.offsetWithin e.selection.stop + i)) := by
    intro i
    refine e.document.le_offsetAt_positionAt ?_
    rw [offsetWithin]
    omega
  unfold declarationEnd
  dsimp only
  split
  · exact (e.document.offsetAt_mono h.le_stop).trans (e.document.le_statementEnd _)
  · split <;> exact hwithin _

lemma Entity.Nested.declarationStart_le_declarationEnd {e : Entity} (h : e.Nested) :
    e.document.offsetAt e.declarationStart ≤ e.document.offsetAt e.declarationEnd :=
  h.declarationStart_le.trans ((e.document.offsetAt_mono h.selection_le).trans h.le_declarationEnd)

namespace Signature

lemma parts_end_in_head {e : Entity} {s : Signature} (hnested : e.Nested) (h : ofEntity e = .ok s) :
    ∀ r ∈ s.parts, e.document.offsetAt r.stop ≤ e.document.offsetAt s.range.stop := by
  obtain ⟨head, hhead, hrange, hparameters, _, hplace⟩ := ofEntity_ok h
  obtain ⟨hoffset, htext, ⟨hleft, hright⟩, _⟩ := headOf_ok hhead
  have hend : head.offset + head.text.length ≤ e.document.offsetAt s.range.stop := by
    rw [htext, TextDocument.getText, length_between] at hright ⊢
    simp only [hrange, ← hoffset] at hright ⊢
    omega
  have hin : ∀ {x : Int}, x ≤ head.offset + head.text.length →
      e.document.offsetAt (e.document.positionAt x) ≤ e.document.offsetAt s.range.stop :=
    fun hx => e.document.offsetAt_positionAt_le (by omega)
  have hlength := length_between head.text (head.leftParenthesis + 1) head.rightParenthesis
  have hreturn : e.document.offsetAt s.returnRange.stop ≤ e.document.offsetAt s.range.stop := by
    cases hplace with
    | atName _ hreturn _ =>
      rw [hreturn, hrange]
      exact hnested.le_declarationEnd
    | behindArrow arrow gap length hreturn _ hfits =>
      rw [hreturn]
      exact hin (by omega)
    | beforeName start stop _ _ hstop hreturn _ =>
      have hupTo : (upTo head.text ((e.document.offsetAt e.scopesStart : Int) - head.offset)).length ≤ head.text.length :=
        length_take_le' _ _
      rw [hreturn]
      exact hin (by omega)
  have htrailing : e.document.offsetAt s.trailingRange.stop ≤ e.document.offsetAt s.range.stop := by
    cases hplace with
    | atName _ _ hstop | beforeName _ _ _ _ _ _ hstop => rw [hstop, hrange]
    | behindArrow arrow gap length _ hstop hfits =>
      rw [hstop]
      exact hin (by omega)
  refine forall_mem_cons.mpr ⟨hreturn, forall_mem_cons.mpr ⟨?_, forall_mem_singleton.mpr htrailing⟩⟩
  rw [hparameters]
  exact hin (by omega)

end Signature

namespace SignatureUpdate

variable {current linked : Signature} {d : TextDocument}

/-! ## One document -/

lemma uris_replace {w : WorkspaceEdit} {uri u : Text} {r : Range} {text : Text}
    (h : u ∈ (w.replace uri r text).uris) : u = uri ∨ u ∈ w.uris := by
  rw [WorkspaceEdit.uris, WorkspaceEdit.replace] at h
  rw [WorkspaceEdit.uris]
  generalize w.changes = changes at h ⊢
  fun_induction WorkspaceEdit.addTo uri ⟨r, text⟩ changes with
  | case1 => exact Or.inl (by simpa using h)
  | case2 es rest => exact Or.inr (by simpa using h)
  | case3 v es rest _ ih =>
    rcases mem_cons.mp h with rfl | h
    · exact Or.inr (by simp)
    · exact (ih h).imp_right (mem_cons_of_mem _)

lemma uris_edits : ∀ u ∈ (edits current linked d).uris, u = d.uri := by
  have hreplace : ∀ {w : WorkspaceEdit} {r : Range} {text : Text}, (∀ u ∈ w.uris, u = d.uri) →
      ∀ u ∈ (w.replace d.uri r text).uris, u = d.uri :=
    fun hw u hu => (uris_replace hu).elim id (hw u)
  have hreturn : ∀ u ∈ (returnType current linked d {}).uris, u = d.uri := by
    unfold returnType
    split
    · simp [WorkspaceEdit.uris]
    · exact hreplace (by simp [WorkspaceEdit.uris])
  have hparameters : ∀ u ∈ (parameters current linked d (returnType current linked d {})).uris, u = d.uri := by
    unfold parameters
    split
    · exact hreturn
    · exact hreplace hreturn
  have hleading : ∀ name wanted present (w : WorkspaceEdit), (∀ u ∈ w.uris, u = d.uri) →
      ∀ u ∈ (leadingSpecifier name wanted present linked d w).uris, u = d.uri := by
    intro name wanted present w hw
    unfold leadingSpecifier
    dsimp only
    split
    · exact hreplace hw
    · split
      · split
        · exact hreplace hw
        · exact hw
      · exact hw
  rw [edits]
  unfold trailing
  dsimp only
  split
  · exact hleading _ _ _ _ (hleading _ _ _ _ hparameters)
  · exact hreplace (hleading _ _ _ _ (hleading _ _ _ _ hparameters))

/-! ## The head -/

lemma removedSpecifiers_end_in_head {r : Range} (h : r ∈ removedSpecifiers current linked d)
    (hrange : d.offsetAt linked.range.start ≤ d.offsetAt linked.range.stop) :
    d.offsetAt r.stop ≤ d.offsetAt linked.range.stop := by
  have hone : ∀ name wanted present, r ∈ removedSpecifier linked d name wanted present →
      d.offsetAt r.stop ≤ d.offsetAt linked.range.stop := by
    intro name wanted present hr
    obtain ⟨s, hs, rfl⟩ := mem_removedSpecifier hr
    obtain ⟨_, hstart, haccepts, _⟩ := search?_eq_some_iff.mp hs
    have hbound := ((bounded_word _).andThen (bounded_many _)) _ _ _ haccepts
    rw [length_drop] at hbound
    rw [Mask.comments, (Mask.maskedForm_replaceTokens _ _).length_eq, TextDocument.getText, length_between]
      at hstart hbound
    exact d.offsetAt_positionAt_le (by omega)
  rcases mem_append.mp h with h | h <;> exact hone _ _ _ h

lemma rangesOf_edits_in_head {e : Entity} (hnested : e.Nested) (h : ofEntity e = .ok linked) :
    ∀ r ∈ (edits current linked e.document.toTextDocument).rangesOf e.uri,
      e.document.offsetAt linked.range.start ≤ e.document.offsetAt r.start ∧
      e.document.offsetAt r.start ≤ e.document.offsetAt r.stop ∧
      e.document.offsetAt r.stop ≤ e.document.offsetAt linked.range.stop := by
  have hrange : e.document.offsetAt linked.range.start ≤ e.document.offsetAt linked.range.stop := by
    obtain ⟨_, _, hrange, _⟩ := ofEntity_ok h
    rw [hrange]
    exact hnested.declarationStart_le_declarationEnd
  intro r hr
  rw [show e.uri = e.document.toTextDocument.uri from rfl, rangesOf_edits_perm.mem_iff, mem_append, mem_append] at hr
  rcases hr with hr | hr | hr
  · have hpart := rewrittenParts_sublist.subset hr
    have hstart := parts_in_head hnested h r hpart
    exact ⟨hstart.1, hstart.2, parts_end_in_head hnested h r hpart⟩
  · rw [eq_of_mem_insertedSpecifiers hr]
    exact ⟨Nat.le_refl _, Nat.le_refl _, hrange⟩
  · have hstart := removedSpecifiers_in_head hr
    exact ⟨hstart.1, hstart.2, removedSpecifiers_end_in_head hr hrange⟩

lemma edits_eq_empty (h : current.differences linked = []) : edits current linked d = {} := by
  have haspect : ∀ (name : String) (differs : Bool), (if differs then [name.toList] else []) = [] ↔ differs = false := by
    intro name differs
    cases differs <;> simp
  simp only [Signature.differences, append_eq_nil_iff, haspect, bne_eq_false_iff_eq, Bool.not_eq_false', and_assoc] at h
  obtain ⟨hreturn, hparameters, hconstexpr, hconsteval, hconst, hvolatile, href, hnoexcept⟩ := h
  have hleading : ∀ name (present : Bool) w, leadingSpecifier name present present linked d w = w := by
    intro name present w
    cases present <;> rfl
  have hqualifier : ∀ name (present : Bool) m, qualifier name present present m = m := by
    intro name present m
    cases present <;> rfl
  have htrailing : ∀ old, trailingText current linked old = old := by
    intro old
    rw [trailingText, hconst, hvolatile, href, hqualifier, hqualifier, refQualifier,
      if_pos (beq_self_eq_true _), exceptionSpecifier, if_pos (beq_iff_eq.mpr hnoexcept)]
  rw [edits, trailing, htrailing, hconstexpr, hconsteval, hleading, hleading, parameters, if_pos hparameters, returnType,
    if_pos (beq_iff_eq.mpr hreturn)]
  exact if_pos (beq_self_eq_true _)

end SignatureUpdate

namespace CodeAction

open SignatureUpdate

variable {w : Workspace} {s s' : ActionState} {uri : Text} {p : Position} {edit : WorkspaceEdit}

/-- **What an update touches.** It edits the linked document only. If the ranges of the linked symbol are nested, every
edit lies in the head, and edits that do not overlap leave all text around it. Equal signatures are left alone. -/
theorem updateSignature_edits_head_only (h : (updateSignature uri p).execute w s = (.ok edit, s')) :
    (∃ function linked current signature, Run w s s' uri p function linked current signature) ∧
    ∀ function linked current signature, Run w s s' uri p function linked current signature →
      (∀ u ∈ edit.uris, u = linked.uri) ∧ (current.differences signature = [] → edit = {}) ∧
      (linked.Nested →
        let d := linked.document.toTextDocument
        let start := d.offsetAt linked.declarationStart
        let stop := d.offsetAt linked.declarationEnd
        signature.range = ⟨linked.declarationStart, linked.declarationEnd⟩ ∧
        (∀ e ∈ edit.editsOf linked.uri, start ≤ d.offsetAt e.range.start ∧
          d.offsetAt e.range.start ≤ d.offsetAt e.range.stop ∧ d.offsetAt e.range.stop ≤ stop) ∧
        (d.NonOverlapping (edit.editsOf linked.uri) →
          ∃ head, (edit.apply d).text = d.text.take start ++ head ++ d.text.drop stop)) := by
  constructor
  · obtain ⟨function, linked, current, signature, hrun, _⟩ := execute_updateSignature_ok.mp h
    exact ⟨function, linked, current, signature, hrun⟩
  · intro function linked current signature hrun
    have hsignature := hrun.signature_eq
    -- an action has one outcome, so these are the signatures that made the edits
    have hedit := h.symm.trans (execute_updateSignature_ok.mpr ⟨function, linked, current, signature, hrun, rfl⟩)
    obtain rfl := Except.ok.inj (congrArg Prod.fst hedit)
    obtain ⟨_, _, hrange, _⟩ := Signature.ofEntity_ok hsignature
    refine ⟨uris_edits, edits_eq_empty, fun hnested => ⟨hrange, ?_, fun hapart => ?_⟩⟩
    · intro e he
      have hin := rangesOf_edits_in_head hnested hsignature e.range (List.mem_map_of_mem he)
      rwa [hrange] at hin
    · have hin := @rangesOf_edits_in_head current _ _ hnested hsignature
      rw [hrange] at hin
      exact linked.document.applyEdits_frame hapart hnested.declarationStart_le_declarationEnd
        fun r hr => ⟨(hin r hr).1, (hin r hr).2.2⟩

/-- Both edits of the declaration with a specifier behind the type lie in its head, before the semicolon. -/
theorem updateSignature_edits_head_only_behindType : ∃ edit s' current signature,
    (updateSignature definitionWithoutSpecifier.uri ⟨0, 4⟩).execute behindTypeWorkspace {} = (.ok edit, s') ∧
    Run behindTypeWorkspace {} s' definitionWithoutSpecifier.uri ⟨0, 4⟩ definitionWithoutSpecifier specifierBehindType
      current signature ∧
    specifierBehindType.Nested ∧ (edit.editsOf specifierBehindType.uri).length = 2 ∧
    (∀ u ∈ edit.uris, u = specifierBehindType.uri) ∧
    ∀ e ∈ edit.editsOf specifierBehindType.uri, specifierBehindType.document.offsetAt e.range.stop ≤ 17 := by
  obtain ⟨s', current, signature, hrun, hedits, _⟩ := run_behindType
  have h := execute_updateSignature_ok.mpr ⟨_, _, _, _, hrun, rfl⟩
  have hnested : specifierBehindType.Nested := ⟨by decide, by decide, by decide⟩
  have hend : specifierBehindType.document.offsetAt specifierBehindType.declarationEnd = 17 := by decide +kernel
  obtain ⟨huris, _, hhead⟩ := (updateSignature_edits_head_only h).2 _ _ _ _ hrun
  refine ⟨_, s', current, signature, h, hrun, hnested, by rw [hedits]; rfl, huris, fun e he => ?_⟩
  rw [← hend]
  exact ((hhead hnested).2.1 e he).2.2

end CodeAction

end CppScaffold
