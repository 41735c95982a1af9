import CppScaffold.Proofs.Edits

/-!
# Insertions

Edits that insert and replace nothing never overlap, and keep the order of all that stood in the text.
-/

namespace CppScaffold.TextDocument

open Text List PlacedEdit

variable (d : TextDocument) {edits : List TextEdit} {t : Text} {x : Nat}

lemma nonOverlapping_of_insertions (h : ∀ e ∈ edits, e.range.stop = e.range.start) : d.NonOverlapping edits := by
  have hranges : ∀ r ∈ edits.map (·.range), r.stop = r.start := forall_mem_map.mpr h
  refine d.nonOverlapping_iff_ranges.mpr ⟨fun r hr => by rw [hranges r hr], ?_⟩
  refine List.Pairwise.imp_of_mem (fun {r s} hr hs _ => ?_) (pairwise_of_forall fun _ _ => trivial)
  rw [Apart, hranges r hr, hranges s hs]
  omega

lemma pair_sublist {α : Type} {l : List α} {a b : α} (ha : a ∈ l) (hb : b ∈ l) (hne : a ≠ b) :
    [a, b].Sublist l ∨ [b, a].Sublist l := by
  induction l with
  | nil => simp at ha
  | cons x l ih =>
    rcases mem_cons.mp ha with rfl | ha'
    · have hb' := (mem_cons.mp hb).resolve_left hne.symm
      exact .inl (.cons_cons a (singleton_sublist.mpr hb'))
    · rcases mem_cons.mp hb with rfl | hb'
      · exact .inr (.cons_cons b (singleton_sublist.mpr ha'))
      · exact (ih ha' hb').imp (.cons x) (.cons x)

/-- Of two insertions the one that is listed first, and not behind the other one, comes first. -/
lemma insertions_in_order {k l : Nat} {p q : Position} {u : Text} (hkl : k < l)
    (hk : edits[k]? = some ⟨⟨p, p⟩, t⟩) (hl : edits[l]? = some ⟨⟨q, q⟩, u⟩) (hpq : p ≤ q) :
    [k, l].Sublist ((d.orderedEdits edits).map (·.index)) := by
  have hplaced : ∀ {i r v}, edits[i]? = some ⟨⟨r, r⟩, v⟩ →
      (⟨d.offsetAt r, d.offsetAt r, i, v⟩ : PlacedEdit) ∈ d.orderedEdits edits := fun hi =>
    d.mem_orderedEdits.mpr (d.mem_placeEdits.mpr ⟨_, hi, rfl, rfl, rfl⟩)
  have hmono := d.offsetAt_mono hpq
  rcases pair_sublist (hplaced hk) (hplaced hl) (ne_of_apply_ne index hkl.ne) with hsub | hsub
  · exact hsub.map (·.index)
  · have hprecedes := pairwise_pair.mp ((d.orderedEdits_pairwise edits).sublist hsub)
    unfold Precedes at hprecedes
    dsimp only at hprecedes
    omega

lemma applyEdits_insertion (p : Position) (t : Text) :
    (d.applyEdits [⟨⟨p, p⟩, t⟩]).text = d.text.take (d.offsetAt p) ++ (t ++ d.text.drop (d.offsetAt p)) := by
  simp [applyEdits, withText, placeEdits, apply]

lemma applyEdits_insertion_end {p : Position} (hp : p ≤ d.endPosition) (t u : Text) :
    (d.applyEdits [⟨⟨p, p⟩, t⟩, ⟨⟨d.endPosition, d.endPosition⟩, u⟩]).text =
      d.text.take (d.offsetAt p) ++ (t ++ (d.text.drop (d.offsetAt p) ++ u)) := by
  have hend : d.offsetAt d.endPosition = d.text.length := by
    rw [endPosition, d.offsetAt_positionAt (Nat.le_refl _), if_neg]
    intro hinside
    have := hinside.breakEndsAt_succ.le_length
    omega
  have hordered : d.orderedEdits [⟨⟨p, p⟩, t⟩, ⟨⟨d.endPosition, d.endPosition⟩, u⟩] =
      d.placeEdits [⟨⟨p, p⟩, t⟩, ⟨⟨d.endPosition, d.endPosition⟩, u⟩] := by
    refine mergeSort_of_pairwise (pairwise_pair.mpr ?_)
    have hmono := d.offsetAt_mono hp
    rw [appliedBefore_iff, Precedes]
    dsimp only
    omega
  rw [d.applyEdits_eq_substitute (d.nonOverlapping_of_insertions (by simp)), hordered]
  simp [placeEdits, substitute, between, hend]

/-! ## Moved text -/

/-- How long the texts of the given edits are together. -/
def PlacedEdit.totalLength (l : List PlacedEdit) : Nat := (l.flatMap (·.newText)).length

/-- How much text some insertions put before an offset, without those at the offset itself. -/
def lengthBefore (edits : List TextEdit) (x : Nat) : Nat :=
  totalLength ((d.placeEdits edits).filter fun e => e.start < x)

/-- Where the character at an offset stands after some insertions. -/
def movedOffset (edits : List TextEdit) (x : Nat) : Nat := x + d.lengthBefore edits (x + 1)

namespace PlacedEdit

@[simp] lemma totalLength_nil : totalLength [] = 0 := rfl

@[simp] lemma totalLength_cons (e : PlacedEdit) (l : List PlacedEdit) :
    totalLength (e :: l) = e.newText.length + totalLength l := length_append

lemma totalLength_perm {l l' : List PlacedEdit} (h : l.Perm l') : totalLength l = totalLength l' :=
  (h.flatMap_right _).length_eq

lemma totalLength_le {l l' : List PlacedEdit} (h : l.Sublist l') : totalLength l ≤ totalLength l' := by
  induction h with
  | slnil => exact Nat.le_refl _
  | cons e _ ih =>
    rw [totalLength_cons]
    omega
  | cons_cons e _ ih =>
    rw [totalLength_cons, totalLength_cons]
    omega

lemma totalLength_filter_mono (l : List PlacedEdit) {y : Nat} (h : x ≤ y) :
    totalLength (l.filter fun e => e.start < x) ≤ totalLength (l.filter fun e => e.start < y) := by
  refine totalLength_le (monotone_filter_right _ fun e he => ?_)
  rw [decide_eq_true_eq] at he ⊢
  omega

end PlacedEdit

lemma exists_placeEdits_cons (e : TextEdit) (edits : List TextEdit) :
    ∃ later, d.placeEdits (e :: edits) =
      ⟨d.offsetAt e.range.start, d.offsetAt e.range.stop, 0, e.newText⟩ :: later :=
  ⟨_, rfl⟩

lemma lengthBefore_mono (edits : List TextEdit) {y : Nat} (h : x ≤ y) :
    d.lengthBefore edits x ≤ d.lengthBefore edits y :=
  totalLength_filter_mono _ h

lemma movedOffset_le_movedOffset_iff (edits : List TextEdit) {y : Nat} :
    d.movedOffset edits x ≤ d.movedOffset edits y ↔ x ≤ y := by
  unfold movedOffset
  constructor
  · intro h
    by_contra hlt
    have := d.lengthBefore_mono edits (x := y + 1) (y := x + 1) (by omega)
    omega
  · intro h
    have := d.lengthBefore_mono edits (x := x + 1) (y := y + 1) (by omega)
    omega

/-- What is inserted first at an offset stands before the old text that stood there or behind, and behind all other. -/
lemma add_le_movedOffset_iff (e : TextEdit) (edits : List TextEdit) {k : Nat} (hk : k ≤ e.newText.length) :
    d.offsetAt e.range.start + d.lengthBefore (e :: edits) (d.offsetAt e.range.start) + k ≤
      d.movedOffset (e :: edits) x ↔ d.offsetAt e.range.start ≤ x := by
  obtain ⟨later, hlater⟩ := d.exists_placeEdits_cons e edits
  generalize d.offsetAt e.range.start = o at *
  have hown : d.lengthBefore (e :: edits) o + e.newText.length ≤ d.lengthBefore (e :: edits) (o + 1) := by
    have hmono := totalLength_filter_mono later (Nat.le_add_right o 1)
    rw [lengthBefore, lengthBefore, hlater, filter_cons_of_neg (by simp), filter_cons_of_pos (by simp), totalLength_cons]
    dsimp only
    omega
  unfold movedOffset
  constructor
  · intro h
    by_contra hlt
    have := d.lengthBefore_mono (e :: edits) (show x + 1 ≤ o by omega)
    omega
  · intro h
    have := d.lengthBefore_mono (e :: edits) (show o + 1 ≤ x + 1 by omega)
    omega

section

variable {l : List PlacedEdit} {offset : Nat}

/-- The edits are insertions into a text that is read from an offset on. -/
def PlacedEdit.Insert (t : Text) (offset : Nat) (l : List PlacedEdit) : Prop :=
  ∀ e ∈ l, e.stop = e.start ∧ offset ≤ e.start ∧ e.start ≤ t.length

lemma PlacedEdit.Insert.of_cons {e : PlacedEdit} (h : Insert t offset (e :: l))
    (he : ∀ f ∈ l, e.stop ≤ f.start) : Insert t e.stop l := fun f hf =>
  have hf' := h f (mem_cons_of_mem e hf)
  ⟨hf'.1, he f hf, hf'.2.2⟩

/-- Behind insertions a character stands as much later as they are long. -/
lemma getElem?_substitute (hin : Insert t offset l) (hl : l.Pairwise fun a b => a.stop ≤ b.start)
    (hx : offset ≤ x) :
    (substitute t offset l)[x - offset + totalLength (l.filter fun e => e.start < x + 1)]? = t[x]? := by
  induction hl generalizing offset with
  | nil =>
    rw [substitute, getElem?_drop, filter_nil, totalLength_nil]
    congr 1
    omega
  | @cons e l he _ ih =>
    obtain ⟨hstop, hoffset, hlen⟩ := hin e (by simp)
    have hbetween := length_between t offset e.start
    rw [substitute, append_assoc]
    rcases Nat.lt_or_ge x e.start with hlt | hge
    · have hnone : (e :: l).filter (fun f => f.start < x + 1) = [] := by
        simp only [filter_eq_nil_iff, decide_eq_true_eq]
        refine forall_mem_cons.mpr ⟨by omega, fun f hf => ?_⟩
        have := he f hf
        omega
      rw [hnone, totalLength_nil, getElem?_append_left (by omega), between,
        getElem?_take_of_lt (by omega), getElem?_drop]
      congr 1
      omega
    · have hfirst : (e :: l).filter (fun f => f.start < x + 1) = e :: l.filter fun f => f.start < x + 1 :=
        filter_cons_of_pos (by simpa using Nat.lt_succ_of_le hge)
      have hih := ih (hin.of_cons he) (by omega)
      rw [hfirst, totalLength_cons, getElem?_append_right (by omega), getElem?_append_right (by omega), ← hih]
      congr 1
      omega

lemma length_substitute (hin : Insert t offset l) (hl : l.Pairwise fun a b => a.stop ≤ b.start)
    (hoffset : offset ≤ t.length) : (substitute t offset l).length = t.length - offset + totalLength l := by
  induction hl generalizing offset with
  | nil => rw [substitute, length_drop, totalLength_nil, Nat.add_zero]
  | @cons e l he _ ih =>
    obtain ⟨hstop, hle, hlen⟩ := hin e (by simp)
    rw [substitute, length_append, length_append, ih (hin.of_cons he) (by omega), length_between, totalLength_cons]
    omega

end

lemma insert_orderedEdits (h : ∀ e ∈ edits, e.range.stop = e.range.start) :
    Insert d.text 0 (d.orderedEdits edits) := by
  intro e he
  have he := d.mem_orderedEdits.mp he
  obtain ⟨f, hf, hstart, hstop, _⟩ := d.mem_placeEdits.mp he
  have hinsertion : e.stop = e.start := by rw [hstart, hstop, h f (mem_of_getElem? hf)]
  exact ⟨hinsertion, Nat.zero_le _, hinsertion ▸ d.stop_le_length he⟩

lemma getElem?_movedOffset (h : ∀ e ∈ edits, e.range.stop = e.range.start) (x : Nat) :
    (d.applyEdits edits).text[d.movedOffset edits x]? = d.text[x]? := by
  have hedits := d.nonOverlapping_of_insertions h
  have hsame := getElem?_substitute (d.insert_orderedEdits h) hedits.pairwise (Nat.zero_le x)
  rw [totalLength_perm ((d.orderedEdits_perm edits).filter _), Nat.sub_zero,
    ← d.applyEdits_eq_substitute hedits] at hsame
  exact hsame

/-- What the first of some insertions puts in stands behind all that is inserted before its offset. -/
lemma newText_prefix_drop {e : TextEdit} (h : ∀ f ∈ e :: edits, f.range.stop = f.range.start) :
    e.newText <+: (d.applyEdits (e :: edits)).text.drop
      (d.offsetAt e.range.start + d.lengthBefore (e :: edits) (d.offsetAt e.range.start)) := by
  have hedits := d.nonOverlapping_of_insertions h
  have hordered := d.insert_orderedEdits h
  have hstop : d.offsetAt e.range.stop = d.offsetAt e.range.start := by rw [h e (by simp)]
  have hole := d.offsetAt_le_length e.range.start
  obtain ⟨later, hlater⟩ := d.exists_placeEdits_cons e edits
  generalize d.offsetAt e.range.start = o at *
  -- the edits before the offset, those at it, of which ours is the first, and those behind
  have hsplit := eq_append_filter_isAt o (d.orderedEdits_pairwise (e :: edits))
  have hbefore : (d.orderedEdits (e :: edits)).filter (fun f => f.start < o ∨ (f.start = o ∧ f.stop < o)) =
      (d.orderedEdits (e :: edits)).filter fun f => f.start < o := by
    refine filter_congr fun f hf => ?_
    have := (hordered f hf).1
    rw [decide_eq_decide]
    omega
  rw [hbefore, d.filter_isAt_orderedEdits, hlater, filter_cons_of_pos (by simp [isAt, hstop]), cons_append] at hsplit
  have hlength : totalLength ((d.orderedEdits (e :: edits)).filter fun f => f.start < o) =
      d.lengthBefore (e :: edits) o := totalLength_perm ((d.orderedEdits_perm _).filter _)
  have hstarts : ∀ f ∈ (d.orderedEdits (e :: edits)).filter (fun f => f.start < o),
      f.stop = f.start ∧ f.start < o := fun f hf =>
    ⟨(hordered f (mem_filter.mp hf).1).1, by simpa using (mem_filter.mp hf).2⟩
  have hpairwise := hedits.pairwise
  rw [d.applyEdits_eq_substitute hedits]
  generalize (d.orderedEdits (e :: edits)).filter (fun f => f.start < o) = before at *
  rw [hsplit, pairwise_append] at hpairwise
  have htaken : (d.text.take o).length = o := by
    rw [length_take]
    omega
  have hfirst : (substitute (d.text.take o) 0 before).length = o + d.lengthBefore (e :: edits) o := by
    rw [length_substitute (fun f hf => ?_) hpairwise.1 (Nat.zero_le _), htaken, hlength, Nat.sub_zero]
    have := hstarts f hf
    omega
  rw [hsplit, substitute_append (Nat.zero_le o) (fun f hf => ?_) (fun f hf => ?_), ← hfirst, drop_left,
    substitute, between, Nat.sub_self, take_zero, nil_append]
  · exact prefix_append _ _
  · have := hstarts f hf
    omega
  · rcases mem_cons.mp hf with rfl | hf
    · exact Nat.le_refl o
    · exact hstop ▸ rel_of_pairwise_cons hpairwise.2.1 hf

end CppScaffold.TextDocument
