import CppScaffold.Document.Edit
import CppScaffold.Proofs.Positions
import CppScaffold.Proofs.Search
import Mathlib.Data.List.Chain

/-!
# Edits as one substitution

Edits are applied one after the other. If they do not overlap, the outcome is as if all were made at once.
-/

namespace CppScaffold.TextDocument

open Text List PlacedEdit

/-! ## The order of edits -/

/-- The order in which edits stand in a document: by start, then by end, then as listed. -/
def PlacedEdit.Precedes (a b : PlacedEdit) : Prop :=
  a.start < b.start ∨ (a.start = b.start ∧ (a.stop < b.stop ∨ (a.stop = b.stop ∧ a.index ≤ b.index)))

lemma PlacedEdit.appliedBefore_iff {a b : PlacedEdit} : a.appliedBefore b ↔ b.Precedes a := by
  simp only [appliedBefore, Precedes, Bool.or_eq_true, Bool.and_eq_true, decide_eq_true_eq, beq_iff_eq]
  omega

lemma PlacedEdit.appliedBefore_trans (a b c : PlacedEdit) (hab : a.appliedBefore b)
    (hbc : b.appliedBefore c) : a.appliedBefore c := by
  rw [appliedBefore_iff, Precedes] at *
  omega

lemma PlacedEdit.appliedBefore_total (a b : PlacedEdit) : (a.appliedBefore b || b.appliedBefore a) := by
  rw [Bool.or_eq_true, appliedBefore_iff, appliedBefore_iff, Precedes, Precedes]
  omega

variable (d : TextDocument)

/-- The edits in the order in which they stand in the document. -/
def orderedEdits (edits : List TextEdit) : List PlacedEdit :=
  (d.placeEdits edits).mergeSort fun a b => b.appliedBefore a

lemma orderedEdits_perm (edits : List TextEdit) : (d.orderedEdits edits).Perm (d.placeEdits edits) :=
  mergeSort_perm _ _

lemma orderedEdits_pairwise (edits : List TextEdit) : (d.orderedEdits edits).Pairwise Precedes := by
  have hsorted : (d.orderedEdits edits).Pairwise fun a b => b.appliedBefore a :=
    pairwise_mergeSort (fun a b c hab hbc => appliedBefore_trans c b a hbc hab)
      (fun a b => appliedBefore_total b a) _
  exact hsorted.imp appliedBefore_iff.mp

variable {edits : List TextEdit} {t : Text} {l : List PlacedEdit} {offset : Nat}

lemma mem_orderedEdits {p : PlacedEdit} : p ∈ d.orderedEdits edits ↔ p ∈ d.placeEdits edits :=
  (d.orderedEdits_perm edits).mem_iff

lemma mem_placeEdits {p : PlacedEdit} : p ∈ d.placeEdits edits ↔ ∃ e, edits[p.index]? = some e ∧
    p.start = d.offsetAt e.range.start ∧ p.stop = d.offsetAt e.range.stop ∧ p.newText = e.newText := by
  simp only [placeEdits, mem_map, Prod.exists, mk_mem_zipIdx_iff_getElem?]
  constructor
  · rintro ⟨e, i, he, rfl⟩
    exact ⟨e, he, rfl, rfl, rfl⟩
  · rintro ⟨e, he, hstart, hstop, htext⟩
    refine ⟨e, p.index, he, ?_⟩
    rw [← hstart, ← hstop, ← htext]

lemma eq_of_index_eq {p q : PlacedEdit} (hp : p ∈ d.placeEdits edits)
    (hq : q ∈ d.placeEdits edits) (h : p.index = q.index) : p = q := by
  obtain ⟨e, he, h1, h2, h3⟩ := d.mem_placeEdits.mp hp
  obtain ⟨f, hf, h1', h2', h3'⟩ := d.mem_placeEdits.mp hq
  rw [h, hf] at he
  obtain rfl := Option.some.inj he
  cases p
  cases q
  subst_vars
  rfl

lemma mergeSort_appliedBefore (edits : List TextEdit) :
    (d.placeEdits edits).mergeSort appliedBefore = (d.orderedEdits edits).reverse := by
  have hsorted := pairwise_mergeSort appliedBefore_trans appliedBefore_total (d.placeEdits edits)
  refine List.Perm.eq_of_pairwise (fun a b ha hb hab hba => ?_) (hsorted.imp appliedBefore_iff.mp)
    (pairwise_reverse.mpr (d.orderedEdits_pairwise edits)) ?_
  · -- equal offsets leave the index to decide, and it is different for different edits
    refine d.eq_of_index_eq ((mergeSort_perm _ _).mem_iff.mp ha)
      (d.mem_orderedEdits.mp (mem_reverse.mp hb)) ?_
    unfold Precedes at hab hba
    omega
  · exact (mergeSort_perm _ _).trans ((d.orderedEdits_perm edits).symm.trans (reverse_perm _).symm)

/-! ## Edits that do not overlap -/

/-- The edits replace parts of the document that do not overlap: each part ends no later than the next one begins. -/
structure NonOverlapping (edits : List TextEdit) : Prop where
  start_le_stop : ∀ e ∈ d.placeEdits edits, e.start ≤ e.stop
  chain : (d.orderedEdits edits).IsChain fun a b => a.stop ≤ b.start

/-- One of two edits ends before or where the other one begins. -/
def PlacedEdit.Apart (a b : PlacedEdit) : Prop := a.stop ≤ b.start ∨ b.stop ≤ a.start

instance (a b : PlacedEdit) : Decidable (a.Apart b) :=
  inferInstanceAs (Decidable (a.stop ≤ b.start ∨ b.stop ≤ a.start))

/-- A relation between neighbours holds between all members of a list if it can be carried on past each of them. -/
lemma pairwise_of_isChain {α : Type} {R : α → α → Prop} {l : List α} (h : l.IsChain R)
    (htrans : ∀ a, ∀ b ∈ l, ∀ c, R a b → R b c → R a c) : l.Pairwise R := by
  induction l with
  | nil => exact .nil
  | cons e l ih =>
    have htail := ih h.tail fun a b hb => htrans a b (by simp [hb])
    refine .cons (fun f hf => ?_) htail
    cases l with
    | nil => simp at hf
    | cons g l =>
      have hfirst := (isChain_cons_cons.mp h).1
      rcases mem_cons.mp hf with rfl | hf
      · exact hfirst
      · exact htrans e g (by simp) f hfirst (rel_of_pairwise_cons htail hf)

lemma NonOverlapping.pairwise (h : d.NonOverlapping edits) :
    (d.orderedEdits edits).Pairwise fun a b => a.stop ≤ b.start := by
  -- neighbours that are apart are all apart, as each edit lies between its start and its end
  refine pairwise_of_isChain h.chain fun a b hb c hab hbc => ?_
  have hle := h.start_le_stop b (d.mem_orderedEdits.mp hb)
  omega

/-- Edits do not overlap if and only if any two of them are apart; the order does not matter. -/
lemma nonOverlapping_iff : d.NonOverlapping edits ↔
    (∀ e ∈ d.placeEdits edits, e.start ≤ e.stop) ∧ (d.placeEdits edits).Pairwise Apart := by
  constructor
  · intro h
    refine ⟨h.start_le_stop, ((d.orderedEdits_perm edits).pairwise_iff fun hab => hab.symm).mp ?_⟩
    exact h.pairwise.imp Or.inl
  · rintro ⟨hle, hapart⟩
    refine ⟨hle, List.Pairwise.isChain ?_⟩
    have hapart := ((d.orderedEdits_perm edits).pairwise_iff fun hab => Or.symm hab).mpr hapart
    refine (hapart.and (d.orderedEdits_pairwise edits)).imp_of_mem fun {a b} ha hb hab => ?_
    have hb := hle b (d.mem_orderedEdits.mp hb)
    unfold Apart Precedes at hab
    omega

/-- What an edit does, without its place in the list of edits. -/
def PlacedEdit.effect (e : PlacedEdit) : (Nat × Nat) × Text := ((e.start, e.stop), e.newText)

lemma map_effect_placeEdits (edits : List TextEdit) : (d.placeEdits edits).map effect =
    edits.map fun e => ((d.offsetAt e.range.start, d.offsetAt e.range.stop), e.newText) := by
  rw [placeEdits, map_map]
  conv_rhs => rw [← zipIdx_map_fst 0 edits, map_map]
  rfl

/-- One of two ranges of a document ends before or where the other one begins. -/
def Apart (r s : Range) : Prop :=
  d.offsetAt r.stop ≤ d.offsetAt s.start ∨ d.offsetAt s.stop ≤ d.offsetAt r.start

instance (r s : Range) : Decidable (d.Apart r s) :=
  inferInstanceAs (Decidable (d.offsetAt r.stop ≤ d.offsetAt s.start ∨ d.offsetAt s.stop ≤ d.offsetAt r.start))

lemma nonOverlapping_iff_ranges : d.NonOverlapping edits ↔
    (∀ r ∈ edits.map (·.range), d.offsetAt r.start ≤ d.offsetAt r.stop) ∧ (edits.map (·.range)).Pairwise d.Apart := by
  rw [nonOverlapping_iff]
  have hplaced : (d.placeEdits edits).map (fun e => (e.start, e.stop)) =
      (edits.map (·.range)).map fun r => (d.offsetAt r.start, d.offsetAt r.stop) := by
    have heffects := congrArg (map Prod.fst) (d.map_effect_placeEdits edits)
    rw [map_map, map_map] at heffects
    rwa [map_map]
  have hall : (∀ e ∈ d.placeEdits edits, e.start ≤ e.stop) ↔
      ∀ x ∈ (d.placeEdits edits).map (fun e => (e.start, e.stop)), x.1 ≤ x.2 := by
    rw [forall_mem_map]
  have hpairs : (d.placeEdits edits).Pairwise PlacedEdit.Apart ↔
      ((d.placeEdits edits).map fun e => (e.start, e.stop)).Pairwise fun x y => x.2 ≤ y.1 ∨ y.2 ≤ x.1 := by
    rw [pairwise_map]
    rfl
  rw [hall, hpairs, hplaced, forall_mem_map, pairwise_map]
  rfl

/-! ## Substitution -/

/-- The text from an offset on with all given edits made at once. -/
def substitute (t : Text) : Nat → List PlacedEdit → Text
  | offset, [] => t.drop offset
  | offset, e :: rest => between t offset e.start ++ e.newText ++ substitute t e.stop rest

/-- Applying edits from the last one to the first is making them at once; the text before `offset` stays. -/
lemma foldr_apply_eq_substitute (hin : ∀ e ∈ l, offset ≤ e.start ∧ e.start ≤ e.stop ∧ e.stop ≤ t.length)
    (hl : l.Pairwise fun a b => a.stop ≤ b.start) :
    l.foldr (fun e u => e.apply u) t = t.take offset ++ substitute t offset l := by
  induction hl generalizing offset with
  | nil => simp [substitute]
  | @cons e l he _ ih =>
    obtain ⟨hoffset, hle, hlen⟩ := hin e (by simp)
    have hrest := @ih e.stop fun f hf => ⟨he f hf, (hin f (by simp [hf])).2⟩
    have hstop : (t.take e.stop).length = e.stop := by
      rw [length_take]
      omega
    have hbefore : (t.take e.stop ++ substitute t e.stop l).take e.start = t.take offset ++ between t offset e.start := by
      rw [take_append_of_le_length (by omega), take_take, Nat.min_eq_left hle, take_append_between t hoffset]
    have hafter : (t.take e.stop ++ substitute t e.stop l).drop e.stop = substitute t e.stop l := by
      rw [drop_append_of_le_length (by omega), drop_eq_nil_of_le (by omega), nil_append]
    rw [foldr_cons, hrest, apply, hbefore, hafter, substitute]
    simp

lemma stop_le_length {e : PlacedEdit} (h : e ∈ d.placeEdits edits) : e.stop ≤ d.text.length := by
  obtain ⟨f, _, _, hstop, _⟩ := d.mem_placeEdits.mp h
  rw [hstop]
  exact d.offsetAt_le_length _

lemma applyEdits_eq_substitute (h : d.NonOverlapping edits) :
    (d.applyEdits edits).text = substitute d.text 0 (d.orderedEdits edits) := by
  have hin : ∀ e ∈ d.orderedEdits edits, 0 ≤ e.start ∧ e.start ≤ e.stop ∧ e.stop ≤ d.text.length := by
    intro e he
    have he := d.mem_orderedEdits.mp he
    exact ⟨Nat.zero_le _, h.start_le_stop e he, d.stop_le_length he⟩
  have hfold := foldr_apply_eq_substitute hin h.pairwise
  rw [take_zero, nil_append] at hfold
  rw [applyEdits, withText, mergeSort_appliedBefore, foldl_reverse, hfold]

lemma substitute_of_le {after : List PlacedEdit} {middle : Nat} (hle : offset ≤ middle)
    (hafter : ∀ e ∈ after, middle ≤ e.start) :
    substitute t offset after = between t offset middle ++ substitute t middle after := by
  cases after with
  | nil => exact drop_eq_between_append t hle
  | cons e after =>
    rw [substitute, substitute, between_eq_append t hle (hafter e (by simp)), append_assoc, append_assoc, append_assoc]

/-- Edits before an offset and edits after it are made independently of each other. -/
lemma substitute_append {before after : List PlacedEdit} {middle : Nat} (hle : offset ≤ middle)
    (hbefore : ∀ e ∈ before, e.start ≤ e.stop ∧ e.stop ≤ middle) (hafter : ∀ e ∈ after, middle ≤ e.start) :
    substitute t offset (before ++ after) = substitute (t.take middle) offset before ++ substitute t middle after := by
  induction before generalizing offset with
  | nil => rw [nil_append, substitute_of_le hle hafter, substitute, drop_take, between]
  | cons e before ih =>
    obtain ⟨⟨hstart, hstop⟩, hbefore⟩ := forall_mem_cons.mp hbefore
    rw [cons_append, substitute, substitute, between_take t (hstart.trans hstop), ih hstop hbefore, append_assoc _ _ (_ ++ _)]
    simp

lemma substitute_insertions {o : Nat} {insertions : List PlacedEdit}
    (h : ∀ e ∈ insertions, e.start = o ∧ e.stop = o) (after : List PlacedEdit) :
    substitute t o (insertions ++ after) = insertions.flatMap (·.newText) ++ substitute t o after := by
  induction insertions with
  | nil => rfl
  | cons e l ih =>
    obtain ⟨hstart, hstop⟩ := h e (by simp)
    rw [cons_append, substitute, hstart, hstop, ih fun f hf => h f (by simp [hf]), flatMap_cons]
    simp [between]

/-! ## Edits at the same place -/

def replaces (a b : Nat) (e : TextEdit) : Bool :=
  d.offsetAt e.range.start == a && d.offsetAt e.range.stop == b

/-- Whether an edit with its offsets replaces the text between the given ones. -/
def PlacedEdit.isAt (a b : Nat) (e : PlacedEdit) : Bool := e.start == a && e.stop == b

/-- The second list holds the edits of the first one, and those of one range of offsets in the same order. -/
def KeepsOrder (edits edits' : List TextEdit) : Prop :=
  ∀ a b : Nat, edits'.filter (d.replaces a b) = edits.filter (d.replaces a b)

lemma filter_isAt_orderedEdits (edits : List TextEdit) (a b : Nat) :
    (d.orderedEdits edits).filter (isAt a b) = (d.placeEdits edits).filter (isAt a b) := by
  have hlisted : (d.placeEdits edits).Pairwise fun p q => p.index ≤ q.index := by
    refine pairwise_iff_getElem.mpr fun i j hi hj hij => ?_
    simp only [placeEdits, getElem_map, getElem_zipIdx]
    omega
  refine List.Perm.eq_of_pairwise (fun p q hp hq hpq hqp => ?_) ?_ (hlisted.filter _)
    ((d.orderedEdits_perm edits).filter _)
  · exact d.eq_of_index_eq (d.mem_orderedEdits.mp (mem_filter.mp hp).1)
      (mem_filter.mp hq).1 (Nat.le_antisymm hpq hqp)
  · refine ((d.orderedEdits_pairwise edits).filter _).imp_of_mem fun {p q} hp hq hpq => ?_
    have hp := (mem_filter.mp hp).2
    have hq := (mem_filter.mp hq).2
    simp only [isAt, Bool.and_eq_true, beq_iff_eq] at hp hq
    unfold Precedes at hpq
    omega

lemma filter_map_effect (l : List PlacedEdit) (k : Nat × Nat) :
    (l.map effect).filter (fun x => x.1 = k) = (l.filter (isAt k.1 k.2)).map effect := by
  rw [filter_map]
  congr 1
  refine filter_congr fun e _ => ?_
  rw [Bool.eq_iff_iff, Function.comp_apply, decide_eq_true_eq, isAt, Bool.and_eq_true, beq_iff_eq,
    beq_iff_eq, Prod.ext_iff, effect]

lemma map_effect_filter_isAt (edits : List TextEdit) (k : Nat × Nat) :
    ((d.placeEdits edits).filter (isAt k.1 k.2)).map effect = (edits.filter (d.replaces k.1 k.2)).map fun e =>
      ((d.offsetAt e.range.start, d.offsetAt e.range.stop), e.newText) := by
  rw [← filter_map_effect, map_effect_placeEdits, filter_map]
  congr 1
  refine filter_congr fun e _ => ?_
  rw [Bool.eq_iff_iff]
  simp [replaces, Prod.ext_iff]

/-- The order of ranges: by start, then by end. -/
def rangeLE (a b : Nat × Nat) : Prop := a.1 < b.1 ∨ (a.1 = b.1 ∧ a.2 ≤ b.2)

/-- A list that is ordered by a key is determined by its parts with the same key. -/
lemma eq_of_filter_eq {α : Type} {l l' : List ((Nat × Nat) × α)} (h : l.Pairwise fun x y => rangeLE x.1 y.1)
    (h' : l'.Pairwise fun x y => rangeLE x.1 y.1)
    (hparts : ∀ k, l.filter (fun x => x.1 = k) = l'.filter (fun x => x.1 = k)) : l = l' := by
  have hmem : ∀ {l l' : List ((Nat × Nat) × α)},
      (∀ k, l.filter (fun x => x.1 = k) = l'.filter (fun x => x.1 = k)) → ∀ x, x ∈ l ↔ x ∈ l' := by
    intro l l' hparts x
    have hx : x ∈ l.filter (fun y => y.1 = x.1) ↔ x ∈ l'.filter (fun y => y.1 = x.1) := by rw [hparts]
    simpa using hx
  induction l generalizing l' with
  | nil =>
    symm
    rw [eq_nil_iff_forall_not_mem]
    exact fun x hx => by simpa using (hmem hparts x).mpr hx
  | cons x l ih =>
    obtain _ | ⟨y, l'⟩ := l'
    · exact absurd ((hmem hparts x).mp (by simp)) (by simp)
    · -- the two heads have the least key, so they head the same part
      have hle : ∀ {x y : (Nat × Nat) × α} {l : List ((Nat × Nat) × α)},
          (x :: l).Pairwise (fun x y => rangeLE x.1 y.1) → y ∈ x :: l → rangeLE x.1 y.1 := by
        intro x y l hl hy
        rcases mem_cons.mp hy with rfl | hy
        · exact Or.inr ⟨rfl, Nat.le_refl _⟩
        · exact rel_of_pairwise_cons hl hy
      have hkey : x.1 = y.1 := by
        have hxy := hle h ((hmem hparts y).mpr (by simp))
        have hyx := hle h' ((hmem hparts x).mp (by simp))
        unfold rangeLE at hxy hyx
        rw [Prod.ext_iff]
        omega
      have hhead : x = y := by
        have hk := hparts x.1
        rw [filter_cons_of_pos (by simp), filter_cons_of_pos (by simp [hkey])] at hk
        exact (cons.inj hk).1
      subst hhead
      have hrest : ∀ k, l.filter (fun x => x.1 = k) = l'.filter (fun x => x.1 = k) := by
        intro k
        have hk := hparts k
        rw [filter_cons, filter_cons] at hk
        split_ifs at hk
        · exact (cons.inj hk).2
        · exact hk
      rw [ih h.of_cons h'.of_cons hrest]

lemma map_effect_orderedEdits_pairwise (edits : List TextEdit) :
    ((d.orderedEdits edits).map effect).Pairwise fun x y => rangeLE x.1 y.1 := by
  rw [pairwise_map]
  refine (d.orderedEdits_pairwise edits).imp fun {p q} hpq => ?_
  simp only [effect, rangeLE]
  unfold Precedes at hpq
  omega

/-- Lists of edits that agree on each range have the same effects in the same order. -/
lemma KeepsOrder.map_effect_eq {edits' : List TextEdit} (h : d.KeepsOrder edits edits') :
    (d.orderedEdits edits').map effect = (d.orderedEdits edits).map effect := by
  refine eq_of_filter_eq (d.map_effect_orderedEdits_pairwise edits') (d.map_effect_orderedEdits_pairwise edits) ?_
  intro k
  rw [filter_map_effect, filter_map_effect, filter_isAt_orderedEdits, filter_isAt_orderedEdits,
    map_effect_filter_isAt, map_effect_filter_isAt, h]

lemma substitute_congr {l' : List PlacedEdit}
    (h : l.map effect = l'.map effect) : substitute t offset l = substitute t offset l' := by
  induction l generalizing l' offset with
  | nil => rw [map_eq_nil_iff.mp h.symm]
  | cons e l ih =>
    obtain _ | ⟨e', l'⟩ := l'
    · simp at h
    · obtain ⟨heffect, hrest⟩ := cons.inj h
      simp only [effect, Prod.mk.injEq] at heffect
      rw [substitute, substitute, heffect.1.1, heffect.1.2, heffect.2, ih hrest]

lemma KeepsOrder.nonOverlapping {edits' : List TextEdit} (h : d.KeepsOrder edits edits')
    (hedits : d.NonOverlapping edits) : d.NonOverlapping edits' := by
  have heffect := h.map_effect_eq
  constructor
  · intro e he
    have hmem : e.effect ∈ (d.orderedEdits edits').map effect :=
      mem_map_of_mem (d.mem_orderedEdits.mpr he)
    rw [heffect] at hmem
    obtain ⟨f, hf, hfe⟩ := mem_map.mp hmem
    have hle := hedits.start_le_stop f (d.mem_orderedEdits.mp hf)
    simp only [effect, Prod.mk.injEq] at hfe
    omega
  · have hchain : ((d.orderedEdits edits).map effect).IsChain fun x y => x.1.2 ≤ y.1.1 :=
      (isChain_map _).mpr hedits.chain
    rw [← heffect] at hchain
    exact (isChain_map _).mp hchain

/-- In an ordered list the insertions at an offset stand together. -/
lemma eq_append_filter_isAt (o : Nat) (h : l.Pairwise Precedes) :
    l = l.filter (fun e => e.start < o ∨ (e.start = o ∧ e.stop < o)) ++
      (l.filter (isAt o o) ++ l.filter (fun e => o < e.start ∨ (e.start = o ∧ o < e.stop))) := by
  induction h with
  | nil => rfl
  | @cons e l he _ ih =>
    -- once an edit no longer stands before the offset, none of the later ones does
    have hbefore : ¬ (e.start < o ∨ (e.start = o ∧ e.stop < o)) →
        l.filter (fun f => f.start < o ∨ (f.start = o ∧ f.stop < o)) = [] := by
      intro hnot
      refine filter_eq_nil_iff.mpr fun f hf => ?_
      have hef := he f hf
      unfold Precedes at hef
      rw [decide_eq_true_eq]
      omega
    have hcases : (e.start < o ∨ (e.start = o ∧ e.stop < o)) ∨ (e.start = o ∧ e.stop = o) ∨
        (o < e.start ∨ (e.start = o ∧ o < e.stop)) := by omega
    rcases hcases with hfirst | ⟨hstart, hstop⟩ | hlast
    · rw [filter_cons_of_pos (by simpa using hfirst), filter_cons_of_neg (by simp [isAt]; omega),
        filter_cons_of_neg (by simp; omega), cons_append, ← ih]
    · have hnone := hbefore (by omega)
      rw [hnone, nil_append] at ih
      rw [filter_cons_of_neg (by simp; omega), filter_cons_of_pos (by simp [isAt, hstart, hstop]),
        filter_cons_of_neg (by simp; omega), hnone, nil_append, cons_append, ← ih]
    · have hat : l.filter (isAt o o) = [] := by
        refine filter_eq_nil_iff.mpr fun f hf => ?_
        have hef := he f hf
        unfold Precedes at hef
        rw [isAt, Bool.and_eq_true, beq_iff_eq, beq_iff_eq]
        omega
      have hnone := hbefore (by omega)
      rw [hat, hnone, nil_append, nil_append] at ih
      rw [filter_cons_of_neg (by simp; omega), filter_cons_of_neg (by simp [isAt]; omega),
        filter_cons_of_pos (by simpa using hlast), hat, hnone, nil_append, nil_append, ← ih]

/-- Insertions at one offset put their texts there in the order of the list. -/
lemma applyEdits_insertions (h : d.NonOverlapping edits) {o : Nat} {e : TextEdit} (he : e ∈ edits)
    (hat : d.replaces o o e) : ∃ before after,
      d.orderedEdits edits = before ++ ((d.placeEdits edits).filter (isAt o o) ++ after) ∧
      (d.applyEdits edits).text = substitute (d.text.take o) 0 before ++
        ((edits.filter (d.replaces o o)).flatMap (·.newText) ++ substitute d.text o after) := by
  have hsplit := eq_append_filter_isAt o (d.orderedEdits_pairwise edits)
  rw [d.filter_isAt_orderedEdits] at hsplit
  generalize (d.orderedEdits edits).filter (fun e => e.start < o ∨ (e.start = o ∧ e.stop < o)) = before at hsplit
  generalize (d.orderedEdits edits).filter (fun e => o < e.start ∨ (e.start = o ∧ o < e.stop)) = after at hsplit
  refine ⟨before, after, hsplit, ?_⟩
  -- some insertion at `o` divides the edits before it from those behind
  obtain ⟨i, hi, hie⟩ : ∃ i ∈ (d.placeEdits edits).filter (isAt o o), i.start = o ∧ i.stop = o := by
    obtain ⟨n, hn⟩ := mem_iff_getElem?.mp he
    simp only [replaces, Bool.and_eq_true, beq_iff_eq] at hat
    have hmem : ⟨o, o, n, e.newText⟩ ∈ d.placeEdits edits :=
      d.mem_placeEdits.mpr ⟨e, hn, hat.1.symm, hat.2.symm, rfl⟩
    exact ⟨_, mem_filter.mpr ⟨hmem, by simp [isAt]⟩, rfl, rfl⟩
  have hpairwise := h.pairwise
  rw [hsplit, pairwise_append, pairwise_append] at hpairwise
  obtain ⟨_, ⟨_, _, hbehind⟩, hbefore⟩ := hpairwise
  have hle : ∀ f ∈ before, f.start ≤ f.stop ∧ f.stop ≤ o := by
    intro f hf
    have hstop := hbefore f hf i (by simp [hi])
    have hmem : f ∈ d.orderedEdits edits := by
      rw [hsplit]
      simp [hf]
    exact ⟨h.start_le_stop f (d.mem_orderedEdits.mp hmem), by omega⟩
  have hge : ∀ f ∈ (d.placeEdits edits).filter (isAt o o) ++ after, o ≤ f.start := by
    intro f hf
    rcases mem_append.mp hf with hf | hf
    · have hat := (mem_filter.mp hf).2
      simp only [isAt, Bool.and_eq_true, beq_iff_eq] at hat
      omega
    · have := hbehind i hi f hf
      omega
  have hinserted : ((d.placeEdits edits).filter (isAt o o)).flatMap (·.newText) =
      (edits.filter (d.replaces o o)).flatMap (·.newText) := by
    have heffects := congrArg (flatMap (·.2)) (d.map_effect_filter_isAt edits (o, o))
    rwa [flatMap_map, flatMap_map] at heffects
  rw [d.applyEdits_eq_substitute h, hsplit, substitute_append (Nat.zero_le o) hle hge, substitute_insertions ?_ after,
    hinserted]
  simp [isAt]

/-- **Edits that do not overlap are made at once.** Their order does not matter, except for edits of one range, and
insertions at one place appear there in the order of the list. -/
theorem applyEdits_is_simultaneous {edits : List TextEdit} (h : d.NonOverlapping edits) :
    (d.applyEdits edits).text = substitute d.text 0 (d.orderedEdits edits) ∧
    (∀ edits', d.KeepsOrder edits edits' → (d.applyEdits edits').text = (d.applyEdits edits).text) ∧
    (∀ o, ∀ e ∈ edits, d.replaces o o e = true → ∃ before after,
      d.orderedEdits edits = before ++ ((d.placeEdits edits).filter (PlacedEdit.isAt o o) ++ after) ∧
      (d.applyEdits edits).text = substitute (d.text.take o) 0 before ++
        ((edits.filter (d.replaces o o)).flatMap (·.newText) ++ substitute d.text o after)) := by
  refine ⟨d.applyEdits_eq_substitute h, fun edits' hkeeps => ?_, fun o e he hat => d.applyEdits_insertions h he hat⟩
  rw [d.applyEdits_eq_substitute (hkeeps.nonOverlapping d h), d.applyEdits_eq_substitute h]
  exact substitute_congr (hkeeps.map_effect_eq d)

/-- Two insertions before a replacement that begins at the same place, listed behind it. -/
theorem applyEdits_is_simultaneous_insertions :
    let d : TextDocument := { uri := [], text := ['a', 'b', '\r', '\n', 'c'] }
    let edits : List TextEdit := [⟨⟨⟨0, 1⟩, ⟨0, 9⟩⟩, ['Z']⟩, ⟨⟨⟨0, 1⟩, ⟨0, 1⟩⟩, ['X']⟩,
      ⟨⟨⟨0, 1⟩, ⟨0, 1⟩⟩, ['Y']⟩, ⟨⟨⟨-1, 5⟩, ⟨0, -2⟩⟩, ['W']⟩]
    d.NonOverlapping edits ∧ (d.applyEdits edits).text = substitute d.text 0 (d.orderedEdits edits) ∧
      (d.applyEdits edits).text = ['W', 'a', 'X', 'Y', 'Z', '\r', '\n', 'c'] := by
  intro d edits
  have h : d.NonOverlapping edits := d.nonOverlapping_iff.mpr ⟨by decide, by decide⟩
  refine ⟨h, (d.applyEdits_is_simultaneous h).1, ?_⟩
  have hplaced : d.placeEdits edits = [⟨1, 2, 0, ['Z']⟩, ⟨1, 1, 1, ['X']⟩, ⟨1, 1, 2, ['Y']⟩, ⟨0, 0, 3, ['W']⟩] := rfl
  rw [applyEdits, hplaced]
  simp [List.mergeSort, List.MergeSort.Internal.splitInTwo, PlacedEdit.appliedBefore, withText, PlacedEdit.apply, d]

end CppScaffold.TextDocument

namespace CppScaffold.WorkspaceEdit

open List

lemma lookup_addTo (uri : Text) (e : TextEdit) (changes : List (Text × List TextEdit)) :
    (addTo uri e changes).lookup uri = some ((changes.lookup uri).getD [] ++ [e]) := by
  fun_induction addTo uri e changes with
  | case1 => simp
  | case2 es rest => simp
  | case3 u es rest hne ih =>
    have hne' : (uri == u) = false := by simpa using fun heq => hne heq.symm
    rw [lookup_cons, lookup_cons, hne', ih]

lemma lookup_addTo_of_ne {uri uri' : Text} (hne : uri' ≠ uri) (e : TextEdit) (changes : List (Text × List TextEdit)) :
    ((addTo uri e changes).lookup uri').getD [] = (changes.lookup uri').getD [] := by
  have hne' : (uri' == uri) = false := by simpa using hne
  fun_induction addTo uri e changes with
  | case1 => rw [lookup_cons, hne']
  | case2 es rest => rw [lookup_cons, lookup_cons, hne']
  | case3 u es rest _ ih =>
    rw [lookup_cons, lookup_cons]
    cases uri' == u
    · exact ih
    · rfl

lemma editsOf_replace_of_ne {uri uri' : Text} (hne : uri' ≠ uri) (w : WorkspaceEdit) (r : Range) (text : Text) :
    (w.replace uri r text).editsOf uri' = w.editsOf uri' := by
  rw [editsOf, editsOf, replace, lookup_addTo_of_ne hne]

lemma editsOf_replace (w : WorkspaceEdit) (uri : Text) (r : Range) (text : Text) :
    (w.replace uri r text).editsOf uri = w.editsOf uri ++ [⟨r, text⟩] := by
  rw [editsOf, editsOf, replace, lookup_addTo, Option.getD_some]

end CppScaffold.WorkspaceEdit
