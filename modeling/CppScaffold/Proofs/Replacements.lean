import CppScaffold.Proofs.Layers
import CppScaffold.Proofs.Recognizers

/-!
# Masked attributes and comparisons

A text can be masked in two parts if the recogniser accepts the same in the first part whether the second one follows
or not (`Steady`).
-/

namespace CppScaffold.Mask

open Text Recognizer List

section

variable {r : Recognizer} {f : Text → Text}

/-- What is assumed of a recogniser whose accepted parts are replaced. -/
structure Local (r : Recognizer) : Prop where
  /-- The character before a place does not matter. -/
  prev_irrelevant : ∀ p q t, r p t = r q t
  bounded : Bounded r
  /-- What is accepted inside of an accepted part ends no later than this part. -/
  inner : ∀ {t n k m}, r none t = some n → 0 < k → k < n → r none (t.drop k) = some m → k + m ≤ n
  of_append : ∀ {x y n}, r none (x ++ y) = some n → n ≤ x.length → r none x = some n

/-- At all places of the first text the same is accepted, whether the second text follows or not. -/
def Steady (r : Recognizer) (x y : Text) : Prop :=
  ∀ x₁ x₂, x = x₁ ++ x₂ → x₂ ≠ [] → r none (x₂ ++ y) = r none x₂

/-- No accepted part begins in the first text and ends in the second one. -/
def NoCrossing (r : Recognizer) (x y : Text) : Prop :=
  ∀ x₁ x₂ n, x = x₁ ++ x₂ → x₂ ≠ [] → r none (x₂ ++ y) = some n → n ≤ x₂.length

variable {c : Char} {x y t a b : Text} {n : Nat}

lemma Steady.tail (h : Steady r (c :: x) y) : Steady r x y :=
  fun x₁ x₂ hx hne => h (c :: x₁) x₂ (by rw [hx, cons_append]) hne

lemma replaceAllFrom_prev (hr : ∀ p q t, r p t = r q t) (p q : Option Char) (t : Text) :
    replaceAllFrom r f p 0 t = replaceAllFrom r f q 0 t := by
  cases t with
  | nil => rfl
  | cons c t => rw [replaceAllFrom, replaceAllFrom, hr p q]

lemma replaceAllFrom_accepted {prev : Option Char} (h : r prev (c :: t) = some (n + 1)) : replaceAllFrom r f prev 0 (c
    :: t) = f ((c :: t).take (n + 1)) ++ replaceAllFrom r f (some c) n t := by
  rw [replaceAllFrom, h]

lemma replaceAllFrom_passed {prev : Option Char} (h : ∀ n, r prev (c :: t) ≠ some (n + 1)) :
    replaceAllFrom r f prev 0 (c :: t) = c :: replaceAllFrom r f (some c) 0 t := by
  rw [replaceAllFrom]
  split
  next n hn => exact absurd hn (h n)
  next => rfl

lemma replaceAllFrom_skip (hr : ∀ p q t, r p t = r q t) (prev : Option Char) (n : Nat) (t : Text) :
    replaceAllFrom r f prev n t = replaceAll r f (t.drop n) := by
  induction t generalizing prev n with
  | nil => simp [replaceAll, replaceAllFrom]
  | cons c t ih =>
    cases n with
    | zero => exact replaceAllFrom_prev hr prev none (c :: t)
    | succ n => exact ih (some c) n

lemma replaceAll_accepted (hr : ∀ p q t, r p t = r q t) (h : r none (c :: t) = some (n + 1)) :
    replaceAll r f (c :: t) = f ((c :: t).take (n + 1)) ++ replaceAll r f (t.drop n) := by
  rw [replaceAll, replaceAllFrom_accepted h, replaceAllFrom_skip hr]

lemma replaceAll_passed (hr : ∀ p q t, r p t = r q t) (h : r none (c :: t) = none) :
    replaceAll r f (c :: t) = c :: replaceAll r f t := by
  rw [replaceAll, replaceAllFrom_passed (by simp [h]), replaceAllFrom_prev hr _ none]
  rfl

lemma replaceAllFrom_append (hr : Local r) (h : Steady r x y) (prev : Option Char) {skip : Nat} (hskip : skip ≤
    x.length) : replaceAllFrom r f prev skip (x ++ y) = replaceAllFrom r f prev skip x ++ replaceAll r f y := by
  induction x generalizing prev skip with
  | nil =>
    obtain rfl : skip = 0 := Nat.le_zero.mp hskip
    exact replaceAllFrom_prev hr.prev_irrelevant prev none y
  | cons c x ih =>
    cases skip with
    | succ skip => exact ih h.tail (some c) (Nat.le_of_succ_le_succ hskip)
    | zero =>
      have hsame : r prev (c :: (x ++ y)) = r prev (c :: x) := by
        rw [hr.prev_irrelevant prev none, hr.prev_irrelevant prev none]
        exact h [] (c :: x) rfl (by simp)
      rw [cons_append]
      by_cases haccepted : ∃ n, r prev (c :: x) = some (n + 1)
      · obtain ⟨n, hn⟩ := haccepted
        have hle : n + 1 ≤ (c :: x).length := hr.bounded _ _ _ hn
        rw [replaceAllFrom_accepted hn, replaceAllFrom_accepted (hsame.trans hn),
          ih h.tail (some c) (Nat.le_of_succ_le_succ hle), ← cons_append, take_append_of_le_length hle,
          append_assoc]
      · have hpassed : ∀ n, r prev (c :: x) ≠ some (n + 1) := not_exists.mp haccepted
        rw [replaceAllFrom_passed hpassed, replaceAllFrom_passed (hsame ▸ hpassed),
          ih h.tail (some c) (Nat.zero_le _), cons_append]

lemma replaceAll_append (hr : Local r) (h : Steady r x y) :
    replaceAll r f (x ++ y) = replaceAll r f x ++ replaceAll r f y :=
  replaceAllFrom_append hr h none (Nat.zero_le _)

/-- If an accepted part reaches from the first text into the second one, then so does a replaced part. -/
lemma exists_crossing (hr : Local r) {x₁ x₂ : Text} (hn : r none (x₂ ++ y) = some n) (hcross : x₂.length < n)
    (hne : x₂ ≠ []) (prev : Option Char) {skip : Nat} (hskip : skip ≤ x₁.length) :
    ∃ u w v k, replaceAllFrom r all prev skip (x₁ ++ (x₂ ++ y)) = u ++ (all w ++ v) ∧
      skip + u.length + k = x₁.length + x₂.length ∧ 0 < k ∧ k < w.length := by
  have hpos := length_pos_iff.mpr hne
  induction x₁ generalizing prev skip with
  | nil =>
    obtain rfl : skip = 0 := Nat.le_zero.mp hskip
    obtain ⟨c, x₂, rfl⟩ := exists_cons_of_ne_nil hne
    obtain ⟨n, rfl⟩ : ∃ m, n = m + 1 := ⟨n - 1, by omega⟩
    have hle := hr.bounded _ _ _ hn
    refine ⟨[], (c :: x₂ ++ y).take (n + 1), replaceAllFrom r all (some c) n (x₂ ++ y), (c :: x₂).length, ?_, by simp,
      hpos, ?_⟩
    · exact replaceAllFrom_accepted (by rw [hr.prev_irrelevant prev none]; exact hn)
    · rwa [length_take_of_le hle]
  | cons c x₁ ih =>
    cases skip with
    | succ skip =>
      obtain ⟨u, w, v, k, heq, hk, h⟩ := ih (some c) (Nat.le_of_succ_le_succ hskip)
      exact ⟨u, w, v, k, heq, by simp; omega, h⟩
    | zero =>
      rw [cons_append]
      by_cases haccepted : ∃ m, r prev (c :: (x₁ ++ (x₂ ++ y))) = some (m + 1)
      · obtain ⟨m, hm⟩ := haccepted
        have hm' : r none (c :: (x₁ ++ (x₂ ++ y))) = some (m + 1) := by rwa [hr.prev_irrelevant none prev]
        have hle := hr.bounded _ _ _ hm
        rw [replaceAllFrom_accepted hm]
        by_cases hreach : (c :: x₁).length + x₂.length < m + 1
        · -- the part that is replaced here reaches far enough
          refine ⟨[], (c :: (x₁ ++ (x₂ ++ y))).take (m + 1), _, (c :: x₁).length + x₂.length, rfl, by simp, by omega, ?_⟩
          rwa [length_take_of_le hle]
        · by_cases hinside : m + 1 ≤ (c :: x₁).length
          · obtain ⟨u, w, v, k, heq, hk, h⟩ := ih (some c) (Nat.le_of_succ_le_succ hinside)
            refine ⟨all ((c :: (x₁ ++ (x₂ ++ y))).take (m + 1)) ++ u, w, v, k, by rw [heq, append_assoc], ?_, h⟩
            rw [length_append, all, length_map, length_take_of_le hle, length_cons]
            omega
          · -- otherwise the given part would end inside of it
            have hdrop : (c :: (x₁ ++ (x₂ ++ y))).drop (c :: x₁).length = x₂ ++ y := by
              rw [← cons_append, drop_left]
            have := hr.inner hm' (k := (c :: x₁).length) (by simp) (by omega) (by rw [hdrop, hn])
            omega
      · have hpassed := not_exists.mp haccepted
        obtain ⟨u, w, v, k, heq, hk, h⟩ := ih (some c) (Nat.zero_le _)
        exact ⟨c :: u, w, v, k, by rw [replaceAllFrom_passed hpassed, heq, cons_append], by simp; omega, h⟩

lemma isBlank_of_mem_all {w : Text} (h : c ∈ all w) : isBlank c := by
  obtain ⟨d, _, rfl⟩ := mem_map.mp h
  exact isBlank_maskChar d

lemma exists_blank_of_crossing (hr : Local r) (h : replaceAll r all (x ++ y) = a ++ b) (hlength : a.length = x.length)
    (hcross : ¬ NoCrossing r x y) :
    ∃ c d, a.getLast? = some c ∧ isBlank c ∧ b.head? = some d ∧ isBlank d := by
  simp only [NoCrossing, not_forall, Nat.not_le] at hcross
  obtain ⟨x₁, x₂, n, rfl, hne, hn, hlt⟩ := hcross
  obtain ⟨u, w, v, k, heq, hk, hpos, hlt⟩ := exists_crossing hr hn hlt hne none (Nat.zero_le x₁.length)
  have hget : ∀ i < w.length, ∃ c, (a ++ b)[u.length + i]? = some c ∧ isBlank c := by
    intro i hi
    have hi : i < (all w).length := by rwa [all, length_map]
    refine ⟨(all w)[i], ?_, isBlank_of_mem_all (getElem_mem hi)⟩
    rw [← h, append_assoc, replaceAll, heq, getElem?_append_right (by omega), Nat.add_sub_cancel_left,
      getElem?_append_left hi, getElem?_eq_getElem hi]
  rw [length_append] at hlength
  obtain ⟨c, hc, hblank⟩ := hget (k - 1) (by omega)
  obtain ⟨d, hd, hblank'⟩ := hget k hlt
  rw [show u.length + (k - 1) = a.length - 1 by omega, getElem?_append_left (by omega), ← getLast?_eq_getElem?] at hc
  rw [show u.length + k = a.length by omega, getElem?_append_right (Nat.le_refl _), Nat.sub_self, ← head?_eq_getElem?] at hd
  exact ⟨c, d, hc, hblank, hd, hblank'⟩

/-- A place that nothing reaches across is steady, if nothing accepted at the end of the first text is refused because
of the second. -/
lemma NoCrossing.steady (hr : Local r) (h : NoCrossing r x y)
    (hkept : ∀ x₁ x₂ n, x = x₁ ++ x₂ → r none x₂ = some n → r none (x₂ ++ y) = some n) : Steady r x y := by
  intro x₁ x₂ hx hne
  cases hn : r none (x₂ ++ y) with
  | some n => exact (hr.of_append hn (h x₁ x₂ n hx hne hn)).symm
  | none =>
    cases hn' : r none x₂ with
    | none => rfl
    | some n => rw [hkept x₁ x₂ n hx hn'] at hn; cases hn

/-- Where a visible character stands next to a place, the text falls into two parts there. -/
lemma exists_steady (hr : Local r) (hform : ∀ t, MaskedForm t (replaceAll r all t)) (h : replaceAll r all t = a ++ b)
    (hvisible : (∀ c, b.head? = some c → isBlank c = false) ∨ (∀ c, a.getLast? = some c → isBlank c = false)) (hkept : ∀
    x y n, x ++ y <:+ t → r none x = some n → r none (x ++ y) = some n) : ∃ x y, t = x ++ y ∧
    replaceAll r all x = a ∧ replaceAll r all y = b ∧ Steady r x y := by
  obtain ⟨x, y, rfl, hx, -⟩ := (h ▸ hform t).append_inv
  have hcrossing : NoCrossing r x y := by
    by_contra hcross
    obtain ⟨c, d, hc, hblank, hd, hblank'⟩ := exists_blank_of_crossing hr h hx.length_eq hcross
    rcases hvisible with hhead | hlast
    · rw [hhead d hd] at hblank'
      cases hblank'
    · rw [hlast c hc] at hblank
      cases hblank
  have hsteady := hcrossing.steady hr fun x₁ x₂ n hx hn => hkept x₂ y n ⟨x₁, by rw [hx, append_assoc]⟩ hn
  obtain ⟨hxa, hyb⟩ := MaskedForm.parts hform (replaceAll_append hr hsteady) h hx
  exact ⟨x, y, rfl, hxa, hyb, hsteady⟩

end

/-! ## Attributes -/

variable {t x y : Text} {n : Nat}

lemma attributeGroup_eq_some_iff {p : Option Char} : attributeGroup p t = some n ↔
    ∃ rest i, t = '[' :: '[' :: rest ∧ find? [']', ']'] rest = some i ∧ (rest.take i).any isBreak = false ∧ n = i + 4 := by
  constructor
  · intro h
    unfold attributeGroup at h
    split at h
    next rest =>
      split at h
      next i hi =>
        split at h
        · cases h
        next hbreak =>
          obtain rfl := Option.some.inj h
          exact ⟨rest, i, rfl, hi, by simpa using hbreak, rfl⟩
      next => cases h
    next => cases h
  · rintro ⟨rest, i, rfl, hi, hbreak, rfl⟩
    simp [attributeGroup, hi, hbreak]

lemma local_attributeGroup : Local attributeGroup where
  prev_irrelevant _ _ _ := rfl
  bounded p t n h := by
    obtain ⟨rest, i, rfl, hi, _, rfl⟩ := attributeGroup_eq_some_iff.mp h
    have := add_length_le_of_find? hi (by simp)
    simp at this ⊢
    omega
  inner := by
    intro t n k m h hpos hlt hm
    obtain ⟨rest, i, rfl, hi, _, rfl⟩ := attributeGroup_eq_some_iff.mp h
    obtain ⟨rest', i', hrest, hi', _, rfl⟩ := attributeGroup_eq_some_iff.mp hm
    obtain ⟨hclosing, _⟩ := find?_eq_some_iff.mp hi
    obtain ⟨_, hfirst⟩ := find?_eq_some_iff.mp hi'
    have hopen : ∀ j < 2, ('[' :: '[' :: rest)[k + j]? = some '[' := by
      intro j hj
      rw [← getElem?_drop, hrest]
      match j, hj with
      | 0, _ => rfl
      | 1, _ => rfl
    have hclose : ∀ j < 2, ('[' :: '[' :: rest)[i + 2 + j]? = some ']' := by
      intro j hj
      rw [Nat.add_right_comm, getElem?_cons_succ, getElem?_cons_succ,
        getElem?_of_prefix_drop hclosing (i := j) (by simpa using hj)]
      match j, hj with
      | 0, _ => rfl
      | 1, _ => rfl
    -- the closing brackets of the outer attribute stand behind the inner opening ones
    have hle : k ≤ i := by
      by_contra hgt
      have hne : some '[' ≠ some ']' := by decide
      obtain rfl | rfl | rfl : k = i + 1 ∨ k = i + 2 ∨ k = i + 3 := by omega
      · exact hne ((hopen 1 (by omega)).symm.trans (hclose 0 (by omega)))
      · exact hne ((hopen 0 (by omega)).symm.trans (hclose 0 (by omega)))
      · exact hne ((hopen 0 (by omega)).symm.trans (hclose 1 (by omega)))
    have hdrop : rest.drop k = rest' := by simpa using congrArg (drop 2) hrest
    by_contra hgt
    refine hfirst (i - k) (by omega) ?_
    rwa [← hdrop, drop_drop, Nat.add_sub_cancel' hle]
  of_append := by
    intro x y n h hle
    obtain ⟨rest, i, heq, hi, hbreak, rfl⟩ := attributeGroup_eq_some_iff.mp h
    match x, heq with
    | [], _ => simp at hle
    | [_], _ => simp at hle
    | a :: b :: x, heq =>
      obtain ⟨rfl, rfl, rfl⟩ : a = '[' ∧ b = '[' ∧ x ++ y = rest := by simpa using heq
      have hx : i + 2 ≤ x.length := by simpa using hle
      refine attributeGroup_eq_some_iff.mpr ⟨x, i, rfl, find?_of_append hi hx, ?_, rfl⟩
      rwa [take_append_of_le_length (by omega)] at hbreak

/-- What an attribute looks like when it is masked. -/
def maskedAttribute (keep : Bool) (w : Text) : Text :=
  if keep then w.take 2 ++ all (between w 2 (w.length - 2)) ++ w.drop (w.length - 2) else all w

lemma attributes_eq (t : Text) (keep : Bool) : attributes t keep = replaceAll attributeGroup (maskedAttribute keep) t :=
  rfl

lemma attributes_accepted (h : attributeGroup none t = some n) (keep : Bool) :
    attributes t keep = maskedAttribute keep (t.take n) ++ attributes (t.drop n) keep := by
  obtain ⟨rest, i, rfl, _, _, rfl⟩ := attributeGroup_eq_some_iff.mp h
  exact replaceAll_accepted local_attributeGroup.prev_irrelevant h

lemma attributes_passed {c : Char} (h : attributeGroup none (c :: t) = none) (keep : Bool) :
    attributes (c :: t) keep = c :: attributes t keep :=
  replaceAll_passed local_attributeGroup.prev_irrelevant h

lemma attributes_append (h : '[' ∉ x) (y : Text) (keep : Bool) :
    attributes (x ++ y) keep = x ++ attributes y keep := by
  induction x with
  | nil => rfl
  | cons c x ih =>
    have hnone : attributeGroup none (c :: (x ++ y)) = none := by
      refine Option.eq_none_iff_forall_ne_some.mpr fun n hn => ?_
      obtain ⟨_, _, heq, _⟩ := attributeGroup_eq_some_iff.mp hn
      exact h (by rw [(cons_eq_cons.mp heq).1]; exact mem_cons_self)
    rw [cons_append, attributes_passed hnone, ih fun hx => h (mem_cons_of_mem c hx), cons_append]

lemma getLast?_maskedAttribute (h : attributeGroup none t = some n) :
    (maskedAttribute true (t.take n)).getLast? = some ']' := by
  obtain ⟨rest, i, rfl, hi, _, rfl⟩ := attributeGroup_eq_some_iff.mp h
  have hle := add_length_le_of_find? hi (by simp)
  simp only [length_cons, length_nil] at hle
  have hlength : (('[' :: '[' :: rest).take (i + 4)).length = i + 4 :=
    length_take_of_le (by simp only [length_cons]; omega)
  have hlast : ('[' :: '[' :: rest)[i + 3]? = some ']' := getElem?_of_prefix_drop (find?_eq_some_iff.mp hi).1 (i := 1) (by simp)
  rw [maskedAttribute, if_pos rfl, getLast?_append_of_ne_nil _ (ne_nil_of_length_pos (by
    rw [length_drop]; omega)), getLast?_drop, if_neg (by omega), getLast?_eq_getElem?, hlength,
    getElem?_take_of_lt (by omega)]
  exact hlast

/-- Where the brackets of attributes would be visible and are not, nothing is masked. -/
lemma suffix_of_attributes {b : Text} (h : b <:+ attributes t true) (hb : ']' ∉ b) :
    b <:+ t ∧ b <:+ attributes t false := by
  induction hn : t.length using Nat.strong_induction_on generalizing t b with
  | _ n ih =>
    subst hn
    cases t with
    | nil => exact ⟨h, h⟩
    | cons c t =>
      cases hgroup : attributeGroup none (c :: t) with
      | none =>
        rw [attributes_passed hgroup] at h ⊢
        rcases suffix_cons_iff.mp h with rfl | h
        · -- nothing is masked at all
          obtain ⟨hsame, hsame'⟩ := ih t.length (by simp) (t := t) suffix_rfl (fun hmem => hb (by simp [hmem])) rfl
          have hlength : ∀ keep, (attributes t keep).length = t.length := fun keep => (maskedForm_attributes t keep).length_eq
          have heq := hsame.eq_of_length (hlength true)
          have heq' := hsame'.eq_of_length ((hlength true).trans (hlength false).symm)
          rw [← heq', heq]
          exact ⟨suffix_rfl, suffix_rfl⟩
        · obtain ⟨hsame, hsame'⟩ := ih t.length (by simp) h hb rfl
          exact ⟨hsame.trans (suffix_cons ..), hsame'.trans (suffix_cons ..)⟩
      | some n =>
        rw [attributes_accepted hgroup] at h ⊢
        have hrest : b <:+ attributes ((c :: t).drop n) true := by
          obtain ⟨a, ha⟩ := h
          rcases append_eq_append_iff.mp ha with ⟨u, hu, rfl⟩ | ⟨u, rfl, hu⟩
          · cases u with
            | nil => exact suffix_rfl
            | cons d u =>
              have hlast := getLast?_maskedAttribute hgroup
              rw [hu, getLast?_append_of_ne_nil _ (cons_ne_nil d u)] at hlast
              exact absurd (mem_append_left _ (mem_of_getLast? hlast)) hb
          · exact ⟨u, hu.symm⟩
        have hlt : ((c :: t).drop n).length < (c :: t).length := by
          obtain ⟨_, i, _, _, _, rfl⟩ := attributeGroup_eq_some_iff.mp hgroup
          rw [length_drop, length_cons]
          omega
        obtain ⟨hsame, hsame'⟩ := ih _ hlt hrest hb rfl
        exact ⟨hsame.trans (drop_suffix ..), hsame'.trans (suffix_append ..)⟩

/-- Whether what is begun with two brackets and is no attribute stays open: no two closing brackets follow. -/
def attributesSettled : Text → Bool
  | [] => true
  | c :: rest =>
    (!(['[', '['].isPrefixOf (c :: rest)) || (attributeGroup none (c :: rest)).isSome
      || !occursIn [']', ']'] (rest.drop 1)) && attributesSettled rest

/-- Some attribute is begun and not closed. -/
def OpensAttribute (x : Text) : Prop :=
  ∃ u z, x = u ++ '[' :: '[' :: z ∧ attributeGroup none ('[' :: '[' :: z) = none

lemma attributesSettled_iff : attributesSettled t ↔
    ∀ u z, t = u ++ '[' :: '[' :: z → attributeGroup none ('[' :: '[' :: z) = none → ¬ [']', ']'] <:+: z := by
  induction t with
  | nil => simp [attributesSettled]
  | cons c rest ih =>
    rw [attributesSettled, Bool.and_eq_true_iff, ih]
    constructor
    · rintro ⟨hc, hrest⟩ u z heq hnone
      cases u with
      | nil =>
        obtain ⟨rfl, rfl⟩ : c = '[' ∧ rest = '[' :: z := by simpa using heq
        rw [← find?_eq_none_iff]
        simpa [hnone, occursIn] using hc
      | cons d u =>
        obtain ⟨rfl, rfl⟩ : c = d ∧ rest = u ++ '[' :: '[' :: z := by simpa using heq
        exact hrest u z rfl hnone
    · intro h
      refine ⟨?_, fun u z heq hnone => h (c :: u) z (by rw [heq, cons_append]) hnone⟩
      by_cases hbegin : ['[', '['] <+: c :: rest
      · obtain ⟨z, hz⟩ := hbegin
        obtain ⟨rfl, rfl⟩ : '[' = c ∧ '[' :: z = rest := by simpa using hz
        cases hnone : attributeGroup none ('[' :: '[' :: z) with
        | some n => simp
        | none => simpa [occursIn, find?_eq_none_iff] using h [] z rfl hnone
      · rw [← isPrefixOf_iff_prefix, Bool.not_eq_true] at hbegin
        simp [hbegin]

lemma attributeGroup_append (h : attributeGroup none x = some n) (y : Text) :
    attributeGroup none (x ++ y) = some n := by
  obtain ⟨rest, i, rfl, hi, hbreak, rfl⟩ := attributeGroup_eq_some_iff.mp h
  have hle := add_length_le_of_find? hi (by simp)
  refine attributeGroup_eq_some_iff.mpr ⟨rest ++ y, i, by simp, find?_append hi (by simp) y, ?_, rfl⟩
  rwa [take_append_of_le_length (by omega)]

lemma attributesSettled_of_steady (hfine : attributesSettled (x ++ y))
    (hcut : Steady attributeGroup x y) : attributesSettled x ∧ attributesSettled y := by
  simp only [attributesSettled_iff] at hfine ⊢
  refine ⟨fun u z heq hnone hoccurs => ?_, fun u z heq hnone => ?_⟩
  · have hsame := hcut u ('[' :: '[' :: z) heq (by simp)
    refine hfine u (z ++ y) (by simp [heq]) (hsame.trans hnone) (hoccurs.trans (prefix_append ..).isInfix)
  · exact hfine (x ++ u) z (by rw [heq, append_assoc]) hnone

lemma not_closes_of_steady (hfine : attributesSettled (x ++ y))
    (hcut : Steady attributeGroup x y) : OpensAttribute x → ¬ [']', ']'] <:+: y := by
  rintro ⟨u, z, rfl, hnone⟩ hoccurs
  have hsame := hcut u ('[' :: '[' :: z) rfl (by simp)
  refine attributesSettled_iff.mp hfine u (z ++ y) (by simp) (hsame.trans hnone) ?_
  exact hoccurs.trans (suffix_append ..).isInfix

lemma steady_of_not_closes (hapart : OpensAttribute x → ¬ [']', ']'] <:+: y)
    (hloose : Loose (fun c => c == '[' || c == ']') x y) : Steady attributeGroup x y := by
  intro x₁ x₂ hx hne
  cases hn : attributeGroup none x₂ with
  | some n => exact attributeGroup_append hn y
  | none =>
    by_contra hsome
    obtain ⟨n, hsome⟩ := Option.ne_none_iff_exists'.mp hsome
    obtain ⟨rest, i, heq, hi, hbreak, rfl⟩ := attributeGroup_eq_some_iff.mp hsome
    match x₂, hne, heq with
    | [_], _, heq =>
      obtain ⟨rfl, rfl⟩ := cons_eq_cons.mp heq
      exact hloose.absurd (by rw [hx, getLast?_concat]) rfl rfl rfl
    | _ :: _ :: z, _, heq =>
      obtain ⟨rfl, rfl, rfl⟩ := by simpa using heq
      have hoccurs : [']', ']'] <:+: z ++ y := by
        by_contra h
        rw [find?_eq_none_iff.mpr h] at hi
        cases hi
      rcases infix_append_pair hoccurs with hz | hy | ⟨hz, hy⟩
      · -- the closing brackets stand in the first text and are found there alike
        obtain ⟨j, hj⟩ := Option.ne_none_iff_exists'.mp fun h => find?_eq_none_iff.mp h hz
        have hle := add_length_le_of_find? hj (by simp)
        obtain rfl := Option.some.inj (hi.symm.trans (find?_append hj (by simp) y))
        rw [take_append_of_le_length (by omega)] at hbreak
        rw [attributeGroup_eq_some_iff.mpr ⟨z, i, rfl, hj, hbreak, rfl⟩] at hn
        cases hn
      · exact hapart ⟨x₁, z, hx, hn⟩ hy
      · refine hloose.absurd (c := ']') ?_ rfl hy rfl
        simp [hx, getLast?_append, getLast?_cons, hz]

def Layer.attributes (gap : Char → Bool) : Layer where
  mask t := Mask.attributes t false
  special c := c == '[' || c == ']'
  stands c := !isBlank c && !(c == '[' || c == ']')
  Cut := Steady attributeGroup
  Apart x y := OpensAttribute x → ¬ [']', ']'] <:+: y
  Swallows _ := False
  Fine t := attributesSettled t
  Gap g := ∀ c ∈ g, gap c
  maskedForm t := maskedForm_attributes t false
  special_visible c h := by
    simp only [Bool.or_eq_true, beq_iff_eq] at h
    rcases h with rfl | rfl <;> decide
  stands_visible := by simp +contextual
  mask_append h := replaceAll_append local_attributeGroup h
  fine_of_cut := attributesSettled_of_steady
  apart_of_cut := not_closes_of_steady
  cut_of_apart hapart hloose _ := steady_of_not_closes hapart hloose
  apart_of_append_left := by
    intro x x' y hcut hapart
    refine ⟨?_, ?_⟩
    · rintro ⟨u, z, rfl, hnone⟩
      exact hapart ⟨u, z ++ x', by simp, (hcut u ('[' :: '[' :: z) rfl (cons_ne_nil _ _)).trans hnone⟩
    · rintro ⟨u, z, rfl, hnone⟩
      exact hapart ⟨x ++ u, z, by simp, hnone⟩
  apart_of_append_right := by
    intro x y y' _ hapart
    exact ⟨fun h hoccurs => hapart h (hoccurs.trans (prefix_append ..).isInfix),
      fun h hoccurs => hapart h (hoccurs.trans (suffix_append ..).isInfix)⟩
  apart_append_left := by
    rintro x x' y hcut hloose hx hx' ⟨u, z, heq, hnone⟩
    rcases append_eq_append_iff.mp heq with ⟨a, rfl, rfl⟩ | ⟨a, rfl, ha⟩
    · exact hx' ⟨a, z, rfl, hnone⟩
    · match a, ha with
      | [], ha => exact hx' ⟨[], z, ha.symm, hnone⟩
      | [_], ha =>
        obtain ⟨rfl, rfl⟩ := cons_eq_cons.mp ha
        exact (hloose.absurd (getLast?_concat ..) rfl rfl rfl).elim
      | _ :: _ :: a, ha =>
        obtain ⟨rfl, rfl, rfl⟩ := by simpa using ha
        exact hx ⟨u, a, rfl, (hcut u _ rfl (cons_ne_nil _ _)).symm.trans hnone⟩
  apart_append_right := by
    intro x y y' _ hloose hy hy' hopen hoccurs
    rcases infix_append_pair hoccurs with h | h | ⟨hlast, hhead⟩
    · exact hy hopen h
    · exact hy' hopen h
    · exact hloose.absurd hlast rfl hhead rfl
  apart_separator := by
    intro s hs x
    refine ⟨fun _ hoccurs => ?_, ?_⟩
    · exact absurd (hs ']' (hoccurs.subset (by simp))) (by decide)
    · rintro ⟨u, z, rfl, _⟩
      exact absurd (hs '[' (by simp)) (by decide)
  swallows_append _ _ h := h
  not_swallows_of_visible _ _ := id
  not_swallows_separator _ := id
  cut_at _ hmask hseam := exists_steady local_attributeGroup (fun t => maskedForm_attributes t false) hmask
    (hseam.visible (by simp +contextual)) fun x y n _ hn => attributeGroup_append hn y

/-! ## Comparisons -/

/-- The characters that form a comparison operator together with an equals sign. -/
def isComparing (c : Char) : Bool := c == '<' || c == '>' || c == '!' || c == '='

lemma comparisonOperator_eq_some_iff {p : Option Char} : comparisonOperator p t = some n ↔
    ∃ c rest, t = c :: '=' :: rest ∧ isComparing c ∧ rest.head? ≠ some '=' ∧ n = 2 := by
  constructor
  · intro h
    unfold comparisonOperator at h
    split at h
    next c rest =>
      split at h
      next hc =>
        obtain rfl := Option.some.inj h
        rw [Bool.and_eq_true_iff, bne_iff_ne] at hc
        exact ⟨c, rest, rfl, hc.1, hc.2, rfl⟩
      next => cases h
    next => cases h
  · rintro ⟨c, rest, rfl, hc, hrest, rfl⟩
    rw [comparisonOperator, if_pos]
    rw [Bool.and_eq_true_iff, bne_iff_ne]
    exact ⟨hc, hrest⟩

lemma local_comparisonOperator : Local comparisonOperator where
  prev_irrelevant _ _ _ := rfl
  bounded p t n h := by
    obtain ⟨c, rest, rfl, _, _, rfl⟩ := comparisonOperator_eq_some_iff.mp h
    simp
  inner := by
    intro t n k m h hpos hlt hm
    obtain ⟨c, rest, rfl, _, hrest, rfl⟩ := comparisonOperator_eq_some_iff.mp h
    obtain rfl : k = 1 := by omega
    obtain ⟨c', rest', heq, _, _, rfl⟩ := comparisonOperator_eq_some_iff.mp hm
    obtain ⟨rfl, rfl⟩ := cons_eq_cons.mp heq
    exact absurd rfl hrest
  of_append := by
    intro x y n h hle
    obtain ⟨c, rest, heq, hc, hrest, rfl⟩ := comparisonOperator_eq_some_iff.mp h
    match x, hle, heq with
    | a :: b :: x, _, heq =>
      obtain ⟨rfl, rfl, rfl⟩ := by simpa using heq
      refine comparisonOperator_eq_some_iff.mpr ⟨a, x, rfl, hc, fun h => hrest ?_, rfl⟩
      rw [head?_append, h]
      rfl

/-- Whether no comparison operator is followed by one more equals sign. -/
def comparisonsSettled : Text → Bool
  | [] => true
  | c :: rest => !(isComparing c && ['=', '='].isPrefixOf rest) && comparisonsSettled rest

lemma comparisonsSettled_iff :
    comparisonsSettled t ↔ ∀ u c z, t = u ++ c :: '=' :: '=' :: z → isComparing c = false := by
  induction t with
  | nil => simp [comparisonsSettled]
  | cons d rest ih =>
    rw [comparisonsSettled, Bool.and_eq_true_iff, ih]
    constructor
    · rintro ⟨hd, hrest⟩ u c z heq
      cases u with
      | nil =>
        obtain ⟨rfl, rfl⟩ := cons_eq_cons.mp heq
        simpa using hd
      | cons e u =>
        obtain ⟨rfl, rfl⟩ := cons_eq_cons.mp heq
        exact hrest u c z rfl
    · intro h
      refine ⟨?_, fun u c z heq => h (d :: u) c z (by rw [heq, cons_append])⟩
      by_cases hbegin : ['=', '='] <+: rest
      · obtain ⟨z, rfl⟩ := hbegin
        simp [h [] d z rfl]
      · rw [← isPrefixOf_iff_prefix, Bool.not_eq_true] at hbegin
        simp [hbegin]

lemma comparisonOperator_append (h : comparisonOperator none x = some n) (hy : ∀ c, x = [c, '='] → isComparing c →
    y.head? ≠ some '=') : comparisonOperator none (x ++ y) = some n := by
  obtain ⟨c, rest, rfl, hc, hrest, rfl⟩ := comparisonOperator_eq_some_iff.mp h
  refine comparisonOperator_eq_some_iff.mpr ⟨c, rest ++ y, rfl, hc, ?_, rfl⟩
  cases rest with
  | nil => exact hy c rfl hc
  | cons d rest => exact hrest

lemma comparisonOperator_append_of_settled (ht : comparisonsSettled t) (x y : Text) (n : Nat)
    (hsuffix : x ++ y <:+ t) (hn : comparisonOperator none x = some n) : comparisonOperator none (x ++ y) = some n := by
  refine comparisonOperator_append hn ?_
  rintro c rfl hc hhead
  obtain ⟨z, rfl⟩ := head?_eq_some_iff.mp hhead
  obtain ⟨u, rfl⟩ := hsuffix
  rw [comparisonsSettled_iff.mp ht u c z rfl] at hc
  cases hc

def Layer.comparisons (gap : Char → Bool) : Layer where
  mask := Mask.comparisons
  special c := c == '='
  stands c := !isBlank c
  Cut := Steady comparisonOperator
  Apart _ _ := True
  Swallows _ := False
  Fine t := comparisonsSettled t
  Gap g := ∀ c ∈ g, gap c
  maskedForm := maskedForm_comparisons
  special_visible c h := by
    rw [beq_iff_eq.mp h]
    decide
  stands_visible := by simp
  mask_append h := replaceAll_append local_comparisonOperator h
  fine_of_cut := by
    intro x y hfine _
    simp only [comparisonsSettled_iff] at hfine ⊢
    refine ⟨?_, ?_⟩
    · rintro u c z rfl
      exact hfine u c (z ++ y) (by simp)
    · rintro u c z rfl
      exact hfine (x ++ u) c z (by simp)
  apart_of_cut _ _ := trivial
  cut_of_apart := by
    intro x y _ hloose _ x₁ x₂ hx hne
    cases hn : comparisonOperator none x₂ with
    | some n =>
      refine comparisonOperator_append hn ?_
      rintro c rfl _ hhead
      exact hloose.absurd (c := '=') (by simp [hx]) rfl hhead rfl
    | none =>
      by_contra hsome
      obtain ⟨n, hsome⟩ := Option.ne_none_iff_exists'.mp hsome
      obtain ⟨c, rest, heq, hc, hrest, rfl⟩ := comparisonOperator_eq_some_iff.mp hsome
      match x₂, hne, heq with
      | [_], _, heq =>
        obtain ⟨rfl, rfl⟩ := cons_eq_cons.mp heq
        refine hloose.absurd (by rw [hx, getLast?_concat]) ?_ rfl rfl
        simp only [isComparing, Bool.or_eq_true, beq_iff_eq] at hc
        rcases hc with ((rfl | rfl) | rfl) | rfl <;> decide
      | _ :: _ :: _, _, _ =>
        rw [local_comparisonOperator.of_append hsome (by simp)] at hn
        cases hn
  apart_of_append_left _ _ := ⟨trivial, trivial⟩
  apart_of_append_right _ _ := ⟨trivial, trivial⟩
  apart_append_left _ _ _ _ := trivial
  apart_append_right _ _ _ _ := trivial
  apart_separator _ _ := ⟨trivial, trivial⟩
  swallows_append _ _ h := h
  not_swallows_of_visible _ _ := id
  not_swallows_separator _ := id
  cut_at hfine hmask hseam := exists_steady local_comparisonOperator maskedForm_comparisons hmask
    (hseam.visible (by simp)) (comparisonOperator_append_of_settled hfine)

end CppScaffold.Mask
