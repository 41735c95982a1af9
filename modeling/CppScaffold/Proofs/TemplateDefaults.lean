import CppScaffold.Entity.Template
import CppScaffold.Proofs.Normalization
import CppScaffold.Proofs.Trimming
import Mathlib.Data.List.Chain

/-!
# Taking out the defaults of template parameters

A default is taken out with the blanks before it, up to the next comma or closing angle bracket (`removeAll_segment`),
which stays (`count_removeAll`). What is declared before it is kept if its equals signs stand directly before such a
character (`removeAll_declared`), and gets shorter otherwise (`length_removeAll_le`).
-/

namespace CppScaffold.Entity

open Text Recognizer List

def endsDefault (c : Char) : Bool := c == ',' || c == '>'

variable {c e : Char} {x v y a d : Text}

lemma endsDefault_iff : endsDefault c ↔ c = ',' ∨ c = '>' := by
  simp [endsDefault]

lemma not_isBlank_of_endsDefault (h : endsDefault c) : isBlank c = false := by
  rcases endsDefault_iff.mp h with rfl | rfl <;> decide

lemma ne_equals_of_endsDefault (h : endsDefault c) : c ≠ '=' := by
  rintro rfl
  cases h

/-! ## What is accepted -/

lemma templateDefault_eq : templateDefault =
    andThen blanks (andThen (char (· == '=')) (andThen (some1 (!endsDefault ·)) (ahead (char endsDefault)))) := rfl

lemma templateDefault_eq_some_iff {prev : Option Char} {t : Text} {n : Nat} : templateDefault prev t = some n ↔
    ∃ b v e y, t = b ++ '=' :: (v ++ e :: y) ∧ (∀ c ∈ b, isBlank c) ∧ v ≠ [] ∧ (∀ c ∈ v, endsDefault c = false) ∧
      endsDefault e ∧ n = b.length + (1 + v.length) := by
  rw [templateDefault_eq]
  constructor
  · intro h
    obtain ⟨_, _, hblanks, hdefault, rfl⟩ := andThen_eq_some_iff.mp h
    obtain ⟨_, _, hchar, hbehind, rfl⟩ := andThen_eq_some_iff.mp hdefault
    obtain ⟨_, _, hvalue, hahead, rfl⟩ := andThen_eq_some_iff.mp hbehind
    obtain rfl := many_eq_some_iff.mp hblanks
    obtain ⟨c, rest, hdrop, hc, rfl⟩ := char_eq_some_iff.mp hchar
    obtain rfl := beq_iff_eq.mp hc
    rw [hdrop, drop_one, tail_cons] at hvalue hahead
    obtain ⟨rfl, hpos⟩ := some1_eq_some_iff.mp hvalue
    obtain ⟨hsome, rfl⟩ := ahead_eq_some_iff.mp hahead
    obtain ⟨n, hend⟩ := Option.isSome_iff_exists.mp hsome
    obtain ⟨e, y, hrest, he, -⟩ := char_eq_some_iff.mp hend
    rw [drop_length_takeWhile] at hdrop hrest
    refine ⟨t.takeWhile isBlank, rest.takeWhile (!endsDefault ·), e, y, ?_, fun c hc => mem_takeWhile_imp hc,
      ne_nil_of_length_pos (Nat.pos_of_ne_zero hpos), fun c hc => by simpa using mem_takeWhile_imp hc, he, rfl⟩
    rw [← hrest, takeWhile_append_dropWhile, ← hdrop, takeWhile_append_dropWhile]
  · rintro ⟨b, v, e, y, rfl, hb, hv, hfree, he, rfl⟩
    have hblanks : (b ++ '=' :: (v ++ e :: y)).takeWhile isBlank = b := takeWhile_append_cons hb rfl _
    have hvalue : (v ++ e :: y).takeWhile (!endsDefault ·) = v :=
      takeWhile_append_cons (by simpa using hfree) (by simpa using he) y
    have hpos : v.length ≠ 0 := by simpa using hv
    refine andThen_eq_some_iff.mpr ⟨b.length, 1 + v.length, many_eq_some_iff.mpr (by rw [hblanks]), ?_, rfl⟩
    rw [drop_left]
    refine andThen_eq_some_iff.mpr ⟨1, v.length, char_eq_some_iff.mpr ⟨'=', _, rfl, rfl, rfl⟩, ?_, rfl⟩
    rw [drop_one, tail_cons]
    refine andThen_eq_some_iff.mpr ⟨v.length, 0, some1_eq_some_iff.mpr ⟨by rw [hvalue], hpos⟩, ?_, rfl⟩
    rw [drop_left]
    exact ahead_eq_some_iff.mpr ⟨Option.isSome_iff_exists.mpr ⟨1, char_eq_some_iff.mpr ⟨e, y, rfl, he, rfl⟩⟩, rfl⟩

lemma templateDefault_prev (p q : Option Char) (t : Text) : templateDefault p t = templateDefault q t := by
  refine Option.ext fun n => ?_
  rw [templateDefault_eq_some_iff, templateDefault_eq_some_iff]

/-- A text before the first equals sign is passed if it ends with a visible character. -/
lemma templateDefault_eq_none {u z : Text} (hu : u ≠ []) (hequals : '=' ∉ u)
    (hlast : ∀ c, u.getLast? = some c → isBlank c = false) : templateDefault none (u ++ z) = none := by
  rw [Option.eq_none_iff_forall_ne_some]
  intro n hn
  obtain ⟨b, v, e, y, heq, hb, -⟩ := templateDefault_eq_some_iff.mp hn
  have hvisible : ¬ ∀ c ∈ u, isBlank c := by
    intro hblank
    have hgetLast := hlast _ (getLast?_eq_some_getLast hu)
    rw [hblank _ (getLast_mem hu)] at hgetLast
    cases hgetLast
  rcases append_eq_append_iff.mp heq with ⟨a, rfl, -⟩ | ⟨_ | ⟨c, a⟩, rfl, ha⟩
  · exact hvisible fun c hc => hb c (mem_append_left _ hc)
  · exact hvisible fun c hc => hb c (by simpa using hc)
  · obtain ⟨rfl, -⟩ := cons_eq_cons.mp ha
    exact hequals (by simp)

lemma removeAll_append_of_none {z : Text} (h : ∀ u, u <:+ x → u ≠ [] → templateDefault none (u ++ z) = none) :
    removeAll templateDefault (x ++ z) = x ++ removeAll templateDefault z := by
  induction x with
  | nil => rfl
  | cons c x ih =>
    have hpassed := h (c :: x) (suffix_refl _) (by simp)
    rw [cons_append] at hpassed
    rw [cons_append, Text.removeAll, Mask.replaceAll_passed templateDefault_prev hpassed, ← Text.removeAll,
      ih fun u hu => h u (hu.trans (suffix_cons c x))]
    rfl

lemma removeAll_accepted {b : Text} (hb : ∀ c ∈ b, isBlank c) (hv : v ≠ [])
    (hfree : ∀ c ∈ v, endsDefault c = false) (he : endsDefault e) :
    removeAll templateDefault (b ++ '=' :: (v ++ e :: y)) = removeAll templateDefault (e :: y) := by
  have haccepted : templateDefault none (b ++ '=' :: (v ++ e :: y)) = some (b.length + (1 + v.length)) :=
    templateDefault_eq_some_iff.mpr ⟨b, v, e, y, rfl, hb, hv, hfree, he, rfl⟩
  have hdrop : (b ++ '=' :: (v ++ e :: y)).drop (b.length + v.length + 1) = e :: y := by
    rw [Nat.add_assoc, drop_length_add_append, drop_succ_cons, drop_left]
  obtain ⟨c, rest, hcons⟩ := exists_cons_of_ne_nil (show b ++ '=' :: (v ++ e :: y) ≠ [] by simp)
  rw [hcons, show b.length + (1 + v.length) = b.length + v.length + 1 by omega] at haccepted
  rw [hcons] at hdrop ⊢
  exact (Mask.replaceAll_accepted (f := fun _ => []) templateDefault_prev haccepted).trans
    (congrArg (removeAll templateDefault) hdrop)

/-- A text without equals signs is passed if it ends with a visible character. -/
lemma removeAll_passed (hequals : '=' ∉ x) (hlast : ∀ c, x.getLast? = some c → isBlank c = false) (z : Text) :
    removeAll templateDefault (x ++ z) = x ++ removeAll templateDefault z := by
  refine removeAll_append_of_none fun u hu hne =>
    templateDefault_eq_none hne (fun hmem => hequals (hu.subset hmem)) fun c hc => ?_
  obtain ⟨a, rfl⟩ := hu
  exact hlast c (by rw [getLast?_append_of_ne_nil _ hne, hc])

/-! ## Segments -/

/-- A segment without commas and closing angle brackets, once the default in it is taken out. -/
def cleared (x : Text) : Text :=
  match find? ['='] x with
  | some i => if i + 1 < x.length then trimEnd (x.take i) else x
  | none => x

lemma cleared_of_notMem (h : '=' ∉ x) : cleared x = x := by
  rw [cleared, find?_singleton_eq_none_iff.mpr h]

lemma cleared_concat (h : '=' ∉ a) : cleared (a ++ ['=']) = a ++ ['='] := by
  rw [cleared, find?_singleton_eq_some_iff.mpr ⟨a, [], rfl, rfl, h⟩]
  exact if_neg (by simp)

lemma cleared_default (h : '=' ∉ a) (hv : v ≠ []) : cleared (a ++ '=' :: v) = trimEnd a := by
  rw [cleared, find?_singleton_eq_some_iff.mpr ⟨a, v, rfl, rfl, h⟩]
  show (if a.length + 1 < (a ++ '=' :: v).length then trimEnd ((a ++ '=' :: v).take a.length) else _) = _
  rw [if_pos (by simpa using length_pos_iff.mpr hv), take_left]

/-- A segment has no equals sign, one at its end, or a default. -/
lemma segment_cases (x : Text) :
    '=' ∉ x ∨ (∃ a, x = a ++ ['='] ∧ '=' ∉ a) ∨ ∃ a v, x = a ++ '=' :: v ∧ '=' ∉ a ∧ v ≠ [] := by
  by_cases h : '=' ∈ x
  · obtain ⟨a, v, rfl, ha⟩ := eq_append_cons_of_mem h
    by_cases hv : v = []
    · exact .inr (.inl ⟨a, by rw [hv], ha⟩)
    · exact .inr (.inr ⟨a, v, rfl, ha, hv⟩)
  · exact .inl h

lemma eq_of_first_equals {a' y' : Text} (ha : '=' ∉ a) (ha' : '=' ∉ a') (h : a ++ '=' :: y = a' ++ '=' :: y') :
    a = a' ∧ y = y' := by
  have hfind : find? ['='] (a ++ '=' :: y) = some a.length := find?_singleton_eq_some_iff.mpr ⟨a, y, rfl, rfl, ha⟩
  rw [h, find?_singleton_eq_some_iff.mpr ⟨a', y', rfl, rfl, ha'⟩] at hfind
  obtain ⟨rfl, hcons⟩ := append_inj h (Option.some.inj hfind).symm
  exact ⟨rfl, (cons_eq_cons.mp hcons).2⟩

/-- An equals sign directly before the end of a segment begins no default. -/
lemma templateDefault_eq_none_of_end (ha : '=' ∉ a) (he : endsDefault e) :
    templateDefault none (a ++ '=' :: e :: y) = none := by
  rw [Option.eq_none_iff_forall_ne_some]
  intro n hn
  obtain ⟨b, v, e', y', heq, hb, hv, hfree, -⟩ := templateDefault_eq_some_iff.mp hn
  have hequals : '=' ∉ b := fun hmem => absurd (hb _ hmem) (by decide)
  obtain ⟨-, hbehind⟩ := eq_of_first_equals ha hequals heq
  obtain ⟨c, v, rfl⟩ := exists_cons_of_ne_nil hv
  obtain ⟨rfl, -⟩ := cons_eq_cons.mp hbehind
  rw [hfree e mem_cons_self] at he
  cases he

lemma removeAll_segment (hx : ∀ c ∈ x, endsDefault c = false) (he : endsDefault e) (y : Text) :
    removeAll templateDefault (x ++ e :: y) = cleared x ++ e :: removeAll templateDefault y := by
  have hend : ∀ {w : Text}, '=' ∉ w →
      removeAll templateDefault ((w ++ [e]) ++ y) = (w ++ [e]) ++ removeAll templateDefault y := by
    intro w hw
    refine removeAll_passed ?_ (fun c hc => ?_) y
    · simpa [hw] using (ne_equals_of_endsDefault he).symm
    · rw [getLast?_concat] at hc
      exact Option.some.inj hc ▸ not_isBlank_of_endsDefault he
  rcases segment_cases x with hequals | ⟨a, rfl, ha⟩ | ⟨a, v, rfl, ha, hv⟩
  · rw [cleared_of_notMem hequals]
    simpa using hend hequals
  · rw [cleared_concat ha]
    have hnone : ∀ u, u <:+ a ++ ['='] → u ≠ [] → templateDefault none (u ++ e :: y) = none := by
      intro u hu hne
      rcases suffix_concat_iff.mp hu with rfl | ⟨a', rfl, ha'⟩
      · exact absurd rfl hne
      · rw [append_assoc]
        exact templateDefault_eq_none_of_end (fun hmem => ha (ha'.subset hmem)) he
    rw [removeAll_append_of_none hnone]
    simpa using hend (w := []) (by simp)
  · rw [cleared_default ha hv]
    obtain ⟨b, hab, hb⟩ := exists_eq_dropEndWhile_append isBlank a
    rw [← trimEnd] at hab
    have htrim : '=' ∉ trimEnd a := fun hmem => ha (by rw [hab]; exact mem_append_left _ hmem)
    have hsplit : a ++ '=' :: v ++ e :: y = trimEnd a ++ (b ++ '=' :: (v ++ e :: y)) := by
      nth_rewrite 1 [hab]
      simp
    rw [hsplit, removeAll_passed htrim fun c hc => getLast?_dropEndWhile hc,
      removeAll_accepted hb hv (fun c hc => hx c (by simp [hc])) he]
    simpa using hend (w := []) (by simp)

lemma removeAll_end (he : endsDefault e) (y : Text) :
    removeAll templateDefault (e :: y) = e :: removeAll templateDefault y := by
  rw [← nil_append (e :: y), removeAll_segment (by simp) he, cleared_of_notMem (by simp), nil_append]

@[elab_as_elim] lemma segment_induction {P : Text → Prop} (last : ∀ x, (∀ c ∈ x, endsDefault c = false) → P x)
    (segment : ∀ x e y, (∀ c ∈ x, endsDefault c = false) → endsDefault e → P y → P (x ++ e :: y)) (t : Text) : P t := by
  induction hn : t.length using Nat.strong_induction_on generalizing t with
  | _ n ih =>
    subst hn
    by_cases hend : ∃ e ∈ t, endsDefault e
    · have hsplit := takeWhile_append_dropWhile (p := (!endsDefault ·)) (l := t)
      cases hdrop : t.dropWhile (!endsDefault ·) with
      | nil =>
        obtain ⟨e, he, hends⟩ := hend
        have hnot := dropWhile_eq_nil_iff.mp hdrop e he
        simp [hends] at hnot
      | cons e y =>
        rw [hdrop] at hsplit
        rw [← hsplit]
        refine segment _ e y (fun c hc => by simpa using mem_takeWhile_imp hc) ?_ (ih _ ?_ y rfl)
        · have hhead := head?_dropWhile_not (!endsDefault ·) t
          rw [hdrop] at hhead
          simpa using hhead
        · rw [← hsplit, length_append, length_cons]
          omega
    · refine last t fun c hc => ?_
      by_contra hends
      exact hend ⟨c, hc, by simpa using hends⟩

lemma removeAll_of_free (hx : ∀ c ∈ x, endsDefault c = false) : removeAll templateDefault x = x := by
  have hnone : ∀ u, u <:+ x → u ≠ [] → templateDefault none (u ++ []) = none := by
    intro u hu _
    rw [append_nil, Option.eq_none_iff_forall_ne_some]
    intro n hn
    obtain ⟨b, v, e, y, rfl, -, -, -, he, -⟩ := templateDefault_eq_some_iff.mp hn
    rw [hx e (hu.subset (by simp))] at he
    cases he
  have hpassed := removeAll_append_of_none hnone
  rw [append_nil] at hpassed
  exact hpassed.trans (append_nil x)

lemma cleared_prefix_self (x : Text) : cleared x <+: x := by
  rcases segment_cases x with hequals | ⟨a, rfl, ha⟩ | ⟨a, v, rfl, ha, hv⟩
  · rw [cleared_of_notMem hequals]
  · rw [cleared_concat ha]
  · rw [cleared_default ha hv]
    refine IsPrefix.trans ?_ (prefix_append ..)
    exact rdropWhile_prefix isBlank a

/-- Commas and closing angle brackets are never taken out. -/
lemma count_removeAll (hc : endsDefault c) (t : Text) : (removeAll templateDefault t).count c = t.count c := by
  induction t using segment_induction with
  | last x hx => rw [removeAll_of_free hx]
  | segment x e y hx he ih =>
    have hfree : ∀ {z : Text}, z <+: x → z.count c = 0 := by
      intro z hz
      refine count_eq_zero.mpr fun hmem => ?_
      rw [hx c (hz.subset hmem)] at hc
      cases hc
    rw [removeAll_segment hx he, count_append, count_append, count_cons, count_cons, ih,
      hfree (cleared_prefix_self x), hfree (prefix_refl x)]

/-! ## Declared parts and their defaults -/

/-- Every equals sign stands directly before a comma or a closing angle bracket. -/
def Undisturbed (d : Text) : Prop := d.IsChain fun a b => a = '=' → endsDefault b

instance (d : Text) : Decidable (Undisturbed d) := inferInstanceAs (Decidable (List.IsChain _ _))

/-- Nothing, or an equals sign behind blanks and a text. -/
def IsDefault (w : Text) : Prop := w = [] ∨ ∃ b v, w = b ++ '=' :: v ∧ (∀ c ∈ b, isBlank c) ∧ v ≠ []

lemma undisturbed_of_notMem (h : '=' ∉ d) : Undisturbed d := by
  induction d with
  | nil => exact .nil
  | cons c d ih =>
    rw [mem_cons, not_or] at h
    exact isChain_cons.mpr ⟨fun y _ hc => absurd hc.symm h.1, ih h.2⟩

lemma undisturbed_concat (h : '=' ∉ a) (c : Char) : Undisturbed (a ++ [c]) := by
  refine isChain_append.mpr ⟨undisturbed_of_notMem h, isChain_singleton c, fun x hx y _ heq => ?_⟩
  exact absurd (heq ▸ mem_of_getLast? hx) h

lemma undisturbed_segment (he : endsDefault e) : Undisturbed (x ++ e :: d) ↔ Undisturbed x ∧ Undisturbed d := by
  rw [Undisturbed, isChain_append, isChain_cons]
  refine ⟨fun h => ⟨h.1, h.2.1.2⟩, fun h => ⟨h.1, ⟨fun y _ heq => ?_, h.2⟩, fun c _ y hy _ => ?_⟩⟩
  · exact absurd heq (ne_equals_of_endsDefault he)
  · obtain rfl := Option.some.inj hy
    exact he

lemma equals_of_undisturbed (h : Undisturbed x) (hx : ∀ c ∈ x, endsDefault c = false) :
    '=' ∉ x ∨ ∃ a, x = a ++ ['='] ∧ '=' ∉ a := by
  rcases segment_cases x with hequals | hlast | ⟨a, v, rfl, -, hv⟩
  · exact .inl hequals
  · exact .inr hlast
  · obtain ⟨c, v, rfl⟩ := exists_cons_of_ne_nil hv
    have hc := (isChain_cons_cons.mp (isChain_append.mp h).2.1).1 rfl
    rw [hx c (by simp)] at hc
    cases hc

lemma cleared_of_undisturbed (h : Undisturbed x) (hx : ∀ c ∈ x, endsDefault c = false) : cleared x = x := by
  rcases equals_of_undisturbed h hx with hequals | ⟨a, rfl, ha⟩
  · exact cleared_of_notMem hequals
  · exact cleared_concat ha

lemma cleared_append_default {b : Text} (hd : '=' ∉ d) (hb : ∀ c ∈ b, isBlank c) (hv : v ≠ []) :
    cleared (d ++ (b ++ '=' :: v)) = trimEnd d := by
  have hequals : '=' ∉ d ++ b := by
    intro hmem
    rcases mem_append.mp hmem with hmem | hmem
    · exact hd hmem
    · exact absurd (hb _ hmem) (by decide)
  rw [← append_assoc, cleared_default hequals hv, trimEnd, dropEndWhile_append hb, ← trimEnd]

/-- A segment cannot get longer than its declared part, and this part is kept only if it has no default in it. -/
lemma length_cleared_le (d : Text) {w : Text} (hw : IsDefault w) :
    (cleared (d ++ w)).length ≤ d.length ∧ ((cleared (d ++ w)).length = d.length → Undisturbed d) := by
  have hle : ∀ {a v : Text}, (trimEnd a).length < (a ++ '=' :: v).length := by
    intro a v
    rw [length_append, length_cons]
    have := length_trimEnd_le a
    omega
  rcases hw with rfl | ⟨b, v, rfl, hb, hv⟩
  · rw [append_nil]
    rcases segment_cases d with hequals | ⟨a, rfl, ha⟩ | ⟨a, v, rfl, ha, hv⟩
    · rw [cleared_of_notMem hequals]
      exact ⟨le_rfl, fun _ => undisturbed_of_notMem hequals⟩
    · rw [cleared_concat ha]
      exact ⟨le_rfl, fun _ => undisturbed_concat ha _⟩
    · rw [cleared_default ha hv]
      exact ⟨hle.le, fun heq => absurd heq hle.ne⟩
  · by_cases hequals : '=' ∈ d
    · obtain ⟨a, v', rfl, ha⟩ := eq_append_cons_of_mem hequals
      rw [append_assoc, cons_append, cleared_default ha (by simp)]
      exact ⟨hle.le, fun heq => absurd heq hle.ne⟩
    · rw [cleared_append_default hequals hb hv]
      exact ⟨length_trimEnd_le d, fun _ => undisturbed_of_notMem hequals⟩

section Declared

variable {w y : Text} (hw : IsDefault w) (hfree : ∀ c ∈ w, endsDefault c = false)
  (hend : ∃ c, y.head? = some c ∧ endsDefault c = true)
include hw hfree hend

/-- What is kept of a declared part and its default is at most as long as the declared part. -/
lemma length_removeAll_le (d : Text) :
    (removeAll templateDefault (d ++ (w ++ y))).length ≤ d.length + (removeAll templateDefault y).length ∧
    ((removeAll templateDefault (d ++ (w ++ y))).length = d.length + (removeAll templateDefault y).length →
      Undisturbed d) := by
  obtain ⟨e, hhead, he⟩ := hend
  obtain ⟨y, rfl⟩ := head?_eq_some_iff.mp hhead
  induction d using segment_induction with
  | last d hd =>
    obtain ⟨hle, hkept⟩ := length_cleared_le d hw
    rw [← append_assoc, removeAll_segment (forall_mem_append.mpr ⟨hd, hfree⟩) he, removeAll_end he, length_append,
      length_cons]
    exact ⟨by omega, fun heq => hkept (by omega)⟩
  | segment x e' d hx he' ih =>
    obtain ⟨hle, hkept⟩ := length_cleared_le x (.inl rfl)
    rw [append_nil] at hle hkept
    obtain ⟨hle', hkept'⟩ := ih
    rw [append_assoc, cons_append, removeAll_segment hx he', length_append, length_cons, length_append, length_cons]
    exact ⟨by omega, fun heq => (undisturbed_segment he').mpr ⟨hkept (by omega), hkept' (by omega)⟩⟩

lemma removeAll_declared {d : Text} (hd : Undisturbed d)
    (hlast : w ≠ [] → ∀ c, d.getLast? = some c → isBlank c = false ∧ c ≠ '=') :
    removeAll templateDefault (d ++ (w ++ y)) = d ++ removeAll templateDefault y := by
  obtain ⟨e, hhead, he⟩ := hend
  obtain ⟨y, rfl⟩ := head?_eq_some_iff.mp hhead
  induction d using segment_induction with
  | last d hdfree =>
    have hcleared : cleared (d ++ w) = d := by
      rcases hw with rfl | ⟨b, v, rfl, hb, hv⟩
      · rw [append_nil, cleared_of_undisturbed hd hdfree]
      · have hlast := hlast (by simp)
        rcases equals_of_undisturbed hd hdfree with hequals | ⟨a, rfl, -⟩
        · rw [cleared_append_default hequals hb hv, trimEnd, dropEndWhile_eq_self fun c hc => (hlast c hc).1]
        · exact absurd rfl (hlast '=' getLast?_concat).2
    rw [← append_assoc, removeAll_segment (forall_mem_append.mpr ⟨hdfree, hfree⟩) he, hcleared, removeAll_end he]
  | segment x e' d hx he' ih =>
    obtain ⟨hundisturbed, hundisturbed'⟩ := (undisturbed_segment he').mp hd
    have hlast' : w ≠ [] → ∀ c, d.getLast? = some c → isBlank c = false ∧ c ≠ '=' := by
      intro hne c hc
      refine hlast hne c ?_
      rw [getLast?_append, getLast?_cons, hc]
      rfl
    rw [append_assoc, cons_append, removeAll_segment hx he', cleared_of_undisturbed hundisturbed hx,
      ih hundisturbed' hlast', append_assoc, cons_append]

end Declared

end CppScaffold.Entity
