import CppScaffold.Generate.Declaration
import CppScaffold.Proofs.SignatureRanges
import CppScaffold.Proofs.StackMatching

/-!
# The group that holds the parameters

The signature looks for the parentheses around the parameters from the start of the name on, the head for another place
from its end. They agree unless a group stands in the name, as in `operator()`, or around it.
-/

namespace CppScaffold

open Text Recognizer List Mask

namespace Mask

/-! ## Pairs of delimiters -/

section

variable {offset : Nat} {stack : List Nat} {m : List Mark}

/-- The stack holds offsets before the given one, the last one first. -/
structure StackBelow (offset : Nat) (stack : List Nat) : Prop where
  sorted : stack.Pairwise (· > ·)
  below : ∀ i ∈ stack, i < offset

lemma stackBelow_nil : StackBelow offset [] := ⟨.nil, forall_mem_nil _⟩

lemma StackBelow.next (h : StackBelow offset stack) : StackBelow (offset + 1) stack :=
  ⟨h.sorted, fun i hi => Nat.lt_succ_of_lt (h.below i hi)⟩

lemma StackBelow.push (h : StackBelow offset stack) : StackBelow (offset + 1) (offset :: stack) :=
  ⟨pairwise_cons.mpr ⟨h.below, h.sorted⟩, forall_mem_cons.mpr ⟨Nat.lt_succ_self _, h.next.below⟩⟩

variable {i : Nat}

lemma StackBelow.pop (h : StackBelow offset (i :: stack)) : StackBelow (offset + 1) stack :=
  ⟨(pairwise_cons.mp h.sorted).2, (forall_mem_cons.mp h.next.below).2⟩

/-- One mark further on: what is matched there is matched here, and besides a mark that closes. -/
lemma exists_matchFrom_cons (offset : Nat) (stack : List Nat) (mark : Mark) (m : List Mark) : ∃ stack',
    (∀ i ∈ stack', i ∈ stack ∨ (i = offset ∧ mark = .opening)) ∧ (mark = .opening → offset ∈ stack') ∧
    (∀ i ∈ stack, i ∈ stack' ∨ (mark = .closing ∧ stack.head? = some i)) ∧
    (∀ i, i ∈ (matchFrom offset stack (mark :: m)).alone ↔
      i ∈ (matchFrom (offset + 1) stack' m).alone ∨ (i = offset ∧ mark = .closing ∧ stack = [])) ∧
    ∀ p, p ∈ (matchFrom offset stack (mark :: m)).pairs ↔
      p ∈ (matchFrom (offset + 1) stack' m).pairs ∨ (p.2 = offset ∧ mark = .closing ∧ stack.head? = some p.1) := by
  cases mark with
  | other => exact ⟨stack, by simp, by simp, by simp, by simp [matchFrom], by simp [matchFrom]⟩
  | opening =>
    refine ⟨offset :: stack, fun i hi => ?_, by simp, by simp +contextual, by simp [matchFrom], by simp [matchFrom]⟩
    exact (mem_cons.mp hi).symm.imp_right fun heq => ⟨heq, rfl⟩
  | closing =>
    cases stack with
    | nil => exact ⟨[], by simp, by simp, by simp, by simp [matchFrom, or_comm], by simp [matchFrom]⟩
    | cons i stack =>
      refine ⟨stack, by simp +contextual, by simp, fun j hj => ?_, by simp [matchFrom], fun p => ?_⟩
      · exact (mem_cons.mp hj).symm.imp_right fun heq => by simp [heq]
      · simp [matchFrom, Prod.ext_iff, or_comm, and_comm, eq_comm]

lemma mem_pairs_matchFrom {p : Nat × Nat} (hp : p ∈ (matchFrom offset stack m).pairs) :
    ∃ k, p.2 = offset + k ∧ m[k]? = some .closing ∧
      (p.1 ∈ stack ∨ ∃ k', p.1 = offset + k' ∧ k' < k ∧ m[k']? = some .opening) := by
  induction m generalizing offset stack with
  | nil => simp [matchFrom] at hp
  | cons mark m ih =>
    obtain ⟨stack', hstack, _, _, _, hpairs⟩ := exists_matchFrom_cons offset stack mark m
    rcases (hpairs p).mp hp with hp | ⟨hstop, rfl, hhead⟩
    · obtain ⟨k, hk, hclosing, hopening⟩ := ih hp
      refine ⟨k + 1, by omega, by rwa [getElem?_cons_succ], ?_⟩
      rcases hopening with hmem | ⟨k', hk', hlt, hopening⟩
      · exact (hstack _ hmem).imp_right fun h => ⟨0, h.1, Nat.succ_pos _, by rw [h.2]; rfl⟩
      · exact .inr ⟨k' + 1, by omega, by omega, by rwa [getElem?_cons_succ]⟩
    · exact ⟨0, hstop, rfl, .inl (mem_of_head? hhead)⟩

/-- Pairs come in the order in which they close; a later one lies around an earlier one or behind it. -/
lemma pairs_matchFrom_pairwise (h : StackBelow offset stack) :
    (matchFrom offset stack m).pairs.Pairwise fun p q => p.2 < q.2 ∧ (q.1 < p.1 ∨ p.2 < q.1) := by
  induction m generalizing offset stack with
  | nil => exact .nil
  | cons mark m ih =>
    cases mark with
    | other => exact ih h.next
    | opening => exact ih h.push
    | closing =>
      cases stack with
      | nil => exact ih h.next
      | cons i stack =>
        refine pairwise_cons.mpr ⟨fun q hq => ?_, ih h.pop⟩
        obtain ⟨k, hk, _, hopening⟩ := mem_pairs_matchFrom hq
        refine ⟨by dsimp only; omega, ?_⟩
        rcases hopening with hmem | ⟨k', hk', _⟩
        · exact .inl ((pairwise_cons.mp h.sorted).1 _ hmem)
        · exact .inr (by dsimp only; omega)

lemma ne_of_mem_alone (h : StackBelow offset stack) (hi : i ∈ (matchFrom offset stack m).alone) {p : Nat × Nat}
    (hp : p ∈ (matchFrom offset stack m).pairs) : i ≠ p.1 ∧ i ≠ p.2 := by
  induction m generalizing offset stack with
  | nil => simp [matchFrom] at hp
  | cons mark m ih =>
    cases mark with
    | other => exact ih h.next hi hp
    | opening => exact ih h.push hi hp
    | closing =>
      cases stack with
      | nil =>
        rcases mem_cons.mp hi with rfl | hi
        · obtain ⟨k, hk, _, hmem | ⟨k', hk', _⟩⟩ := mem_pairs_matchFrom (m := m) hp
          · cases hmem
          · omega
        · exact ih h.next hi hp
      | cons j stack =>
        rcases mem_cons.mp hp with rfl | hp
        · have hj := h.below j (mem_cons_self ..)
          rcases le_of_mem_matchFrom (m := m) (Or.inl hi) with hmem | hle
          · have hlt := (pairwise_cons.mp h.sorted).1 i hmem
            omega
          · dsimp only
            omega
        · exact ih h.pop hi hp

lemma mem_alone_matchFrom (hi : i ∈ (matchFrom offset stack m).alone) :
    i ∈ stack ∨ ∃ k mark, i = offset + k ∧ m[k]? = some mark ∧ mark ≠ .other := by
  induction m generalizing offset stack with
  | nil => exact .inl hi
  | cons mark m ih =>
    obtain ⟨stack', hstack, _, _, halone, _⟩ := exists_matchFrom_cons offset stack mark m
    rcases (halone i).mp hi with hi | ⟨rfl, rfl, _⟩
    · rcases ih hi with hmem | ⟨k, mark', rfl, hget, hne⟩
      · exact (hstack i hmem).imp_right fun ⟨hoffset, hmark⟩ => ⟨0, mark, hoffset, rfl, by rw [hmark]; decide⟩
      · exact .inr ⟨k + 1, mark', by omega, by rwa [getElem?_cons_succ], hne⟩
    · exact .inr ⟨0, .closing, rfl, rfl, by decide⟩

lemma stack_cases (hi : i ∈ stack) :
    i ∈ (matchFrom offset stack m).alone ∨ ∃ j, (i, j) ∈ (matchFrom offset stack m).pairs := by
  induction m generalizing offset stack with
  | nil => exact .inl hi
  | cons mark m ih =>
    obtain ⟨stack', _, _, hstack, halone, hpairs⟩ := exists_matchFrom_cons offset stack mark m
    rcases hstack i hi with hi | ⟨hmark, hhead⟩
    · exact (ih hi).imp (fun h => (halone i).mpr (.inl h)) (Exists.imp fun j h => (hpairs _).mpr (.inl h))
    · exact .inr ⟨offset, (hpairs _).mpr (.inr ⟨rfl, hmark, hhead⟩)⟩

lemma delimiter_cases {k : Nat} :
    (m[k]? = some .opening → offset + k ∈ (matchFrom offset stack m).alone ∨
      ∃ j, (offset + k, j) ∈ (matchFrom offset stack m).pairs) ∧
    (m[k]? = some .closing → offset + k ∈ (matchFrom offset stack m).alone ∨
      ∃ i, (i, offset + k) ∈ (matchFrom offset stack m).pairs) := by
  induction m generalizing offset stack k with
  | nil => simp
  | cons mark m ih =>
    obtain ⟨stack', _, hopening, _, halone, hpairs⟩ := exists_matchFrom_cons offset stack mark m
    simp only [halone, hpairs]
    cases k with
    | zero =>
      simp only [getElem?_cons_zero, Option.some.injEq]
      refine ⟨fun hmark => (stack_cases (hopening hmark)).imp .inl (Exists.imp fun j => .inl), fun hmark => ?_⟩
      cases stack with
      | nil => exact .inl (.inr ⟨rfl, hmark, rfl⟩)
      | cons i stack => exact .inr ⟨i, .inr ⟨rfl, hmark, rfl⟩⟩
    | succ k =>
      rw [getElem?_cons_succ, Nat.add_comm k 1, ← Nat.add_assoc]
      exact ⟨fun hmark => (ih.1 hmark).imp .inl (Exists.imp fun j => .inl),
        fun hmark => (ih.2 hmark).imp .inl (Exists.imp fun j => .inl)⟩

lemma matchFrom_append_other (offset : Nat) (stack : List Nat) (m : List Mark) (n : Nat) :
    matchFrom offset stack (m ++ replicate n .other) = matchFrom offset stack m := by
  induction m generalizing offset stack with
  | nil =>
    induction n generalizing offset with
    | zero => rfl
    | succ n ih => exact ih (offset + 1)
  | cons mark m ih =>
    cases mark with
    | other => exact ih (offset + 1) stack
    | opening => exact ih (offset + 1) (offset :: stack)
    | closing =>
      cases stack with
      | nil | cons i stack => simp [matchFrom, ih]

end

/-! ## Visible parentheses -/

def parenthesisMatching (code : Text) : Matching := matchFrom 0 [] (marks '(' ')' false code)

/-- An offset lies in no pair, and what stands there has a partner if it needs one. -/
def Matching.Shows (d : Matching) (k : Nat) : Prop := k ∉ d.alone ∧ ∀ p ∈ d.pairs, ¬ (p.1 < k ∧ k < p.2)

section

variable {code : Text} {k : Nat}

variable {c : Char} {t : Text} {p : Nat × Nat}

lemma getElem?_parentheses (hc : isBlank c = false) :
    (parentheses code true)[k]? = some c ↔ code[k]? = some c ∧ (parenthesisMatching code).Shows k := by
  have hne : ∀ d, maskChar d ≠ c := by
    rintro d rfl
    rw [isBlank_maskChar] at hc
    cases hc
  have hspace : ' ' ≠ c := by
    rintro rfl
    exact absurd hc (by decide)
  have hcovers : (parenthesisMatching code).outermost.any (covers true k) ↔
      ∃ p ∈ (parenthesisMatching code).pairs, p.1 < k ∧ k < p.2 := by
    rw [Matching.any_outermost]
    simp [covers]
  rw [parentheses, balanced_eq_stackMask rfl, stackMask, getElem?_mapIdx]
  change Option.map (fun c => if (parenthesisMatching code).alone.contains k then ' '
    else if (parenthesisMatching code).outermost.any (covers true k) then maskChar c else c) code[k]? = _ ↔ _
  cases code[k]? with
  | none => simp
  | some d =>
    rw [Option.map_some, Option.some.injEq, Option.some.injEq, Matching.Shows]
    by_cases halone : k ∈ (parenthesisMatching code).alone
    · simp [halone, hspace]
    · by_cases hcovered : ∃ p ∈ (parenthesisMatching code).pairs, p.1 < k ∧ k < p.2
      · rw [if_neg (by simpa using halone), if_pos (hcovers.mpr hcovered)]
        obtain ⟨p, hp, hk⟩ := hcovered
        exact ⟨fun h => absurd h (hne d), fun h => absurd hk (h.2.2 p hp)⟩
      · rw [if_neg (by simpa using halone), if_neg fun h => hcovered (hcovers.mp h)]
        exact ⟨fun h => ⟨h, halone, fun p hp hk => hcovered ⟨p, hp, hk⟩⟩, fun h => h.1⟩

lemma visible_of_shows (hc : isBlank c = false) (hget : code[k]? = some c)
    (h : (parenthesisMatching code).Shows k) : (parentheses code true)[k]? = some c :=
  (getElem?_parentheses hc).mpr ⟨hget, h⟩

lemma pair_written (hp : p ∈ (parenthesisMatching code).pairs) :
    p.1 < p.2 ∧ code[p.1]? = some '(' ∧ code[p.2]? = some ')' := by
  obtain ⟨k, hk, hclosing, hmem | ⟨k', hk', hlt, hopening⟩⟩ := mem_pairs_matchFrom hp
  · cases hmem
  · rw [hk, hk', Nat.zero_add, Nat.zero_add]
    exact ⟨hlt, getElem?_of_marks hopening (by decide), getElem?_of_marks hclosing (by decide)⟩

lemma pairs_apart {q : Nat × Nat} (hp : p ∈ (parenthesisMatching code).pairs)
    (hq : q ∈ (parenthesisMatching code).pairs) :
    p = q ∨ (p.2 < q.2 ∧ (q.1 < p.1 ∨ p.2 < q.1)) ∨ (q.2 < p.2 ∧ (p.1 < q.1 ∨ q.2 < p.1)) := by
  have hpairwise := pairwise_iff_getElem.mp (@pairs_matchFrom_pairwise 0 [] (marks '(' ')' false code) stackBelow_nil)
  obtain ⟨i, hi, rfl⟩ := getElem_of_mem hp
  obtain ⟨j, hj, rfl⟩ := getElem_of_mem hq
  rcases Nat.lt_trichotomy i j with hlt | rfl | hgt
  · exact .inr (.inl (hpairwise i j hi hj hlt))
  · exact .inl rfl
  · exact .inr (.inr (hpairwise j i hj hi hgt))

lemma Matching.Shows.partner (h : (parenthesisMatching code).Shows p.1) (hp : p ∈ (parenthesisMatching code).pairs) :
    (parenthesisMatching code).Shows p.2 := by
  refine ⟨fun halone => (ne_of_mem_alone stackBelow_nil halone hp).2 rfl, fun q hq hinside => ?_⟩
  have hlt := (pair_written hp).1
  have hnot := h.2 q hq
  rcases pairs_apart hp hq with rfl | hcase | hcase
  all_goals omega

lemma exists_shown_pair (hp : p ∈ (parenthesisMatching code).pairs) :
    ∃ q ∈ (parenthesisMatching code).pairs, q.1 ≤ p.1 ∧ p.2 ≤ q.2 ∧ (parenthesisMatching code).Shows q.1 := by
  obtain ⟨q, hq, hle, hge⟩ := (parenthesisMatching code).exists_outermost hp
  obtain ⟨hq, houter⟩ := mem_filter.mp hq
  rw [Bool.not_eq_true', any_eq_false] at houter
  refine ⟨q, hq, hle, hge, fun halone => (ne_of_mem_alone stackBelow_nil halone hq).1 rfl, fun r hr hinside => ?_⟩
  have hlt := (pair_written hq).1
  have hnot := houter r hr
  simp only [Bool.and_eq_true, decide_eq_true_eq] at hnot
  rcases pairs_apart hq hr with rfl | hcase | hcase
  all_goals omega

/-- A parenthesis behind a backslash, which takes it along. -/
def Escaped (code : Text) (k : Nat) : Prop :=
  (code[k]? = some '(' ∨ code[k]? = some ')') ∧ (marks '(' ')' false code)[k]? = some .other

lemma Escaped.not_mem (h : Escaped code k) :
    k ∉ (parenthesisMatching code).alone ∧ ∀ p ∈ (parenthesisMatching code).pairs, p.1 ≠ k := by
  constructor
  · intro halone
    rcases mem_alone_matchFrom halone with hmem | ⟨j, mark, rfl, hmark, hne⟩
    · cases hmem
    · rw [Nat.zero_add] at h
      exact hne (Option.some.inj (hmark.symm.trans h.2))
  · rintro p hp rfl
    obtain ⟨_, _, _, hmem | ⟨j, hj, _, hopening⟩⟩ := mem_pairs_matchFrom hp
    · cases hmem
    · rw [hj, Nat.zero_add, Escaped, hopening] at h
      exact absurd h.2 (by decide)

/-- A character has its own mark, or none behind a backslash. -/
lemma mark_cases {left right : Char} {escaped : Bool} (hc : t[k]? = some c) :
    (marks left right escaped t)[k]? = some .other ∨ (marks left right escaped t)[k]? = some (markOf left right c) := by
  induction t generalizing escaped k with
  | nil => simp at hc
  | cons d t ih =>
    cases k with
    | zero =>
      obtain rfl : d = c := by simpa using hc
      cases escaped <;> simp [marks]
    | succ k => exact ih hc

lemma parenthesis_of_shows (h : (parenthesisMatching code).Shows k) :
    (code[k]? = some '(' → Escaped code k ∨ ∃ j, (k, j) ∈ (parenthesisMatching code).pairs) ∧
      (code[k]? = some ')' → Escaped code k ∨ ∃ i, (i, k) ∈ (parenthesisMatching code).pairs) := by
  have hcases := @delimiter_cases 0 [] (marks '(' ')' false code) k
  rw [Nat.zero_add] at hcases
  constructor
  · exact fun hc => (mark_cases hc).imp (⟨.inl hc, ·⟩) fun hmark => (hcases.1 hmark).resolve_left h.1
  · exact fun hc => (mark_cases hc).imp (⟨.inr hc, ·⟩) fun hmark => (hcases.2 hmark).resolve_left h.1

/-! ## The first group -/

/-- The first place of a character from an offset on. -/
structure FirstAt (t : Text) (c : Char) (start i : Nat) : Prop where
  found : t[i]? = some c
  le : start ≤ i
  first : ∀ j, start ≤ j → t[j]? = some c → i ≤ j

lemma FirstAt.congr {t' : Text} {start i : Nat} (h : FirstAt t c start i)
    (hsame : ∀ k : Nat, t[k]? = some c ↔ t'[k]? = some c) : FirstAt t' c start i :=
  ⟨(hsame i).mp h.found, h.le, fun j hj hget => h.first j hj ((hsame j).mpr hget)⟩

lemma firstAt_of_findAfter? {start i : Nat} (h : findAfter? [c] t (start : Int) = some i) : FirstAt t c start i := by
  have hle : start ≤ t.length := by
    obtain ⟨hresolved, hlt⟩ := findAfter?_bounds h (by simp)
    rw [resolveIndex_of_nonneg (by omega)] at hresolved
    rw [length_singleton] at hlt
    omega
  obtain ⟨a, b, rfl, rfl, hstart, hnot⟩ := (findAfter?_singleton_eq_some_iff hle).mp h
  refine ⟨by simp, hstart, fun j hj hget => ?_⟩
  by_contra hlt
  rw [getElem?_append_left (by omega)] at hget
  refine hnot (mem_of_getElem? (i := j - start) ?_)
  rw [getElem?_drop, Nat.add_sub_cancel' hj, hget]

/-- The pair that begins first from an offset on. -/
structure FirstPair (code : Text) (start l r : Nat) : Prop where
  mem : (l, r) ∈ (parenthesisMatching code).pairs
  le : start ≤ l
  first : ∀ p ∈ (parenthesisMatching code).pairs, start ≤ p.1 → l ≤ p.1

lemma FirstPair.unique {code : Text} {start l r l' r' : Nat} (h : FirstPair code start l r)
    (h' : FirstPair code start l' r') : l = l' ∧ r = r' := by
  have hle := h.first _ h'.mem h'.le
  have hge := h'.first _ h.mem h.le
  have hlt := (pair_written h.mem).1
  have hlt' := (pair_written h'.mem).1
  rcases pairs_apart h.mem h'.mem with heq | hcase | hcase
  · exact Prod.mk.inj heq
  · dsimp only at hcase
    omega
  · dsimp only at hcase
    omega

/-- No group lies in the name between two offsets or around it, and a parenthesis behind a backslash stands before the
name or behind a later group's start. -/
structure NameClear (code : Text) (start stop : Nat) : Prop where
  groups : ∀ p ∈ (parenthesisMatching code).pairs, p.2 < start ∨ stop ≤ p.1
  escaped : ∀ k, Escaped code k → start ≤ k → ∃ p ∈ (parenthesisMatching code).pairs, stop ≤ p.1 ∧ p.1 < k

variable {start stop l r : Nat}

lemma NameClear.behind (h : NameClear code start stop) (hle : start ≤ stop) : NameClear code stop stop :=
  ⟨fun p hp => (h.groups p hp).imp_left fun hlt => Nat.lt_of_lt_of_le hlt hle,
    fun k hescaped hk => h.escaped k hescaped (hle.trans hk)⟩

lemma marks_eq_map {left right : Char} (h : '\\' ∉ t) : marks left right false t = t.map (markOf left right) := by
  induction t with
  | nil => rfl
  | cons c t ih =>
    obtain ⟨hc, ht⟩ := ne_and_not_mem_of_not_mem_cons h
    rw [map_cons, ← ih ht, marks]
    simp [Ne.symm hc]

lemma nameClear_iff_groups (hcode : '\\' ∉ code) :
    NameClear code start stop ↔ ∀ p ∈ (parenthesisMatching code).pairs, p.2 < start ∨ stop ≤ p.1 := by
  refine ⟨NameClear.groups, fun h => ⟨h, fun k hescaped => ?_⟩⟩
  obtain ⟨hk, hother⟩ := hescaped
  rw [marks_eq_map hcode, getElem?_map] at hother
  rcases hk with hk | hk <;> rw [hk] at hother <;> cases hother

lemma firstPair_of_nameClear (hle : start ≤ stop) (hl : FirstAt (parentheses code true) '(' start l)
    (hr : FirstAt (parentheses code true) ')' start r) (h : NameClear code start stop) : FirstPair code stop l r := by
  -- no group behind the name begins before the parenthesis that was found
  have hfirst : ∀ p ∈ (parenthesisMatching code).pairs, stop ≤ p.1 → l ≤ p.1 := by
    intro p hp hstop
    obtain ⟨q, hq, hqp, hpq, hshows⟩ := exists_shown_pair hp
    have hlt := (pair_written hp).1
    have hqstop := (h.groups q hq).resolve_left (by omega)
    have := hl.first q.1 (by omega) (visible_of_shows rfl (pair_written hq).2.1 hshows)
    omega
  have hescaped : ∀ k, Escaped code k → start ≤ k → l < k := by
    intro k hk hle
    obtain ⟨p, hp, hstop, hlt⟩ := h.escaped k hk hle
    exact (hfirst p hp hstop).trans_lt hlt
  obtain ⟨hgetl, hshowsl⟩ := (getElem?_parentheses rfl).mp hl.found
  obtain ⟨hgetr, hshowsr⟩ := (getElem?_parentheses rfl).mp hr.found
  obtain ⟨j, hj⟩ := ((parenthesis_of_shows hshowsl).1 hgetl).resolve_left fun h => (hescaped l h hl.le).false
  have hlt := (pair_written hj).1
  have hlstop : stop ≤ l := (h.groups _ hj).resolve_left (by have := hl.le; dsimp only; omega)
  have hrj : r ≤ j := hr.first j (by omega) (visible_of_shows rfl (pair_written hj).2.2 (hshowsl.partner hj))
  have hlr : l < r := by
    rcases (parenthesis_of_shows hshowsr).2 hgetr with hk | ⟨i, hi⟩
    · exact hescaped r hk hr.le
    · have hstop := (h.groups _ hi).resolve_left (by have := hr.le; dsimp only; omega)
      exact (hfirst _ hi hstop).trans_lt (pair_written hi).1
  have hnot := hshowsr.2 _ hj
  obtain rfl : r = j := by omega
  exact ⟨hj, hlstop, hfirst⟩

lemma nameClear_of_firstPair (hl : FirstAt (parentheses code true) '(' start l)
    (hr : FirstAt (parentheses code true) ')' start r) (h : FirstPair code stop l r) : NameClear code start stop := by
  have hlr := (pair_written h.mem).1
  have hstop := h.le
  have hshowsl := ((getElem?_parentheses rfl).mp hl.found).2
  have hgroups : ∀ p ∈ (parenthesisMatching code).pairs, p.2 < start ∨ stop ≤ p.1 := by
    intro p hp
    by_contra hnot
    obtain ⟨q, hq, hqp, hpq, hshows⟩ := exists_shown_pair hp
    rcases Nat.lt_or_ge q.1 start with hlt | hge
    · -- the group around the start of the name closes before the parameters do
      have := hr.first q.2 (by omega) (visible_of_shows rfl (pair_written hq).2.2 (hshows.partner hq))
      exact hshowsl.2 q hq ⟨by have := hl.le; omega, by omega⟩
    · have := hl.first q.1 hge (visible_of_shows rfl (pair_written hq).2.1 hshows)
      omega
  refine ⟨hgroups, fun k hescaped hk => ?_⟩
  by_contra hnone
  have hkl : k ≤ l := by
    by_contra hlt
    exact hnone ⟨_, h.mem, hstop, by dsimp only; omega⟩
  have hne : l ≠ k := hescaped.not_mem.2 _ h.mem
  have hshows : (parenthesisMatching code).Shows k := by
    refine ⟨hescaped.not_mem.1, fun p hp hcovered => hnone ⟨p, hp, ?_, hcovered.1⟩⟩
    exact (hgroups p hp).resolve_left (by omega)
  rcases hescaped.1 with hc | hc
  · have := hl.first k hk (visible_of_shows rfl hc hshows)
    omega
  · have := hr.first k hk (visible_of_shows rfl hc hshows)
    omega

end

end Mask

/-! ## The end of a head -/

/-- Semicolons and line feeds, as they end a head. -/
def IsEnding (y : Text) : Prop := ∀ c ∈ y, c = ';' ∨ c = '\n'

namespace Lexeme

variable {y : Text}

lemma flatMap_shown_ending (hy : IsEnding y) : (scan y).flatMap shown = y := by
  have hplain : Unmarked y := by
    intro c hc
    rcases hy c hc with rfl | rfl <;> decide
  have hscan := scan_plain_append (y := []) hplain (by simp)
  rw [append_nil] at hscan
  rw [hscan, flatMap_append, flatMap_map]
  exact (append_nil _).trans (flatMap_singleton' y)

lemma flatMap_shown_comment {more : Text} (hmore : ∀ c ∈ more, isBreak c = false) (hy : IsEnding y) :
    (scan ('/' :: '/' :: (more ++ y))).flatMap shown =
      Mask.all ('/' :: '/' :: more) ++ (Mask.all (y.takeWhile (!isBreak ·)) ++ y.dropWhile (!isBreak ·)) := by
  have hline : ∀ c ∈ more ++ y.takeWhile (!isBreak ·), isBreak c = false := by
    refine forall_mem_append.mpr ⟨hmore, fun c hc => ?_⟩
    simpa using mem_takeWhile_imp hc
  have hbreak : ∀ c, (y.dropWhile (!isBreak ·)).head? = some c → isBreak c := by
    intro c hc
    have hnot := head?_dropWhile_not (!isBreak ·) y
    rw [hc] at hnot
    simpa using hnot
  have hrest : IsEnding (y.dropWhile (!isBreak ·)) := fun c hc => hy c ((dropWhile_suffix _).subset hc)
  have hscan := scan_line_append hline hbreak
  rw [append_assoc, takeWhile_append_dropWhile] at hscan
  rw [hscan, flatMap_cons, shown_comment (.inl rfl), flatMap_shown_ending hrest]
  simp [Mask.all]

/-- What ends a head is read behind it, or belongs to a line comment at its end. -/
lemma replaceTokens_append_ending (x : Text) (hy : IsEnding y) : ∃ z, (∀ c ∈ z, c = ';' ∨ isBlank c) ∧
    Mask.replaceTokens Mask.chooseAll Mask.all (x ++ y) = Mask.replaceTokens Mask.chooseAll Mask.all x ++ z := by
  simp only [replaceTokens_eq]
  have hending : ∀ c ∈ y, c = ';' ∨ isBlank c := fun c hc => (hy c hc).imp_right fun h => by rw [h]; decide
  induction x using scan_induction with
  | nil => exact ⟨y, hending, flatMap_shown_ending hy⟩
  | plain c rest hnone ih =>
    obtain ⟨z, hblank, hz⟩ := ih
    have hnone' : tokenAt c (rest ++ y) = none := by
      refine tokenAt_eq_none_append hnone ⟨?_, ?_⟩ (.inr ?_)
      · rintro q (rfl | rfl) _ hmem
        · exact absurd (hy _ hmem) (by decide)
        · exact absurd (hy _ hmem) (by decide)
      · rintro _ hmem
        exact absurd (hy '*' (hmem.subset (by simp))) (by decide)
      · intro d hd
        rcases hy d (mem_of_mem_head? hd) with rfl | rfl
        · rfl
        · rfl
    refine ⟨z, hblank, ?_⟩
    rw [cons_append, scan_plain hnone', scan_plain hnone, flatMap_cons, flatMap_cons, hz, append_assoc]
  | token c rest kind n htoken ih =>
    obtain ⟨z, hblank, hz⟩ := ih
    have hle := (Mask.tokenAt_bounds htoken).2
    by_cases hline : kind = .lineComment ∧ n = rest.length
    · -- the comment takes along what follows on its line
      obtain ⟨rfl, hn⟩ := hline
      have hread := tokenAt_eq_some_iff.mp htoken
      cases hread with
      | line more =>
        rw [length_cons] at hn
        have hmore : more.takeWhile (!isBreak ·) = more := (takeWhile_sublist _).eq_of_length (by omega)
        have hbreak : ∀ c ∈ more, isBreak c = false := by simpa using takeWhile_eq_self_iff.mp hmore
        have hnil := flatMap_shown_comment hbreak (y := []) (by simp [IsEnding])
        rw [append_nil] at hnil
        refine ⟨Mask.all (y.takeWhile (!isBreak ·)) ++ y.dropWhile (!isBreak ·), forall_mem_append.mpr
          ⟨fun d hd => .inr (Mask.isBlank_of_mem_all hd), fun d hd => hending d ((dropWhile_suffix _).subset hd)⟩, ?_⟩
        rw [cons_append, cons_append, flatMap_shown_comment hbreak hy, hnil]
        simp [Mask.all]
    · have htoken' : tokenAt c (rest ++ y) = some (kind, n) := by
        refine tokenAt_append htoken y fun hkind => ?_
        exact Nat.lt_of_le_of_ne hle fun hn => hline ⟨hkind, hn⟩
      refine ⟨z, hblank, ?_⟩
      rw [cons_append, scan_token htoken', scan_token htoken, take_append_of_le_length hle,
        drop_append_of_le_length hle, flatMap_cons, flatMap_cons, hz, append_assoc]

end Lexeme

namespace Mask

lemma nonSource_append_ending (x : Text) {y : Text} (hy : IsEnding y) :
    ∃ z, (∀ c ∈ z, c = ';' ∨ isBlank c) ∧ nonSource (x ++ y) true = nonSource x true ++ z := by
  obtain ⟨z, hblank, hz⟩ := Lexeme.replaceTokens_append_ending x hy
  have hbrackets : ∀ c ∈ z, c ≠ '[' ∧ c ≠ ']' := by
    intro c hc
    constructor
    all_goals
      rintro rfl
      exact absurd (hblank _ hc) (by decide)
  refine ⟨z, hblank, ?_⟩
  rw [nonSource, hz]
  refine (replaceAll_append local_attributeGroup (Lexeme.steady_of_noBrackets hbrackets _).2).trans ?_
  exact congrArg _ (Lexeme.attributes_of_noBrackets hbrackets true)

lemma marks_eq_replicate {z : Text} (h : ∀ c ∈ z, IsOrdinary '(' ')' c) (escaped : Bool) :
    marks '(' ')' escaped z = replicate z.length .other := by
  rw [marks_of_isOrdinary (fun c hc => h c (mem_of_mem_head? hc))]
  induction z with
  | nil => rfl
  | cons c z ih =>
    rw [marks_ordinary (h c (mem_cons_self ..)), ih fun d hd => h d (mem_cons_of_mem _ hd)]
    rfl

lemma getElem?_parentheses_append_ending (x : Text) {y : Text} (hy : IsEnding y) {c : Char} (hc : c = '(' ∨ c = ')')
    (k : Nat) : (parentheses (nonSource (x ++ y) true) true)[k]? = some c ↔
      (parentheses (nonSource x true) true)[k]? = some c := by
  obtain ⟨z, hblank, hz⟩ := nonSource_append_ending x hy
  have hordinary : ∀ d ∈ z, IsOrdinary '(' ')' d := by
    intro d hd
    refine ⟨?_, ?_, ?_⟩
    all_goals
      rintro rfl
      exact absurd (hblank _ hd) (by decide)
  have hmatching : parenthesisMatching (nonSource x true ++ z) = parenthesisMatching (nonSource x true) := by
    rw [parenthesisMatching, marks_append, marks_eq_replicate hordinary, matchFrom_append_other, parenthesisMatching]
  have hmem : c ∉ z := by
    intro hmem
    rcases hc with rfl | rfl
    · exact (hordinary _ hmem).1 rfl
    · exact (hordinary _ hmem).2.1 rfl
  have hvisible : isBlank c = false := by rcases hc with rfl | rfl <;> rfl
  rw [hz, getElem?_parentheses hvisible, getElem?_parentheses hvisible, hmatching]
  refine and_congr_left fun _ => ⟨fun hget => ?_, fun hget => ?_⟩
  · rcases Nat.lt_or_ge k (nonSource x true).length with hlt | hge
    · rwa [getElem?_append_left hlt] at hget
    · rw [getElem?_append_right hge] at hget
      exact absurd (mem_of_getElem? hget) hmem
  · rw [getElem?_append_left (List.getElem?_eq_some_iff.mp hget).1, hget]

end Mask

lemma Entity.finalSemicolon_eq_some_iff {prev : Option Char} {t : Text} {n : Nat} :
    finalSemicolon prev t = some n ↔ (t = [';'] ∨ t = [';', '\n']) ∧ n = 1 := by
  simp only [finalSemicolon, andThen_eq_some_iff, char_eq_some_iff, atLastLineEnd]
  constructor
  · rintro ⟨_, b, ⟨c, rest, rfl, hc, rfl⟩, hend, rfl⟩
    rw [beq_iff_eq] at hc
    subst hc
    split at hend
    next h =>
      obtain rfl := Option.some.inj hend
      rw [Bool.or_eq_true, List.isEmpty_iff, beq_iff_eq] at h
      rcases h with rfl | rfl
      · exact ⟨.inl rfl, rfl⟩
      · exact ⟨.inr rfl, rfl⟩
    · cases hend
  · rintro ⟨rfl | rfl, rfl⟩
    · exact ⟨1, 0, ⟨';', [], rfl, rfl, rfl⟩, rfl, rfl⟩
    · exact ⟨1, 0, ⟨';', ['\n'], rfl, rfl, rfl⟩, rfl, rfl⟩

lemma Entity.removeAll_finalSemicolon (t : Text) : removeAll finalSemicolon t = t ∨
    ∃ u v, t = u ++ ';' :: v ∧ IsEnding v ∧ removeAll finalSemicolon t = u ++ v := by
  have hprev : ∀ p q t, finalSemicolon p t = finalSemicolon q t := fun _ _ _ => rfl
  induction t with
  | nil => exact .inl rfl
  | cons c rest ih =>
    cases haccept : finalSemicolon none (c :: rest) with
    | some n =>
      obtain ⟨h, rfl⟩ := finalSemicolon_eq_some_iff.mp haccept
      rcases h with h | h
      · obtain ⟨rfl, rfl⟩ := cons_eq_cons.mp h
        exact .inr ⟨[], [], rfl, by simp [IsEnding], rfl⟩
      · obtain ⟨rfl, rfl⟩ := cons_eq_cons.mp h
        exact .inr ⟨[], ['\n'], rfl, by simp [IsEnding], rfl⟩
    | none =>
      have hpassed : removeAll finalSemicolon (c :: rest) = c :: removeAll finalSemicolon rest :=
        replaceAll_passed hprev haccept
      rcases ih with heq | ⟨u, v, rfl, hv, heq⟩
      · exact .inl (by rw [hpassed, heq])
      · exact .inr ⟨c :: u, v, rfl, hv, by rw [hpassed, heq, cons_append]⟩

lemma Entity.getElem?_parentheses_finalSemicolon (t : Text) {c : Char} (hc : c = '(' ∨ c = ')') (k : Nat) :
    (parentheses (nonSource (removeAll finalSemicolon t) true) true)[k]? = some c ↔
      (parentheses (nonSource t true) true)[k]? = some c := by
  rcases removeAll_finalSemicolon t with heq | ⟨u, v, rfl, hv, heq⟩
  · rw [heq]
  · have hv' : IsEnding (';' :: v) := forall_mem_cons.mpr ⟨.inl rfl, hv⟩
    rw [heq, getElem?_parentheses_append_ending u hv hc, getElem?_parentheses_append_ending u hv' hc]

/-! ## The two searches -/

namespace Entity

variable {e : Entity}

def offsetInHead (e : Entity) (p : Position) : Nat := e.document.offsetAt p - e.document.offsetAt e.declarationStart

/-- The head without its semicolon, as it is taken to another place. -/
def movedHead (e : Entity) : Text := removeAll finalSemicolon (e.document.getText ⟨e.declarationStart, e.declarationEnd⟩)

/-- A head in which the group between two parentheses is written anew: from the name on it stays, but the parameters
lose their default values. -/
structure RewritesGroup (e : Entity) (l r : Nat) (text : Text) : Prop where
  left : FirstAt (parentheses (nonSource e.movedHead true) true) '(' (e.offsetInHead e.selection.stop) l
  right : FirstAt (parentheses (nonSource e.movedHead true) true) ')' (e.offsetInHead e.selection.stop) r
  written : ∃ front old new, text = removeAll overrideSpecifier (front ++
    replaceLineStarts (List.replicate old ' ') (List.replicate new ' ')
      (e.document.getText ⟨e.selection.start, e.document.positionAt (e.document.offsetAt e.declarationStart + l : Nat)⟩ ++
        '(' :: Types.stripDefaultValues (between e.movedHead (l + 1) r) ++ ')' :: e.movedHead.drop (r + 1)))

lemma Nested.cast_offsetInHead (h : e.Nested) {p : Position}
    (hle : e.document.offsetAt e.selection.start ≤ e.document.offsetAt p) :
    (e.document.offsetAt p : Int) - e.document.offsetAt e.declarationStart = (e.offsetInHead p : Int) := by
  have := h.declarationStart_le.trans hle
  rw [offsetInHead]
  omega

open Action CodeAction in
lemma exists_rewritesGroup (hnested : e.Nested) {target : OpenDocument} {p : Position} {scopes text : Text}
    {mayBeInline : Bool} {w : Workspace} {s s' : ActionState}
    (h : (e.headFor target p scopes mayBeInline).execute w s = (.ok text, s')) (htext : text ≠ []) :
    ∃ l r, e.RewritesGroup l r text := by
  unfold headFor at h
  extract_lets d start offset declaration masked nameEnd at h
  have hname : nameEnd = (e.offsetInHead e.selection.stop : Int) :=
    hnested.cast_offsetInHead (e.document.offsetAt_mono hnested.selection_le)
  rw [hname] at h
  cases hl : findAfter? ['('] masked (e.offsetInHead e.selection.stop : Int) with
  | none =>
    rw [hl] at h
    exact absurd (Except.ok.inj (congrArg Prod.fst h)).symm htext
  | some l =>
    cases hr : findAfter? [')'] masked (e.offsetInHead e.selection.stop : Int) with
    | none =>
      rw [hl, hr] at h
      exact absurd (Except.ok.inj (congrArg Prod.fst h)).symm htext
    | some r =>
      rw [hl, hr] at h
      obtain ⟨inHeader, s₁, _, h⟩ := execute_bind_ok.mp h
      refine ⟨l, r, firstAt_of_findAfter? hl, firstAt_of_findAfter? hr, ?_⟩
      exact ⟨_, _, _, (Except.ok.inj (congrArg Prod.fst h)).symm⟩

end Entity

namespace Signature

variable {e : Entity} {sig : Signature} {head : Head}

lemma firstAt_of_headOf (hnested : e.Nested) (h : headOf e = .ok head) :
    let shown := parentheses (nonSource head.text true) true
    FirstAt shown '(' (e.offsetInHead e.selection.start) head.leftParenthesis ∧
      FirstAt shown ')' (e.offsetInHead e.selection.start) head.rightParenthesis := by
  unfold headOf at h
  dsimp only at h
  rw [hnested.cast_offsetInHead (Nat.le_refl _)] at h
  split at h
  next l r hl hr =>
    obtain rfl := Except.ok.inj h
    exact ⟨firstAt_of_findAfter? hl, firstAt_of_findAfter? hr⟩
  next => simp at h

/-- **The signature and the moved head agree on the parameters unless a group reaches into the name.** Both take the
first group behind the name if and only if no group lies in the name or around it. -/
theorem group_agrees_iff_nameClear (hnested : e.Nested) (hsig : ofEntity e = .ok sig) {target : OpenDocument}
    {p : Position} {scopes text : Text} {mayBeInline : Bool} {w : Workspace} {s s' : ActionState}
    (hrun : (e.headFor target p scopes mayBeInline).execute w s = (.ok text, s')) (htext : text ≠ []) :
    ∃ head l r, headOf e = .ok head ∧
      sig.parameters = ParameterList.parseIn e.document.toTextDocument (head.offset + (head.leftParenthesis + 1 : Nat))
        (between head.text (head.leftParenthesis + 1) head.rightParenthesis) ∧
      e.RewritesGroup l r text ∧
      ((head.leftParenthesis = l ∧ head.rightParenthesis = r ∧
          Mask.FirstPair (Mask.nonSource head.text true) (e.offsetInHead e.selection.stop) l r) ↔
        Mask.NameClear (Mask.nonSource head.text true) (e.offsetInHead e.selection.start)
          (e.offsetInHead e.selection.stop)) := by
  obtain ⟨head, hhead, _⟩ := ofEntity_ok hsig
  obtain ⟨l, r, hrewrites⟩ := Entity.exists_rewritesGroup hnested hrun htext
  obtain ⟨hleft, hright⟩ := firstAt_of_headOf hnested hhead
  refine ⟨head, l, r, hhead, (ofEntity_texts hsig hhead).1, hrewrites, ?_, ?_⟩
  · rintro ⟨rfl, rfl, hfirst⟩
    exact Mask.nameClear_of_firstPair hleft hright hfirst
  · intro hclear
    have hle : e.offsetInHead e.selection.start ≤ e.offsetInHead e.selection.stop :=
      Nat.sub_le_sub_right (e.document.offsetAt_mono hnested.selection_le) _
    have hmoved : e.movedHead = removeAll Entity.finalSemicolon head.text := by
      rw [Entity.movedHead, (headOf_ok hhead).2.1]
    have hl := hrewrites.left
    have hr := hrewrites.right
    rw [hmoved] at hl hr
    replace hl := hl.congr (Entity.getElem?_parentheses_finalSemicolon _ (.inl rfl))
    replace hr := hr.congr (Entity.getElem?_parentheses_finalSemicolon _ (.inr rfl))
    have hread := Mask.firstPair_of_nameClear hle hleft hright hclear
    have hrewritten := Mask.firstPair_of_nameClear (Nat.le_refl _) hl hr (hclear.behind hle)
    obtain ⟨hsame, hsame'⟩ := hread.unique hrewritten
    exact ⟨hsame, hsame', hrewritten⟩

/-- A method of a class with two operators, by its name and its place. -/
def operatorOf (name : Text) (range selection : Range) : Entity where
  document := {
    uri := "file:///p/a.h"
    text := "struct S \x7b\n    bool operator()(int a) const;\n    bool operator<(const S &s = S()) const;\n\x7d;\n"
    opening := 0 }
  node := ⟨⟨name, name, [], .method, range, selection, []⟩, []⟩

/-- The name of the call operator has parentheses of its own. -/
def callOperator : Entity := operatorOf "operator()" ⟨⟨1, 4⟩, ⟨1, 32⟩⟩ ⟨⟨1, 9⟩, ⟨1, 19⟩⟩

def lessOperator : Entity := operatorOf "operator<" ⟨⟨2, 4⟩, ⟨2, 42⟩⟩ ⟨⟨2, 9⟩, ⟨2, 18⟩⟩

def operatorWorkspace : Workspace where
  source := .bare fun _ => .ok callOperator.document.toTextDocument

/-- Both agree on the parameters of the order, whose default value is dropped. -/
theorem group_agrees_iff_nameClear_lessOperator : ∃ sig s', ofEntity lessOperator = .ok sig ∧
    (lessOperator.headFor lessOperator.document ⟨9, 0⟩ "S::" false).execute operatorWorkspace {} =
      (.ok "bool S::operator<(const S &s) const", s') ∧
    ∃ head, headOf lessOperator = .ok head ∧ lessOperator.RewritesGroup head.leftParenthesis head.rightParenthesis
      "bool S::operator<(const S &s) const" := by
  obtain ⟨sig, hsig, -⟩ := @exists_ok_of_any _ (ofEntity lessOperator) (fun _ => true) (by decide +kernel)
  have hhead : ((headOf lessOperator).map fun head : Head => decide ('\\' ∉ Mask.nonSource head.text true ∧
      ∀ p ∈ (Mask.parenthesisMatching (Mask.nonSource head.text true)).pairs,
        p.2 < lessOperator.offsetInHead lessOperator.selection.start ∨
          lessOperator.offsetInHead lessOperator.selection.stop ≤ p.1)).toOption = some true := by decide +kernel
  have hmoved : ((lessOperator.headFor lessOperator.document ⟨9, 0⟩ "S::" false).execute operatorWorkspace {}).1 =
      .ok "bool S::operator<(const S &s) const" := ok_of_toOption (by decide +kernel)
  obtain ⟨s', hrun⟩ := exists_run_of_fst hmoved
  obtain ⟨head, l, r, hok, _, hrewrites, hiff⟩ := group_agrees_iff_nameClear ⟨by decide, by decide, by decide⟩ hsig hrun
    (by decide)
  rw [hok] at hhead
  obtain ⟨hbackslash, hgroups⟩ := of_decide_eq_true (Option.some.inj hhead)
  obtain ⟨rfl, rfl, _⟩ := hiff.mpr ((Mask.nameClear_iff_groups hbackslash).mpr hgroups)
  exact ⟨sig, s', hsig, hrun, head, hok, hrewrites⟩

/-- The signature of the call operator reads the parentheses of the name; its head elsewhere has the parameters. -/
theorem callOperator_groups_differ : (∃ sig, ofEntity callOperator = .ok sig ∧
      sig.parameters.parameters.map (·.raw) = [] ∧ sig.parameters.range = ⟨⟨1, 18⟩, ⟨1, 18⟩⟩) ∧
    ∃ s', (callOperator.headFor callOperator.document ⟨9, 0⟩ "S::" false).execute operatorWorkspace {} =
      (.ok "bool S::operator()(int a) const", s') := by
  obtain ⟨sig, hsig, hread⟩ := @exists_ok_of_any _ (ofEntity callOperator) (fun sig => decide
    (sig.parameters.parameters.map (·.raw) = [] ∧ sig.parameters.range = ⟨⟨1, 18⟩, ⟨1, 18⟩⟩)) (by decide +kernel)
  exact ⟨⟨sig, hsig, of_decide_eq_true hread⟩, exists_run_of_fst (ok_of_toOption (by decide +kernel))⟩

end Signature

end CppScaffold
