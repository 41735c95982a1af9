import CppScaffold.Proofs.Groups

/-!
# Delimiters matched with a stack

Masking in rounds gives what the usual matching with a stack gives, and masking a masked text changes nothing.
-/

namespace CppScaffold.Mask

open Text List View Mark

/-! ## The matching -/

/-- Delimiters by their offsets: those that have a partner, and those that have none. -/
structure Matching where
  pairs : List (Nat × Nat)
  alone : List Nat

/-- Matches delimiters from `offset` on; `stack` holds the open ones without partner, the last one first. -/
def matchFrom (offset : Nat) (stack : List Nat) : List Mark → Matching
  | [] => ⟨[], stack⟩
  | .other :: m => matchFrom (offset + 1) stack m
  | .opening :: m => matchFrom (offset + 1) (offset :: stack) m
  | .closing :: m =>
    match stack with
    | [] => ⟨(matchFrom (offset + 1) [] m).pairs, offset :: (matchFrom (offset + 1) [] m).alone⟩
    | i :: stack => ⟨(i, offset) :: (matchFrom (offset + 1) stack m).pairs, (matchFrom (offset + 1) stack m).alone⟩

/-- The pairs that lie in no other pair. -/
def Matching.outermost (d : Matching) : List (Nat × Nat) :=
  d.pairs.filter fun p => !d.pairs.any fun q => q.1 < p.1 && p.2 < q.2

/-- Whether an offset lies between two delimiters, or is one of them unless `keep` is set. -/
def covers (keep : Bool) (i : Nat) (p : Nat × Nat) : Bool :=
  if keep then p.1 < i && i < p.2 else p.1 ≤ i && i ≤ p.2

/-- The text with its groups masked as the matching says. -/
def stackMask (left right : Char) (t : Text) (keep : Bool) : Text :=
  let d := matchFrom 0 [] (marks left right false t)
  t.mapIdx fun i c =>
    if d.alone.contains i then ' ' else if d.outermost.any (covers keep i) then maskChar c else c

variable {i : Nat} {left right : Char} {p : Nat × Nat}

lemma covers_iff {keep : Bool} : covers keep i p ↔ p.1 + keep.toNat ≤ i ∧ i + keep.toNat ≤ p.2 := by
  unfold covers
  cases keep <;> simp [Nat.succ_le_iff]

lemma covers_of_between (hstart : p.1 < i) (hstop : i < p.2) (keep : Bool) : covers keep i p := by
  have := keep.toNat_le
  rw [covers_iff]
  omega

lemma le_of_covers {keep : Bool} (h : covers keep i p) : p.1 ≤ i ∧ i ≤ p.2 := by
  rw [covers_iff] at h
  omega

lemma covers_mono {keep : Bool} {q : Nat × Nat} (h : covers keep i p) (hstart : q.1 ≤ p.1)
    (hstop : p.2 ≤ q.2) : covers keep i q := by
  rw [covers_iff] at h ⊢
  omega

lemma Matching.exists_outermost (d : Matching) (hp : p ∈ d.pairs) :
    ∃ q ∈ d.outermost, q.1 ≤ p.1 ∧ p.2 ≤ q.2 := by
  -- a pair around `p` begins before it, so that this cannot go on forever
  induction hn : p.1 using Nat.strong_induction_on generalizing p with
  | _ n ih =>
    subst hn
    by_cases hmax : d.pairs.any (fun q => q.1 < p.1 && p.2 < q.2)
    · obtain ⟨q, hq, hlt⟩ := any_eq_true.mp hmax
      rw [Bool.and_eq_true, decide_eq_true_eq, decide_eq_true_eq] at hlt
      obtain ⟨r, hr, hle, hge⟩ := ih q.1 hlt.1 hq rfl
      exact ⟨r, hr, by omega, by omega⟩
    · refine ⟨p, mem_filter.mpr ⟨hp, ?_⟩, Nat.le_refl _, Nat.le_refl _⟩
      rw [Bool.not_eq_true] at hmax
      rw [hmax, Bool.not_false]

lemma Matching.any_outermost (d : Matching) (keep : Bool) (i : Nat) :
    d.outermost.any (covers keep i) = d.pairs.any (covers keep i) := by
  rw [Bool.eq_iff_iff, any_eq_true, any_eq_true]
  constructor
  · rintro ⟨p, hp, hcovers⟩
    exact ⟨p, (mem_filter.mp hp).1, hcovers⟩
  · rintro ⟨p, hp, hcovers⟩
    obtain ⟨q, hq, hle, hge⟩ := d.exists_outermost hp
    exact ⟨q, hq, covers_mono hcovers hle hge⟩

/-! ## The matching of a group -/

section

variable {m inner rest : List Mark} {depth depth' : Nat}

/-- What lies deeper in the stack than the text closes is left alone. -/
lemma matchFrom_append_stack (stack : List Nat) (h : closes m ≤ stack.length) (below : List Nat) (offset : Nat) :
    matchFrom offset (stack ++ below) m =
      ⟨(matchFrom offset stack m).pairs, (matchFrom offset stack m).alone ++ below⟩ := by
  induction m generalizing stack offset with
  | nil => rfl
  | cons k m ih =>
    cases k with
    | other => exact ih stack h (offset + 1)
    | opening =>
      have hm : closes m ≤ (offset :: stack).length := by
        rw [closes] at h
        rw [length_cons]
        omega
      exact ih (offset :: stack) hm (offset + 1)
    | closing =>
      rw [closes] at h
      obtain _ | ⟨i, stack⟩ := stack
      · rw [length_nil] at h
        omega
      · have hm : closes m ≤ stack.length := by
          rw [length_cons] at h
          omega
        have hrest := ih stack hm (offset + 1)
        simp [matchFrom, hrest]

variable {offset i : Nat}

/-- Marks that open and close groups inside of a group take nothing off the stack that was there before. -/
lemma matchFrom_of_level (h : level depth inner = some depth') (stack : List Nat) (hstack : stack.length = depth)
    {first : Nat} (hfirst : ∀ i ∈ stack, first ≤ i) (hle : first ≤ offset) (below : List Nat) (m : List Mark) :
    ∃ pairs stack', stack'.length = depth' ∧ (∀ p ∈ pairs, first ≤ p.1 ∧ p.2 < offset + inner.length) ∧
      matchFrom offset (stack ++ below) (inner ++ m) =
        ⟨pairs ++ (matchFrom (offset + inner.length) (stack' ++ below) m).pairs,
          (matchFrom (offset + inner.length) (stack' ++ below) m).alone⟩ := by
  have hnext : ∀ {k : Mark} {inner : List Mark} {offset : Nat},
      offset + (k :: inner).length = offset + 1 + inner.length := by
    intro k inner offset
    rw [length_cons]
    omega
  fun_induction level depth inner generalizing stack offset with
  | case1 depth =>
    obtain rfl := Option.some.inj h
    exact ⟨[], stack, hstack, by simp, rfl⟩
  | case2 depth inner ih =>
    rw [hnext]
    exact ih h stack hstack hfirst (Nat.le_add_right_of_le hle)
  | case3 depth inner ih =>
    have hfirst' : ∀ i ∈ offset :: stack, first ≤ i := forall_mem_cons.mpr ⟨hle, hfirst⟩
    rw [hnext]
    exact ih h (offset :: stack) (by rw [length_cons, hstack]) hfirst' (Nat.le_add_right_of_le hle)
  | case4 => cases h
  | case5 depth inner ih =>
    obtain ⟨i, stack, rfl⟩ := exists_cons_of_length_eq_add_one hstack
    obtain ⟨hi, hfirst⟩ := forall_mem_cons.mp hfirst
    obtain ⟨pairs, stack', hlength, hpairs, heq⟩ := ih h stack (by simpa using hstack) hfirst
      (Nat.le_add_right_of_le (k := 1) hle)
    rw [hnext]
    refine ⟨(i, offset) :: pairs, stack', hlength, forall_mem_cons.mpr ⟨⟨hi, ?_⟩, hpairs⟩, ?_⟩
    · dsimp only
      omega
    · simp [matchFrom, heq]

lemma matchFrom_unclosed (h : closes m = 0) (offset : Nat) :
    matchFrom offset [] (.opening :: m) =
      ⟨(matchFrom (offset + 1) [] m).pairs, (matchFrom (offset + 1) [] m).alone ++ [offset]⟩ :=
  matchFrom_append_stack [] (Nat.le_of_eq h) [offset] (offset + 1)

lemma matchFrom_group (h : level 0 inner = some 0) (offset : Nat) (rest : List Mark) :
    ∃ pairs, (∀ p ∈ pairs, offset < p.1 ∧ p.2 < offset + 1 + inner.length) ∧
      matchFrom offset [] (.opening :: (inner ++ .closing :: rest)) =
        ⟨pairs ++ (offset, offset + 1 + inner.length) :: (matchFrom (offset + 1 + inner.length + 1) [] rest).pairs,
          (matchFrom (offset + 1 + inner.length + 1) [] rest).alone⟩ := by
  obtain ⟨pairs, stack', hlength, hpairs, heq⟩ := matchFrom_of_level h [] rfl (by simp)
    (Nat.le_refl (offset + 1)) [offset] (.closing :: rest)
  obtain rfl := length_eq_zero_iff.mp hlength
  exact ⟨pairs, hpairs, heq⟩

lemma le_of_mem_matchFrom {stack : List Nat}
    (h : i ∈ (matchFrom offset stack m).alone ∨ i ∈ (matchFrom offset stack m).pairs.map Prod.fst) :
    i ∈ stack ∨ offset ≤ i := by
  fun_induction matchFrom offset stack m with
  | case1 offset stack => simpa using h.imp_right (by simp)
  | case2 offset stack m ih => exact (ih h).imp_right (by omega)
  | case3 offset stack m ih =>
    rcases ih h with hi | hi
    · rcases mem_cons.mp hi with rfl | hi
      · exact Or.inr (Nat.le_refl _)
      · exact Or.inl hi
    · exact Or.inr (by omega)
  | case4 offset m ih =>
    rcases h with h | h
    · rcases mem_cons.mp h with rfl | h
      · exact Or.inr (Nat.le_refl _)
      · exact (ih (Or.inl h)).imp_right (by omega)
    · exact (ih (Or.inr h)).imp_right (by omega)
  | case5 offset m j stack ih =>
    have hlater : i ∈ stack ∨ offset + 1 ≤ i → i ∈ j :: stack ∨ offset ≤ i :=
      Or.imp (mem_cons_of_mem j) (by omega)
    rcases h with h | h
    · exact hlater (ih (Or.inl h))
    · rcases mem_cons.mp h with rfl | h
      · exact Or.inl (mem_cons_self)
      · exact hlater (ih (Or.inr h))

/-! ## How characters come out -/

/-- How the matching lets the character at an offset come out. -/
def Matching.verdict (d : Matching) (keep : Bool) (i : Nat) : View :=
  if d.alone.contains i then .blanked else if d.pairs.any (covers keep i) then .hidden else .shown

lemma alone_of_lt (h : i < offset) (m : List Mark) :
    (matchFrom offset [] m).alone.contains i = false := by
  by_contra hmem
  rcases le_of_mem_matchFrom (Or.inl (contains_iff_mem.mp (by simpa using hmem))) with hi | hi
  · simp at hi
  · omega

lemma verdict_of_lt (h : i < offset) (keep : Bool) (m : List Mark) :
    (matchFrom offset [] m).verdict keep i = .shown := by
  have hpairs : (matchFrom offset [] m).pairs.any (covers keep i) = false := by
    rw [any_eq_false]
    intro p hp hcovers
    have hle := (le_of_covers hcovers).1
    rcases le_of_mem_matchFrom (Or.inr (mem_map_of_mem (f := Prod.fst) hp)) with hi | hi
    · simp at hi
    · omega
  rw [Matching.verdict, alone_of_lt h, hpairs]
  rfl

/-- A delimiter without a partner changes nothing elsewhere. -/
lemma verdict_alone {d : Matching} {alone : List Nat} {j : Nat} (h : ∀ k, k ∈ alone ↔ k = j ∨ k ∈ d.alone)
    (keep : Bool) (i : Nat) :
    Matching.verdict ⟨d.pairs, alone⟩ keep i = if i = j then .blanked else d.verdict keep i := by
  have hcontains : alone.contains i = (decide (i = j) || d.alone.contains i) := by
    rw [Bool.eq_iff_iff, Bool.or_eq_true, decide_eq_true_eq, contains_iff_mem, contains_iff_mem]
    exact h i
  unfold Matching.verdict
  rw [hcontains]
  by_cases hij : i = j <;> simp [hij]

/-- The characters from a lone delimiter on. -/
lemma map_verdict_alone {d d' : Matching} {keep : Bool}
    (h : ∀ i, d.verdict keep i = if i = offset then .blanked else d'.verdict keep i) (n : Nat) :
    (range' offset (n + 1)).map (d.verdict keep) = .blanked :: (range' (offset + 1) n).map (d'.verdict keep) := by
  rw [range'_succ, map_cons, h, if_pos rfl]
  refine congrArg (blanked :: ·) (map_congr_left fun i hi => ?_)
  rw [h, if_neg (by have := mem_range'_1.mp hi; omega)]

/-- A group hides its inside and, unless `keep` is set, its delimiters; what comes behind it is independent of it. -/
lemma verdict_group {d : Matching} {inside : List (Nat × Nat)} {start stop : Nat}
    (hinside : ∀ p ∈ inside, start < p.1 ∧ p.2 < stop) (hbehind : ∀ k ≤ stop, d.alone.contains k = false)
    (keep : Bool) : Matching.verdict ⟨inside ++ (start, stop) :: d.pairs, d.alone⟩ keep i =
      if covers keep i (start, stop) then .hidden else d.verdict keep i := by
  have hany : (inside ++ (start, stop) :: d.pairs).any (covers keep i) =
      (inside.any (covers keep i) || (covers keep i (start, stop) || d.pairs.any (covers keep i))) := by
    rw [any_append, any_cons]
  unfold Matching.verdict
  rw [hany]
  by_cases hcovers : covers keep i (start, stop)
  · rw [hbehind i (le_of_covers hcovers).2, hcovers, Bool.true_or, Bool.or_true]
    rfl
  · -- a pair inside of the group covers nothing that the group does not cover
    have hnone : inside.any (covers keep i) = false := by
      rw [any_eq_false]
      intro p hp hp'
      obtain ⟨hstart, hstop⟩ := hinside p hp
      exact hcovers (covers_mono hp' (Nat.le_of_lt hstart) (Nat.le_of_lt hstop))
    rw [Bool.not_eq_true] at hcovers
    rw [hnone, hcovers, Bool.false_or]
    rfl

/-- The view of a text from left to right is that of the matching. -/
lemma views_eq_verdict (keep : Bool) (m : List Mark) (offset : Nat) :
    views keep m = (range' offset m.length).map ((matchFrom offset [] m).verdict keep) := by
  induction m using marks_induction generalizing offset with
  | nil => rfl
  | other m ih =>
    have hfirst : (matchFrom offset [] (.other :: m)).verdict keep offset = .shown :=
      verdict_of_lt (Nat.lt_succ_self offset) keep m
    rw [length_cons, range'_succ, map_cons, hfirst]
    exact congrArg (shown :: ·) (ih (offset + 1))
  | closing m ih =>
    have hverdict : ∀ i, (matchFrom offset [] (.closing :: m)).verdict keep i =
        if i = offset then .blanked else (matchFrom (offset + 1) [] m).verdict keep i :=
      verdict_alone (fun k => mem_cons) keep
    rw [length_cons, map_verdict_alone hverdict, ← ih]
    rfl
  | unclosed m hm ih =>
    have hverdict : ∀ i, (matchFrom offset [] (.opening :: m)).verdict keep i =
        if i = offset then .blanked else (matchFrom (offset + 1) [] m).verdict keep i := by
      rw [matchFrom_unclosed hm]
      refine verdict_alone (fun k => ?_) keep
      rw [mem_append, mem_singleton, or_comm]
    rw [views_unclosed hm, length_cons, map_verdict_alone hverdict, ← ih]
  | group inner rest hlevel ih =>
    obtain ⟨inside, hinside, hmatch⟩ := matchFrom_group hlevel offset rest
    have hbehind : ∀ k ≤ offset + 1 + inner.length,
        (matchFrom (offset + 1 + inner.length + 1) [] rest).alone.contains k = false := fun k hk =>
      alone_of_lt (Nat.lt_succ_of_le hk) rest
    have hverdict := fun i => verdict_group (i := i) hinside hbehind keep
    rw [← hmatch] at hverdict
    have hrange : range' offset (opening :: (inner ++ .closing :: rest)).length =
        offset :: (range' (offset + 1) inner.length ++
          (offset + 1 + inner.length) :: range' (offset + 1 + inner.length + 1) rest.length) := by
      rw [length_cons, range'_succ, length_append, length_cons, ← range'_append_1, range'_succ]
    have hdelimiter : ∀ i, i = offset ∨ i = offset + 1 + inner.length →
        (matchFrom offset [] (.opening :: (inner ++ .closing :: rest))).verdict keep i =
          if keep then .shown else .hidden := by
      intro i hi
      rw [hverdict, verdict_of_lt (by omega)]
      cases keep
      · rw [if_pos (by simp [covers]; omega)]
        rfl
      · rw [if_neg (by simp [covers]; omega)]
        rfl
    have hinner : (range' (offset + 1) inner.length).map
        ((matchFrom offset [] (.opening :: (inner ++ .closing :: rest))).verdict keep) =
          replicate inner.length .hidden := by
      refine eq_replicate_iff.mpr ⟨by simp, fun v hv => ?_⟩
      obtain ⟨i, hi, rfl⟩ := mem_map.mp hv
      have hi := mem_range'_1.mp hi
      rw [hverdict, if_pos (covers_of_between (by omega) (by omega) keep)]
    have hrest : (range' (offset + 1 + inner.length + 1) rest.length).map
        ((matchFrom offset [] (.opening :: (inner ++ .closing :: rest))).verdict keep) = views keep rest := by
      rw [ih (offset + 1 + inner.length + 1)]
      refine map_congr_left fun i hi => ?_
      have hi := mem_range'_1.mp hi
      rw [hverdict, if_neg]
      intro hcovers
      have hle := (le_of_covers hcovers).2
      omega
    rw [views_group hlevel, hrange, map_cons, map_append, map_cons, hinner, hrest,
      hdelimiter _ (Or.inl rfl), hdelimiter _ (Or.inr rfl)]
    rfl

end

lemma balanced_eq_stackMask (hspace : markOf left right ' ' = .other) (t : Text) (keep : Bool) :
    balanced left right t keep = stackMask left right t keep := by
  rw [balanced_eq_renderWith hspace, renderWith, views_eq_verdict keep _ 0, stackMask, length_marks]
  refine ext_getElem (by simp) fun i _ _ => ?_
  simp only [getElem_zipWith, getElem_map, getElem_range', getElem_mapIdx, Matching.any_outermost,
    Matching.verdict, Nat.one_mul, Nat.zero_add]
  split_ifs <;> rfl

/-! ## The number of rounds -/

lemma balance_add {n : Nat} {t : Text} (h : (groups left right (balance left right n t)).unbalanced = none) (k : Nat) :
    balance left right (n + k) t = balance left right n t := by
  fun_induction balance left right n t with
  | case1 t =>
    cases k with
    | zero => rfl
    | succ k => rw [Nat.zero_add, balance, h]
  | case2 n t hnone => rw [Nat.succ_add, balance, hnone]
  | case3 n t i hsome ih =>
    rw [Nat.succ_add, balance, hsome]
    exact ih h

lemma balance_of_length_lt (hspace : markOf left right ' ' = .other) {n : Nat} {t : Text} (h : t.length < n) :
    (groups left right (balance left right n t)).unbalanced = none ∧
    balance left right n t = balance left right (t.length + 1) t := by
  have hsettled := (balance_spec hspace (Nat.lt_succ_of_le (countP_marks_le left right t))).1
  obtain ⟨k, rfl⟩ := Nat.exists_eq_add_of_le h
  have hsame := balance_add hsettled k
  exact ⟨by rw [hsame]; exact hsettled, hsame⟩

/-- A space that is a delimiter is blanked again and again. -/
lemma unbalanced_balance_space (h : left = ' ' ∨ right = ' ') (n : Nat) :
    (groups left right (balance left right n [' '])).unbalanced = some 0 := by
  have hround : (groups left right [' ']).unbalanced = some 0 := by
    rcases h with rfl | rfl
    · rfl
    · by_cases hleft : left = ' '
      · subst hleft
        rfl
      · simp [groups, groupsFrom, Ne.symm hleft]
  induction n with
  | zero => exact hround
  | succ n ih =>
    rwa [balance, hround]

/-! ## Masking a masked text -/

/-- The mark of a character that was masked: only what stays visible can be a delimiter. -/
def Mark.seen (v : View) (k : Mark) : Mark := if v = .shown then k else .other

/-- The marks that the masked text has. -/
def seenMarks (keep : Bool) (m : List Mark) : List Mark := List.zipWith seen (views keep m) m

lemma maskChar_ne_back (c : Char) : maskChar c ≠ '\\' := by
  unfold maskChar
  split
  · rintro rfl
    contradiction
  · decide

lemma markOf_maskChar (hleft : left ≠ ' ') (hright : right ≠ ' ') (hl : isBreak left = false)
    (hr : isBreak right = false) (c : Char) : markOf left right (maskChar c) = .other := by
  unfold maskChar
  split
  next hc =>
    have hcl : c ≠ left := ne_of_apply_ne isBreak (by simp [hc, hl])
    have hcr : c ≠ right := ne_of_apply_ne isBreak (by simp [hc, hr])
    simp [markOf, hcl, hcr]
  next => exact markOf_space hleft hright

lemma apply_ne_back {c : Char} (hc : c ≠ '\\') (v : View) : v.apply c ≠ '\\' := by
  cases v with
  | shown => exact hc
  | hidden => exact maskChar_ne_back c
  | blanked => exact maskChar_ne_back ' '

lemma markOf_apply (hmasked : ∀ c, markOf left right (maskChar c) = .other) (v : View) (c : Char) :
    markOf left right (v.apply c) = seen v (markOf left right c) := by
  cases v with
  | shown => rfl
  | hidden => exact hmasked c
  | blanked => exact hmasked ' '

/-- A visible backslash takes the same character along as before; those of a group are hidden and have no effect behind
it. -/
lemma marks_masked (hmasked : ∀ c, markOf left right (maskChar c) = .other) (keep : Bool) (t : Text) (depth : Nat)
    (escaped : Bool) :
    marks left right (escaped && decide (depth = 0))
        (zipWith apply (zipWith (under keep) (viewFrom depth (marks left right escaped t)) (marks left right escaped t)) t) =
      zipWith seen (zipWith (under keep) (viewFrom depth (marks left right escaped t)) (marks left right escaped t))
        (marks left right escaped t) := by
  induction t generalizing depth escaped with
  | nil => simp [marks]
  | cons c t ih =>
    rw [marks]
    generalize hk : (if escaped then other else markOf left right c) = k
    obtain ⟨v, depth', hstep, hother⟩ :=
      viewFrom_cons k depth (closes (marks left right (!escaped && decide (c = '\\')) t))
    have hrest := ih depth' (!escaped && decide (c = '\\'))
    rw [hstep _ rfl, zipWith_cons_cons, zipWith_cons_cons, zipWith_cons_cons, marks, ← hrest]
    by_cases hkother : k = .other
    · obtain ⟨rfl, rfl⟩ := hother hkother
      subst hkother
      by_cases hdepth : depth' = 0
      · simp [hdepth, under, apply, seen, hk]
      · simp [hdepth, under, apply, seen, hmasked, maskChar_ne_back]
    · -- a delimiter is neither taken along nor a backslash, however it comes out
      obtain ⟨rfl, hmark⟩ : escaped = false ∧ markOf left right c = k := by
        cases escaped <;> simp_all
      have hback := (eq_of_markOf (hmark ▸ hkother)).1
      simp [hback, apply_ne_back, markOf_apply hmasked, hmark]

lemma level_replicate_other (n depth : Nat) : level depth (replicate n .other) = some depth := by
  induction n with
  | zero => rfl
  | succ n ih => exact ih

lemma seenMarks_group {inner : List Mark} (h : level 0 inner = some 0) (keep : Bool) (rest : List Mark) :
    seenMarks keep (.opening :: (inner ++ .closing :: rest)) =
      seen (under keep .shown .opening) .opening ::
        (replicate inner.length .other ++ seen (under keep .shown .closing) .closing :: seenMarks keep rest) := by
  rw [seenMarks, views_group h, zipWith_cons_cons, zipWith_append (by simp), zipWith_cons_cons,
    zipWith_replicate_hidden fun _ => rfl]
  rfl

/-- What a second view of a character may be. -/
def View.Settles (v v' : View) : Prop := v' ≠ .blanked ∧ (v = .shown → v' = .shown)

lemma views_replicate_other (keep : Bool) (n : Nat) (m : List Mark) :
    views keep (replicate n .other ++ m) = replicate n .shown ++ views keep m := by
  induction n with
  | zero => rfl
  | succ n ih => exact congrArg (shown :: ·) ih

/-- In the masked text no delimiter lacks its partner, and what was visible is visible. -/
lemma views_seenMarks (keep : Bool) (m : List Mark) :
    List.Forall₂ Settles (views keep m) (views keep (seenMarks keep m)) := by
  have hreplicate : ∀ {v : View} {n : Nat}, v ≠ .blanked →
      List.Forall₂ Settles (replicate n .hidden) (replicate n v) := by
    intro v n hv
    induction n with
    | zero => exact .nil
    | succ n ih => exact .cons ⟨hv, nofun⟩ ih
  induction m using marks_induction with
  | nil => exact .nil
  | other m ih => exact .cons ⟨nofun, fun _ => rfl⟩ ih
  | closing m ih => exact .cons ⟨nofun, nofun⟩ ih
  | unclosed m hm ih =>
    rw [seenMarks, views_unclosed hm]
    exact .cons ⟨nofun, nofun⟩ ih
  | group inner rest hlevel ih =>
    rw [seenMarks_group hlevel, views_group hlevel]
    cases keep with
    | true =>
      have hgroup := views_group (level_replicate_other inner.length 0) true (seenMarks true rest)
      rw [length_replicate] at hgroup
      refine Eq.subst (motive := List.Forall₂ Settles _) hgroup.symm (.cons ⟨nofun, fun _ => rfl⟩ ?_)
      refine rel_append (hreplicate (v := .hidden) nofun) (List.Forall₂.cons ?_ ih)
      exact ⟨nofun, fun _ => rfl⟩
    | false =>
      have hgroup := views_replicate_other false inner.length (.other :: seenMarks false rest)
      refine .cons ⟨nofun, nofun⟩ ?_
      refine Eq.subst (motive := List.Forall₂ Settles _) hgroup.symm ?_
      refine rel_append (hreplicate (v := .shown) nofun) (List.Forall₂.cons ?_ ih)
      exact ⟨nofun, nofun⟩

lemma View.Settles.apply_apply {v v' : View} (h : v.Settles v') (c : Char) : v'.apply (v.apply c) = v.apply c := by
  obtain ⟨hblanked, hshown⟩ := h
  cases v with
  | shown => rw [hshown rfl]; rfl
  | hidden =>
    cases v' with
    | shown => rfl
    | hidden => exact maskChar_maskChar c
    | blanked => exact absurd rfl hblanked
  | blanked => cases v' <;> rfl

lemma zipWith_apply_apply {l l' : List View} (h : List.Forall₂ Settles l l') (t : Text) :
    zipWith apply l' (zipWith apply l t) = zipWith apply l t := by
  induction h generalizing t with
  | nil => rfl
  | cons hv _ ih =>
    cases t with
    | nil => rfl
    | cons c t => rw [zipWith_cons_cons, zipWith_cons_cons, hv.apply_apply, ih]

lemma balanced_balanced (hmasked : ∀ c, markOf left right (maskChar c) = .other) (t : Text)
    (keep : Bool) : balanced left right (balanced left right t keep) keep = balanced left right t keep := by
  have hspace : markOf left right ' ' = .other := hmasked ' '
  have hmarks : marks left right false (renderWith keep left right t) = seenMarks keep (marks left right false t) :=
    marks_masked hmasked keep t 0 false
  rw [balanced_eq_renderWith hspace, balanced_eq_renderWith hspace, renderWith, hmarks]
  exact zipWith_apply_apply (views_seenMarks keep _) t

/-- **Masking in rounds is masking with a stack.** The rounds end for every text exactly if neither delimiter is a
space, after at most as many as there are characters. The text comes out as the matching says and, unless a delimiter
is a line break, masking it again does not change it. -/
theorem balanced_matches_stack (left right : Char) :
    ((∀ t, ∃ n, (groups left right (balance left right n t)).unbalanced = none) ↔ left ≠ ' ' ∧ right ≠ ' ') ∧
    (left ≠ ' ' → right ≠ ' ' → ∀ t keep,
      (∀ n, t.length < n → (groups left right (balance left right n t)).unbalanced = none ∧
        balance left right n t = balance left right (t.length + 1) t) ∧
      balanced left right t keep = stackMask left right t keep ∧
      (isBreak left = false → isBreak right = false →
        balanced left right (balanced left right t keep) keep = balanced left right t keep)) := by
  refine ⟨⟨fun hends => ?_, fun ⟨hleft, hright⟩ t => ?_⟩,
    fun hleft hright t keep => ⟨fun n hn => ?_, ?_, fun hl hr => ?_⟩⟩
  · obtain ⟨n, hn⟩ := hends [' ']
    by_contra hspace
    rw [not_and_or, not_not, not_not] at hspace
    rw [unbalanced_balance_space hspace] at hn
    cases hn
  · exact ⟨t.length + 1, (balance_of_length_lt (markOf_space hleft hright) (Nat.lt_succ_self _)).1⟩
  · exact balance_of_length_lt (markOf_space hleft hright) hn
  · exact balanced_eq_stackMask (markOf_space hleft hright) t keep
  · exact balanced_balanced (markOf_maskChar hleft hright hl hr) t keep

/-- A group with another one, an escaped delimiter and a line break inside, between lone delimiters. -/
theorem balanced_matches_stack_parentheses :
    let t : Text := [')', 'a', '(', '(', '\n', ')', '\\', ')', ')', '(', 'b']
    '(' ≠ ' ' ∧ ')' ≠ ' ' ∧
      balanced '(' ')' t true = stackMask '(' ')' t true ∧ balanced '(' ')' t false = stackMask '(' ')' t false ∧
      stackMask '(' ')' t true = [' ', 'a', '(', ' ', '\n', ' ', ' ', ' ', ')', ' ', 'b'] ∧
      stackMask '(' ')' t false = [' ', 'a', ' ', ' ', '\n', ' ', ' ', ' ', ' ', ' ', 'b'] := by
  intro t
  have hleft : '(' ≠ ' ' := by decide
  have hright : ')' ≠ ' ' := by decide
  have hmask := fun keep => ((balanced_matches_stack '(' ')').2 hleft hright t keep).2.1
  exact ⟨hleft, hright, hmask true, hmask false, by decide, by decide⟩

end CppScaffold.Mask
