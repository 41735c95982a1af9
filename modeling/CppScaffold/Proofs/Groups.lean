import CppScaffold.Proofs.Layers

/-!
# Bracketed groups

Groups are masked in rounds. What comes out can be read off from left to right (`viewFrom`, `balanced_eq`), so two
texts can be masked separately unless one opens groups that the other closes (`balanced_append`).
-/

namespace CppScaffold.Mask

open Text List MaskedForm

inductive Mark where
  | opening
  | closing
  | other
  deriving DecidableEq, Repr

/-- What a character is, if no backslash takes it along. -/
def markOf (left right c : Char) : Mark :=
  if c = '\\' then .other else if c = left then .opening else if c = right then .closing else .other

/-- The marks of a text. A backslash takes the character after it along; `escaped` tells that this happens
here. -/
def marks (left right : Char) (escaped : Bool) : Text → List Mark
  | [] => []
  | c :: rest =>
    (if escaped then .other else markOf left right c) :: marks left right (!escaped && decide (c = '\\')) rest

def closes : List Mark → Nat
  | [] => 0
  | .opening :: m => closes m - 1
  | .closing :: m => closes m + 1
  | .other :: m => closes m

/-- How many groups are left open. -/
def opens : List Mark → Nat
  | [] => 0
  | .opening :: m => if closes m = 0 then opens m + 1 else opens m
  | .closing :: m | .other :: m => opens m

/-- How a character comes out: as it is, masked, or blanked for want of a partner. -/
inductive View where
  | shown
  | hidden
  | blanked
  deriving DecidableEq, Repr

def View.apply : View → Char → Char
  | .shown, c => c
  | .hidden, c => maskChar c
  | .blanked, _ => ' '

/-- How the characters with the given marks come out inside of `depth` groups, all of which are closed. -/
def viewFrom : Nat → List Mark → List View
  | _, [] => []
  | 0, .other :: m => .shown :: viewFrom 0 m
  | 0, .opening :: m => if closes m = 0 then .blanked :: viewFrom 0 m else .shown :: viewFrom 1 m
  | 0, .closing :: m => .blanked :: viewFrom 0 m
  | depth + 1, .other :: m => .hidden :: viewFrom (depth + 1) m
  | depth + 1, .opening :: m => .hidden :: viewFrom (depth + 2) m
  | 1, .closing :: m => .shown :: viewFrom 0 m
  | depth + 2, .closing :: m => .hidden :: viewFrom (depth + 1) m

/-- The number of groups that are open inside of a group after some marks, unless they close it. -/
def level : Nat → List Mark → Option Nat
  | depth, [] => some depth
  | depth, .other :: m => level depth m
  | depth, .opening :: m => level (depth + 1) m
  | 0, .closing :: _ => none
  | depth + 1, .closing :: m => level depth m

section Marks

variable {m m' inner rest : List Mark} {depth depth' : Nat}

lemma length_viewFrom (depth : Nat) (m : List Mark) : (viewFrom depth m).length = m.length := by
  fun_induction viewFrom depth m <;> simp_all

lemma closes_append (m m' : List Mark) : closes (m ++ m') = closes m + (closes m' - opens m) := by
  induction m with
  | nil => simp [closes, opens]
  | cons k m ih =>
    cases k with
    | other => simpa [closes, opens] using ih
    | closing =>
      simp only [cons_append, closes, opens, ih]
      omega
    | opening =>
      simp only [cons_append, closes, opens, ih]
      split <;> omega

lemma opens_append (m m' : List Mark) : opens (m ++ m') = opens m' + (opens m - closes m') := by
  induction m with
  | nil => simp [opens]
  | cons k m ih =>
    cases k with
    | other => simpa [opens] using ih
    | closing => simpa [opens] using ih
    | opening =>
      simp only [cons_append, opens, ih, closes_append]
      split <;> split <;> omega

/-! ## One group -/

lemma exists_closing (h : depth < closes m) :
    ∃ inner rest, m = inner ++ .closing :: rest ∧ level depth inner = some 0 := by
  induction m generalizing depth with
  | nil => simp [closes] at h
  | cons k m ih =>
    cases k with
    | other =>
      obtain ⟨inner, rest, rfl, hlevel⟩ := ih h
      exact ⟨.other :: inner, rest, rfl, hlevel⟩
    | opening =>
      have hm : depth + 1 < closes m := by rw [closes] at h; omega
      obtain ⟨inner, rest, rfl, hlevel⟩ := ih hm
      exact ⟨.opening :: inner, rest, rfl, hlevel⟩
    | closing =>
      cases depth with
      | zero => exact ⟨[], m, rfl, rfl⟩
      | succ depth =>
        have hm : depth < closes m := by rw [closes] at h; omega
        obtain ⟨inner, rest, rfl, hlevel⟩ := ih hm
        exact ⟨.closing :: inner, rest, rfl, hlevel⟩

lemma exists_level (h : closes m ≤ depth) : ∃ depth', level depth m = some depth' := by
  induction m generalizing depth with
  | nil => exact ⟨depth, rfl⟩
  | cons k m ih =>
    cases k with
    | other => exact ih h
    | opening => exact ih (by rw [closes] at h; omega)
    | closing =>
      cases depth with
      | zero => simp [closes] at h
      | succ depth => exact ih (by rw [closes] at h; omega)

lemma lt_closes_of_level (h : level depth inner = some depth') (hm : depth' < closes m) :
    depth < closes (inner ++ m) := by
  fun_induction level depth inner with
  | case1 => cases h; exact hm
  | case2 depth m ih => exact ih h
  | case3 depth m ih | case5 depth m ih =>
    have := ih h
    simp only [cons_append, closes]
    omega
  | case4 => cases h

lemma level_append (h : level depth m = some depth') (m' : List Mark) : level depth (m ++ m') = level depth' m' := by
  fun_induction level depth m with
  | case1 => cases h; rfl
  | case2 depth m ih | case3 depth m ih | case5 depth m ih => exact ih h
  | case4 => cases h

lemma level_add (h : level depth m = some depth') (n : Nat) : level (depth + n) m = some (depth' + n) := by
  fun_induction level depth m with
  | case1 => cases h; rfl
  | case2 depth m ih => exact ih h
  | case3 depth m ih =>
    rw [level, Nat.add_right_comm]
    exact ih h
  | case4 => cases h
  | case5 depth m ih =>
    rw [Nat.succ_add]
    exact ih h

lemma viewFrom_of_level (h : level depth inner = some depth') (m : List Mark) :
    viewFrom (depth + 1) (inner ++ m) = replicate inner.length .hidden ++ viewFrom (depth' + 1) m := by
  fun_induction level depth inner with
  | case1 => cases h; rfl
  | case2 depth inner ih | case3 depth inner ih | case5 depth inner ih => simp [viewFrom, ih h, replicate_succ]
  | case4 => cases h

lemma viewFrom_group (h : level 0 inner = some 0) (rest : List Mark) : viewFrom 0 (.opening :: (inner ++ .closing ::
    rest)) = .shown :: (replicate inner.length .hidden ++ .shown :: viewFrom 0 rest) := by
  have hcloses : 0 < closes (inner ++ .closing :: rest) := lt_closes_of_level h (Nat.succ_pos _)
  rw [viewFrom, if_neg hcloses.ne', viewFrom_of_level h, viewFrom]

/-- One mark further on, the others are seen from another depth, which only delimiters change. -/
lemma viewFrom_cons (k : Mark) (depth : Nat) (n : Nat) : ∃ v depth', (∀ m, closes m = n → viewFrom depth (k :: m) = v
    :: viewFrom depth' m) ∧ (k = .other → depth' = depth ∧ v = if depth = 0 then .shown else .hidden) := by
  cases k with
  | other =>
    cases depth with
    | zero => exact ⟨.shown, 0, fun _ _ => rfl, fun _ => ⟨rfl, rfl⟩⟩
    | succ depth => exact ⟨.hidden, depth + 1, fun _ _ => rfl, fun _ => ⟨rfl, rfl⟩⟩
  | opening =>
    cases depth with
    | zero =>
      by_cases hzero : n = 0
      · exact ⟨.blanked, 0, fun m hm => by rw [viewFrom, hm, if_pos hzero], nofun⟩
      · exact ⟨.shown, 1, fun m hm => by rw [viewFrom, hm, if_neg hzero], nofun⟩
    | succ depth => exact ⟨.hidden, depth + 2, fun _ _ => rfl, nofun⟩
  | closing =>
    rcases depth with _ | _ | depth
    · exact ⟨.blanked, 0, fun _ _ => rfl, nofun⟩
    · exact ⟨.shown, 0, fun _ _ => rfl, nofun⟩
    · exact ⟨.hidden, depth + 1, fun _ _ => rfl, nofun⟩

@[elab_as_elim] lemma marks_induction {P : List Mark → Prop} (nil : P []) (other : ∀ m, P m → P (.other :: m))
    (closing : ∀ m, P m → P (.closing :: m)) (unclosed : ∀ m, closes m = 0 → P m → P (.opening :: m)) (group : ∀ inner
    rest, level 0 inner = some 0 → P rest → P (.opening :: (inner ++ .closing :: rest))) (m : List Mark) : P m := by
  induction hn : m.length using Nat.strong_induction_on generalizing m with
  | _ n ih =>
    subst hn
    match m with
    | [] => exact nil
    | .other :: m => exact other m (ih _ (by simp) m rfl)
    | .closing :: m => exact closing m (ih _ (by simp) m rfl)
    | .opening :: m =>
      by_cases hm : closes m = 0
      · exact unclosed m hm (ih _ (by simp) m rfl)
      · obtain ⟨inner, rest, rfl, hlevel⟩ := exists_closing (Nat.pos_of_ne_zero hm)
        exact group inner rest hlevel (ih _ (by simp; omega) rest rfl)

end Marks

/-! ## The rounds -/

/-- What is assumed of the two delimiters of a kind of group. -/
structure Delimiters (left right : Char) : Prop where
  ne : left ≠ right
  left_ne : left ≠ '\\'
  right_ne : right ≠ '\\'
  left_visible : isBlank left = false
  right_visible : isBlank right = false

/-- The groups between given marks, found as `groupsFrom` finds them. -/
def groupsOf (offset depth start : Nat) : List Mark → Groups
  | [] => ⟨[], if depth > 0 then some start else none⟩
  | .other :: m => groupsOf (offset + 1) depth start m
  | .opening :: m => groupsOf (offset + 1) (depth + 1) (if depth = 0 then offset else start) m
  | .closing :: m =>
    match depth with
    | 0 => ⟨[], some offset⟩
    | 1 => ⟨(start, offset) :: (groupsOf (offset + 1) 0 start m).spans, (groupsOf (offset + 1) 0 start m).unbalanced⟩
    | depth + 2 => groupsOf (offset + 1) (depth + 1) start m

lemma groupsFrom_eq (left right : Char) (offset depth start : Nat) (escaped : Bool) (t : Text) :
    groupsFrom left right offset depth start escaped t = groupsOf offset depth start (marks left right escaped t) := by
  fun_induction groupsFrom left right offset depth start escaped t with
  | case1 => rfl
  | case6 offset start escaped c rest hescaped hback hleft hright g ih =>
    have hg : g = groupsOf (offset + 1) 0 start (marks left right false rest) := ih
    simp_all [marks, markOf, groupsOf]
  | case2 | case3 | case4 | case5 | case7 | case8 => simp_all [marks, markOf, groupsOf]

variable {inner m : List Mark} {left right c : Char} {t : Text}

lemma groupsOf_of_level {depth depth' : Nat} (h : level depth inner = some depth') (offset start : Nat) (m : List
    Mark) : groupsOf offset (depth + 1) start (inner ++ m) = groupsOf (offset + inner.length) (depth' + 1) start m := by
  fun_induction level depth inner generalizing offset with
  | case1 => cases h; rfl
  | case2 depth inner ih | case3 depth inner ih | case5 depth inner ih =>
    rw [length_cons, ← Nat.add_assoc, Nat.add_right_comm]
    exact ih h (offset + 1)
  | case4 => cases h

lemma groupsOf_unclosed (h : closes m = 0) (offset start : Nat) :
    groupsOf offset 0 start (.opening :: m) = ⟨[], some offset⟩ := by
  obtain ⟨depth, hlevel⟩ := exists_level (Nat.le_of_eq h)
  have hm := groupsOf_of_level hlevel (offset + 1) offset []
  rwa [append_nil] at hm

lemma groupsOf_group (h : level 0 inner = some 0) (offset start : Nat) (rest : List Mark) :
    groupsOf offset 0 start (.opening :: (inner ++ .closing :: rest)) =
      ⟨(offset, offset + 1 + inner.length) :: (groupsOf (offset + 1 + inner.length + 1) 0 offset rest).spans,
        (groupsOf (offset + 1 + inner.length + 1) 0 offset rest).unbalanced⟩ :=
  groupsOf_of_level h (offset + 1) offset (.closing :: rest)

/-- A round blanks a delimiter that comes out blanked, and nothing else comes out in another way then. -/
lemma unbalanced_blanked {offset start i : Nat} (h : (groupsOf offset 0 start m).unbalanced = some i) : ∃ j, i =
    offset + j ∧ (∃ k, m[j]? = some k ∧ k ≠ .other) ∧ (viewFrom 0 m)[j]? = some .blanked ∧ viewFrom 0 (m.set j .other) =
    (viewFrom 0 m).set j .shown := by
  induction m using marks_induction generalizing offset start with
  | nil => simp [groupsOf] at h
  | other m ih =>
    obtain ⟨j, rfl, hmark, hview, hset⟩ := ih h
    exact ⟨j + 1, by omega, hmark, hview, by simp [viewFrom, hset]⟩
  | closing m =>
    obtain rfl : offset = i := Option.some.inj h
    exact ⟨0, rfl, ⟨_, rfl, by decide⟩, rfl, rfl⟩
  | unclosed m hm =>
    rw [groupsOf_unclosed hm] at h
    obtain rfl : offset = i := Option.some.inj h
    refine ⟨0, rfl, ⟨_, rfl, by decide⟩, ?_, ?_⟩
    · simp [viewFrom, hm]
    · simp [viewFrom, hm]
  | group inner rest hlevel ih =>
    rw [groupsOf_group hlevel] at h
    obtain ⟨j, rfl, hmark, hview, hset⟩ := ih h
    refine ⟨inner.length + (j + 1) + 1, by omega, ?_, ?_, ?_⟩
    · rwa [getElem?_cons_succ, getElem?_append_right (by omega), Nat.add_sub_cancel_left]
    · rw [viewFrom_group hlevel, getElem?_cons_succ, getElem?_append_right (by simp), length_replicate,
        Nat.add_sub_cancel_left, getElem?_cons_succ]
      exact hview
    · rw [set_cons_succ, set_append_right _ _ (by omega), Nat.add_sub_cancel_left, set_cons_succ, viewFrom_group hlevel,
        viewFrom_group hlevel, hset, set_cons_succ, set_append_right _ _ (by simp), length_replicate,
        Nat.add_sub_cancel_left, set_cons_succ]

lemma length_marks (left right : Char) (escaped : Bool) (t : Text) :
    (marks left right escaped t).length = t.length := by
  fun_induction marks left right escaped t <;> simp_all

/-- The delimiter that has a mark. -/
def Mark.delimiter (left right : Char) : Mark → Char
  | .opening => left
  | _ => right

lemma eq_of_markOf (h : markOf left right c ≠ .other) : c ≠ '\\' ∧ c = (markOf left right c).delimiter left right := by
  unfold markOf at h ⊢
  split_ifs at h ⊢ <;> simp_all [Mark.delimiter]

/-- A space is no delimiter. It could not be blanked otherwise. -/
lemma markOf_space (hleft : left ≠ ' ') (hright : right ≠ ' ') : markOf left right ' ' = .other := by
  rw [markOf, if_neg (by decide), if_neg hleft.symm, if_neg hright.symm]

lemma Delimiters.markOf_space (hd : Delimiters left right) : markOf left right ' ' = .other := by
  refine Mask.markOf_space ?_ ?_
  · rintro rfl
    exact absurd hd.left_visible (by decide)
  · rintro rfl
    exact absurd hd.right_visible (by decide)

lemma marks_set (hspace : markOf left right ' ' = .other) {escaped : Bool} {j : Nat}
    {k : Mark} (h : (marks left right escaped t)[j]? = some k) (hk : k ≠ .other) :
    marks left right escaped (t.set j ' ') = (marks left right escaped t).set j .other := by
  induction t generalizing escaped j with
  | nil => simp [marks] at h
  | cons c rest ih =>
    cases j with
    | zero =>
      -- the character is a delimiter, so no backslash takes it along and it is no backslash itself
      simp only [marks, getElem?_cons_zero, Option.some.injEq] at h
      obtain ⟨hescaped, hmark⟩ : escaped = false ∧ markOf left right c = k := by
        cases escaped <;> simp_all
      have hback := (eq_of_markOf (hmark ▸ hk)).1
      simp [marks, hescaped, hspace, hback]
    | succ j =>
      rw [set_cons_succ, marks, marks, ih h, set_cons_succ]

/-- How a character comes out if the delimiters of a group are masked like its inside unless `keep` is set. -/
def View.under (keep : Bool) : View → Mark → View
  | .shown, .opening | .shown, .closing => if keep then .shown else .hidden
  | v, _ => v

/-- How the characters with the given marks come out. -/
def views (keep : Bool) (m : List Mark) : List View := List.zipWith (View.under keep) (viewFrom 0 m) m

lemma View.under_true (v : View) (k : Mark) : v.under true k = v := by
  cases v <;> cases k <;> rfl

lemma length_views (keep : Bool) (m : List Mark) : (views keep m).length = m.length := by
  rw [views, length_zipWith, length_viewFrom, Nat.min_self]

lemma views_true (m : List Mark) : views true m = viewFrom 0 m := by
  refine ext_getElem (by rw [length_views, length_viewFrom]) fun i _ _ => ?_
  simp [views, View.under_true]

lemma views_set {j : Nat} (h : viewFrom 0 (m.set j .other) = (viewFrom 0 m).set j .shown)
    (keep : Bool) : views keep (m.set j .other) = (views keep m).set j .shown := by
  rw [views, h, views]
  refine ext_getElem? fun n => ?_
  simp only [getElem?_zipWith, getElem?_set, length_zipWith, length_viewFrom, Nat.min_self]
  by_cases hn : j = n
  · by_cases hlt : j < m.length
    · simp [hn, hn ▸ hlt, View.under]
    · simp [hn, hn ▸ hlt]
  · simp [hn]

/-- How a text comes out in the end. -/
def renderWith (keep : Bool) (left right : Char) (t : Text) : Text :=
  List.zipWith View.apply (views keep (marks left right false t)) t

/-- How a text comes out in the end if the delimiters of groups stay visible. -/
def render (left right : Char) (t : Text) : Text :=
  List.zipWith View.apply (viewFrom 0 (marks left right false t)) t

section Rounds

variable {left right : Char} (hspace : markOf left right ' ' = .other)
include hspace

lemma render_set {t : Text} {i : Nat} (h : (groups left right t).unbalanced = some i) : (∀ keep, renderWith keep left
    right (t.set i ' ') = renderWith keep left right t) ∧ (marks left right false (t.set i ' ')).countP (· != .other) <
    (marks left right false t).countP (· != .other) := by
  rw [groups, groupsFrom_eq] at h
  obtain ⟨j, hj, ⟨k, hmark, hk⟩, hview, hset⟩ := unbalanced_blanked h
  obtain rfl : i = j := by omega
  obtain ⟨hlt, hmark'⟩ := List.getElem?_eq_some_iff.mp hmark
  rw [marks_set hspace hmark hk]
  constructor
  · intro keep
    have hviews : (views keep (marks left right false t))[i]? = some .blanked := by
      rw [views, getElem?_zipWith, hview, hmark]
      rfl
    rw [renderWith, marks_set hspace hmark hk, views_set hset, renderWith]
    refine ext_getElem? fun n => ?_
    rw [getElem?_zipWith, getElem?_zipWith, getElem?_set, getElem?_set]
    rw [length_marks] at hlt
    by_cases hn : i = n
    · subst hn
      rw [hviews, if_pos rfl, if_pos (by rwa [length_views, length_marks]), if_pos rfl, if_pos hlt,
        getElem?_eq_getElem hlt]
      rfl
    · rw [if_neg hn, if_neg hn]
  · have hcount := countP_set (p := (· != .other)) (l := marks left right false t) (a := .other) hlt
    have hpos : 0 < (marks left right false t).countP (· != .other) :=
      countP_pos_iff.mpr ⟨k, mem_of_getElem? hmark, by simpa using hk⟩
    have hshown : (k != Mark.other) := by simpa using hk
    rw [hcount, hmark', if_pos hshown, if_neg (by decide)]
    omega

lemma balance_spec {fuel : Nat} {t : Text} (h : (marks left right false t).countP (· != .other) < fuel) : (groups left
    right (balance left right fuel t)).unbalanced = none ∧ ∀ keep, renderWith keep left right (balance left right fuel
    t) = renderWith keep left right t := by
  fun_induction balance left right fuel t with
  | case1 => omega
  | case2 fuel t hnone => exact ⟨hnone, fun _ => rfl⟩
  | case3 fuel t i hsome ih =>
    obtain ⟨hrender, hcount⟩ := render_set hspace hsome
    obtain ⟨hnone, hrender'⟩ := ih (by omega)
    exact ⟨hnone, fun keep => (hrender' keep).trans (hrender keep)⟩

end Rounds

lemma countP_marks_le (left right : Char) (t : Text) : (marks left right false t).countP (· != .other) ≤ t.length := by
  have := countP_le_length (p := (· != .other)) (l := marks left right false t)
  rwa [length_marks] at this

lemma zipWith_hidden (t : Text) : zipWith View.apply (replicate t.length .hidden) t = all t := by
  induction t with
  | nil => rfl
  | cons c t ih => rw [length_cons, replicate_succ, zipWith_cons_cons, ih]; rfl

lemma zipWith_replicate_hidden {α : Type} {f : View → Mark → α} {a : α} (h : ∀ k, f .hidden k = a) (m : List Mark) :
    zipWith f (replicate m.length .hidden) m = replicate m.length a := by
  induction m with
  | nil => rfl
  | cons k m ih => rw [length_cons, replicate_succ, zipWith_cons_cons, ih, h, replicate_succ]

lemma views_unclosed (h : closes m = 0) (keep : Bool) : views keep (.opening :: m) = .blanked :: views keep m := by
  rw [views, viewFrom, if_pos h]
  rfl

lemma views_group (h : level 0 inner = some 0) (keep : Bool) (rest : List Mark) : views keep (.opening :: (inner ++
    .closing :: rest)) = View.under keep .shown .opening :: (replicate inner.length .hidden ++ View.under keep
    .shown .closing :: views keep rest) := by
  rw [views, viewFrom_group h, zipWith_cons_cons, zipWith_append (by simp), zipWith_cons_cons,
    zipWith_replicate_hidden fun _ => rfl]
  rfl

lemma maskSpans_groupsOf (keep : Bool) {offset start : Nat} (h : (groupsOf offset 0 start m).unbalanced = none) (pre :
    Text) (hlength : t.length = m.length) (first : Nat) (hfirst : first + pre.length = offset) : maskSpans keep first
    (groupsOf offset 0 start m).spans (pre ++ t) = pre ++ zipWith View.apply (views keep m) t := by
  induction m using marks_induction generalizing offset start t pre first with
  | nil =>
    obtain rfl := length_eq_zero_iff.mp hlength
    rfl
  | other m ih =>
    obtain ⟨c, t, rfl⟩ := exists_cons_of_length_eq_add_one hlength
    have := ih h (pre ++ [c]) (t := t) (by simpa using hlength) first (by simp; omega)
    simpa [views, viewFrom, View.under, View.apply, groupsOf] using this
  | closing m => simp [groupsOf] at h
  | unclosed m hm =>
    rw [groupsOf_unclosed hm] at h
    cases h
  | group inner rest hlevel ih =>
    rw [groupsOf_group hlevel] at h ⊢
    obtain ⟨c, t, rfl⟩ := exists_cons_of_length_eq_add_one hlength
    obtain ⟨g, t, rfl, hg⟩ : ∃ g t', t = g ++ t' ∧ g.length = inner.length := by
      refine ⟨t.take inner.length, t.drop inner.length, (take_append_drop ..).symm, ?_⟩
      simp at hlength ⊢
      omega
    obtain ⟨c', t, rfl⟩ : ∃ c' t', t = c' :: t' := by
      refine exists_cons_of_length_pos ?_
      simp at hlength
      omega
    rw [views_group hlevel, ← hg, zipWith_cons_cons, zipWith_append (by simp), zipWith_hidden]
    rw [← hg] at h
    cases keep with
    | true =>
      have hrest := ih h [c'] (t := t) (by simp at hlength; omega) (offset + 1 + g.length) (by simp)
      have htake : offset + 1 - first = (pre ++ [c]).length := by simp; omega
      have hbetween : offset + 1 + g.length - first = (pre ++ [c]).length + g.length := by simp; omega
      have hsplit : pre ++ c :: (g ++ c' :: t) = (pre ++ [c]) ++ (g ++ c' :: t) := by simp
      simp only [maskSpans, if_true, htake, hbetween, hsplit]
      rw [between, Nat.add_sub_cancel_left, drop_left, take_left, ← drop_drop, drop_left, drop_left]
      simpa [View.under, View.apply] using hrest
    | false =>
      have hrest := ih h [] (t := t) (by simp at hlength; omega) (offset + 1 + g.length + 1) (by simp)
      have htake : offset - first = pre.length := by omega
      have hbetween : offset + 1 + g.length + 1 - first = pre.length + (c :: (g ++ [c'])).length := by
        simp
        omega
      have hsplit : pre ++ c :: (g ++ c' :: t) = pre ++ (c :: (g ++ [c']) ++ t) := by simp
      simp only [maskSpans, Bool.false_eq_true, if_false, htake, hbetween, hsplit]
      rw [take_left, between, Nat.add_sub_cancel_left, drop_left, take_left, ← drop_drop, drop_left]
      simpa [View.under, View.apply, all] using hrest

/-- Masking the groups of a text shows and hides what `renderWith` does. -/
lemma balanced_eq_renderWith (hspace : markOf left right ' ' = .other) (t : Text) (keep : Bool) :
    balanced left right t keep = renderWith keep left right t := by
  obtain ⟨hnone, hrender⟩ := balance_spec hspace (Nat.lt_succ_of_le (countP_marks_le left right t))
  rw [← hrender, balanced]
  rw [groups, groupsFrom_eq] at hnone ⊢
  exact maskSpans_groupsOf keep hnone [] (length_marks ..).symm 0 rfl

lemma balanced_eq (hd : Delimiters left right) (t : Text) : balanced left right t true = render left right t := by
  rw [balanced_eq_renderWith hd.markOf_space, renderWith, views_true, render]

/-! ## Two texts -/

section Marks

variable {m m' : List Mark} {depth : Nat}

lemma viewFrom_append (hdepth : depth ≤ closes m) (h : opens m = 0 ∨ closes m' = 0) :
    viewFrom depth (m ++ m') = viewFrom depth m ++ viewFrom 0 m' := by
  fun_induction viewFrom depth m with
  | case1 depth =>
    obtain rfl : depth = 0 := by simpa [closes] using hdepth
    rfl
  | case2 m ih => simp [viewFrom, ih hdepth h]
  | case3 m hm ih =>
    -- no group is left open that the second text could close
    have hm' : closes m' = 0 := by simpa [opens, hm] using h
    have hboth : closes (m ++ m') = 0 := by rw [closes_append]; omega
    simp [viewFrom, hboth, ih (Nat.zero_le _) (.inr hm')]
  | case4 m hm ih =>
    have hboth : closes (m ++ m') ≠ 0 := by rw [closes_append]; omega
    simp only [opens, if_neg hm] at h
    simp [viewFrom, hboth, ih (by omega) h]
  | case5 m ih => simp [viewFrom, ih (Nat.zero_le _) h]
  | case6 depth m ih => simp [viewFrom, ih hdepth h]
  | case7 depth m ih =>
    simp only [closes] at hdepth
    simp only [opens, if_neg (show closes m ≠ 0 by omega)] at h
    simp [viewFrom, ih (by omega) h]
  | case8 m ih => simp [viewFrom, ih (Nat.zero_le _) h]
  | case9 depth m ih =>
    simp only [closes] at hdepth
    simp [viewFrom, ih (by omega) h]

/-- If the second text closes a group of the first one, they meet inside of a group that is visible on both sides. -/
lemma viewFrom_straddling (hdepth : depth ≤ closes (m ++ m')) (h : closes m < depth ∨ (0 < opens m ∧ 0 < closes m')) :
    ∃ v depth', viewFrom depth (m ++ m') = v ++ viewFrom (depth' + 1) m' ∧ v.length = m.length ∧ depth' < closes m' ∧
    (depth = 0 → ∃ j : Nat, m[j]? = some .opening ∧ v[j]? = some .shown) := by
  induction m generalizing depth with
  | nil =>
    obtain ⟨depth', rfl⟩ : ∃ depth', depth = depth' + 1 := by
      cases depth with
      | zero => simp [closes, opens] at h
      | succ depth' => exact ⟨depth', rfl⟩
    exact ⟨[], depth', rfl, rfl, hdepth, by omega⟩
  | cons k m ih =>
    have hlift : ∀ {next : Nat} {x : View}, viewFrom depth (k :: m ++ m') = x :: viewFrom next (m ++ m') →
        next ≤ closes (m ++ m') → (closes m < next ∨ (0 < opens m ∧ 0 < closes m')) →
        (depth = 0 → next = 0 ∨ (k = .opening ∧ x = .shown)) →
        ∃ v depth', viewFrom depth (k :: m ++ m') = v ++ viewFrom (depth' + 1) m' ∧ v.length = (k :: m).length ∧
          depth' < closes m' ∧ (depth = 0 → ∃ j : Nat, (k :: m)[j]? = some .opening ∧ v[j]? = some .shown) := by
      intro next x hstep hnext hopen hfirst
      obtain ⟨v, depth', hview, hlength, hlt, hopening⟩ := ih hnext hopen
      refine ⟨x :: v, depth', by rw [hstep, hview, cons_append], by simp [hlength], hlt, fun hzero => ?_⟩
      rcases hfirst hzero with hzero' | ⟨rfl, rfl⟩
      · obtain ⟨j, hj⟩ := hopening hzero'
        exact ⟨j + 1, hj⟩
      · exact ⟨0, rfl, rfl⟩
    have happend := closes_append m m'
    match depth, k with
    | 0, .other => exact hlift rfl hdepth h fun _ => .inl rfl
    | depth + 1, .other => exact hlift rfl hdepth h fun h => absurd h (Nat.succ_ne_zero _)
    | 0, .closing => exact hlift rfl (Nat.zero_le _) (.inr (by simpa [opens] using h)) fun _ => .inl rfl
    | 1, .closing =>
      refine hlift rfl (Nat.zero_le _) (.inr ?_) fun _ => .inl rfl
      simpa [opens, closes] using h
    | depth + 2, .closing =>
      simp only [cons_append, closes] at hdepth h
      refine hlift rfl (by omega) (h.imp (by omega) id) fun h => absurd h (Nat.succ_ne_zero _)
    | depth + 1, .opening =>
      simp only [cons_append, closes, opens] at hdepth h
      refine hlift rfl (by omega) ?_ fun h => absurd h (Nat.succ_ne_zero _)
      split at h <;> omega
    | 0, .opening =>
      simp only [opens] at h
      by_cases hboth : closes (m ++ m') = 0
      · have hstep : viewFrom 0 (.opening :: m ++ m') = .blanked :: viewFrom 0 (m ++ m') := by
          simp [viewFrom, hboth]
        refine hlift hstep (Nat.zero_le _) (.inr ?_) fun _ => .inl rfl
        split at h <;> omega
      · have hstep : viewFrom 0 (.opening :: m ++ m') = .shown :: viewFrom 1 (m ++ m') := by
          simp [viewFrom, hboth]
        refine hlift hstep (by omega) ?_ fun _ => .inr ⟨rfl, rfl⟩
        split at h <;> omega

/-- Only what stands between visible delimiters is hidden. -/
lemma exists_opening_of_hidden (h : View.hidden ∈ viewFrom 0 m) :
    ∃ j : Nat, m[j]? = some .opening ∧ (viewFrom 0 m)[j]? = some .shown := by
  induction m using marks_induction with
  | nil => cases h
  | other m ih | closing m ih =>
    obtain ⟨j, hj⟩ := ih (by simpa [viewFrom] using h)
    exact ⟨j + 1, hj⟩
  | unclosed m hm ih =>
    simp only [viewFrom, if_pos hm] at h ⊢
    obtain ⟨j, hj⟩ := ih (by simpa using h)
    exact ⟨j + 1, hj⟩
  | group inner rest hlevel => exact ⟨0, rfl, by rw [viewFrom_group hlevel]; rfl⟩

lemma delimiter_of_blanked {j : Nat} (h : (viewFrom depth m)[j]? = some .blanked) :
    ∃ k, m[j]? = some k ∧ k ≠ .other := by
  induction m generalizing depth j with
  | nil => simp [viewFrom] at h
  | cons k m ih =>
    obtain ⟨v, depth', hview, hother⟩ := viewFrom_cons k depth (closes m)
    rw [hview m rfl] at h
    cases j with
    | succ j => exact ih h
    | zero =>
      refine ⟨k, rfl, fun hk => ?_⟩
      rw [(hother hk).2] at h
      split at h <;> cases h

lemma exists_closing_shown (h : depth < closes m) :
    ∃ j : Nat, m[j]? = some .closing ∧ (viewFrom (depth + 1) m)[j]? = some .shown := by
  obtain ⟨inner, rest, rfl, hlevel⟩ := exists_closing h
  refine ⟨inner.length, by simp, ?_⟩
  rw [viewFrom_of_level hlevel]
  simp [viewFrom]

end Marks

section Texts

variable {left right : Char}

/-- Whether a backslash at the end of a text takes the next character along. -/
def escapes (escaped : Bool) : Text → Bool
  | [] => escaped
  | c :: rest => escapes (!escaped && decide (c = '\\')) rest

lemma marks_append (escaped : Bool) (x y : Text) :
    marks left right escaped (x ++ y) = marks left right escaped x ++ marks left right (escapes escaped x) y := by
  induction x generalizing escaped with
  | nil => rfl
  | cons c x ih => rw [cons_append, marks, marks, ih, escapes, cons_append]

lemma escapes_append (escaped : Bool) (x y : Text) : escapes escaped (x ++ y) = escapes (escapes escaped x) y := by
  induction x generalizing escaped with
  | nil => rfl
  | cons c x ih => rw [cons_append, escapes, ih, escapes]

variable {x y : Text} {c : Char} {j : Nat}

lemma escapes_of_getLast? (h : x.getLast? ≠ some '\\') : escapes false x = false := by
  rcases eq_nil_or_concat' x with rfl | ⟨x, c, rfl⟩
  · rfl
  · rw [getLast?_concat] at h
    rw [escapes_append]
    cases escapes false x <;> simp_all [escapes]

lemma escapes_of_notMem (h : '\\' ∉ x) : escapes false x = false :=
  escapes_of_getLast? fun hlast => h (mem_of_getLast? hlast)

lemma marks_append_of_notMem (h : '\\' ∉ x) (y : Text) :
    marks left right false (x ++ y) = marks left right false x ++ marks left right false y := by
  rw [marks_append, escapes_of_notMem h]

/-- Whether the groups between two delimiters give no meaning to a character. -/
def IsOrdinary (left right c : Char) : Prop := c ≠ left ∧ c ≠ right ∧ c ≠ '\\'

instance (left right c : Char) : Decidable (IsOrdinary left right c) := inferInstanceAs (Decidable (_ ∧ _))

lemma markOf_of_isOrdinary (h : IsOrdinary left right c) : markOf left right c = .other := by
  rw [markOf, if_neg h.2.2, if_neg h.1, if_neg h.2.1]

lemma marks_of_isOrdinary (h : ∀ c, y.head? = some c → IsOrdinary left right c) (escaped : Bool) :
    marks left right escaped y = marks left right false y := by
  cases y with
  | nil => rfl
  | cons c y =>
    have hc := h c rfl
    rw [marks, marks, markOf_of_isOrdinary hc]
    simp [hc.2.2]

lemma Delimiters.marks_left (hd : Delimiters left right) (y : Text) :
    marks left right false (left :: y) = .opening :: marks left right false y := by
  simp [marks, markOf, hd.left_ne]

lemma Delimiters.marks_right (hd : Delimiters left right) (y : Text) :
    marks left right false (right :: y) = .closing :: marks left right false y := by
  simp [marks, markOf, hd.right_ne, hd.ne.symm]

lemma marks_ordinary (h : IsOrdinary left right c) (y : Text) :
    marks left right false (c :: y) = .other :: marks left right false y := by
  simp [marks, markOf_of_isOrdinary h, h.2.2]

lemma render_append (h : ∀ c ∈ x, IsOrdinary left right c) (y : Text) :
    render left right (x ++ y) = x ++ render left right y := by
  induction x with
  | nil => rfl
  | cons c x ih =>
    have htail := ih fun d hd => h d (mem_cons_of_mem c hd)
    rw [render] at htail ⊢
    rw [cons_append, marks_ordinary (h c mem_cons_self), viewFrom, zipWith_cons_cons, htail]
    rfl

lemma render_group (hd : Delimiters left right) {inner : Text} (hescapes : escapes false inner = false)
    (hlevel : level 0 (marks left right false inner) = some 0) (y : Text) :
    render left right (left :: (inner ++ right :: y)) = left :: (all inner ++ right :: render left right y) := by
  rw [render, hd.marks_left, marks_append, hescapes, hd.marks_right, viewFrom_group hlevel, zipWith_cons_cons,
    zipWith_append (by rw [length_replicate, length_marks]), length_marks, zipWith_hidden]
  rfl

/-- The groups of two texts are those of the one and those of the other. -/
structure GroupCut (left right : Char) (x y : Text) : Prop where
  marks_append : marks left right false (x ++ y) = marks left right false x ++ marks left right false y
  apart : opens (marks left right false x) = 0 ∨ closes (marks left right false y) = 0

lemma GroupCut.shift (h : GroupCut left right x (c :: y)) (hc : IsOrdinary left right c) :
    GroupCut left right (x ++ [c]) y := by
  have hsingle : marks left right (escapes false x) [c] = [.other] := by
    simp [marks, markOf_of_isOrdinary hc]
  refine ⟨?_, ?_⟩
  · have hescapes : escapes false (x ++ [c]) = false := by
      rw [escapes_append]
      simp [escapes, hc.2.2]
    rw [Mask.marks_append, hescapes]
  · have hapart := h.apart
    rw [marks_ordinary hc] at hapart
    rw [Mask.marks_append, hsingle, opens_append]
    simpa [opens, closes] using hapart

lemma GroupCut.balanced_append (hd : Delimiters left right) (h : GroupCut left right x y) :
    balanced left right (x ++ y) true = balanced left right x true ++ balanced left right y true := by
  rw [balanced_eq hd, balanced_eq hd, balanced_eq hd, render, h.marks_append,
    viewFrom_append (Nat.zero_le _) h.apart, zipWith_append (by rw [length_viewFrom, length_marks])]
  rfl

lemma getElem?_of_marks {escaped : Bool} {t : Text} {k : Mark} (h : (marks left right escaped t)[j]? = some k)
    (hk : k ≠ .other) : t[j]? = some (k.delimiter left right) := by
  induction t generalizing escaped j with
  | nil => simp [marks] at h
  | cons c t ih =>
    cases j with
    | succ j => exact ih h
    | zero =>
      simp only [marks, getElem?_cons_zero, Option.some.injEq] at h
      obtain rfl : markOf left right c = k := by cases escaped <;> simp_all
      rw [getElem?_cons_zero, ← (eq_of_markOf hk).2]

variable (hd : Delimiters left right) {t : Text}
include hd

lemma getElem?_balanced {v : View} (hv : (viewFrom 0 (marks left right false t))[j]? = some v)
    (hc : t[j]? = some c) : (balanced left right t true)[j]? = some (v.apply c) := by
  rw [balanced_eq hd, render, getElem?_zipWith, hv, hc]

lemma getElem?_balanced_of_mark {k : Mark} (hk : (marks left right false t)[j]? = some k) (hne : k ≠ .other)
    (hv : (viewFrom 0 (marks left right false t))[j]? = some .shown) :
    (balanced left right t true)[j]? = some (k.delimiter left right) :=
  getElem?_balanced hd hv (getElem?_of_marks hk hne)

/-- The characters of a text of which no group stays visible. -/
lemma mem_or_delimiter_of_mem (h : left ∉ balanced left right t true) (hc : c ∈ t) :
    c ∈ balanced left right t true ∨ c = left ∨ c = right := by
  obtain ⟨j, hj⟩ := getElem?_of_mem hc
  have hlt : j < (viewFrom 0 (marks left right false t)).length := by
    rw [length_viewFrom, length_marks]
    exact (List.getElem?_eq_some_iff.mp hj).1
  obtain ⟨v, hv⟩ : ∃ v, (viewFrom 0 (marks left right false t))[j]? = some v := ⟨_, getElem?_eq_getElem hlt⟩
  cases v with
  | shown => exact .inl (mem_of_getElem? (getElem?_balanced hd hv hj))
  | hidden =>
    obtain ⟨i, hi, hi'⟩ := exists_opening_of_hidden (mem_of_getElem? hv)
    exact absurd (mem_of_getElem? (getElem?_balanced_of_mark hd hi (by decide) hi')) h
  | blanked =>
    obtain ⟨k, hk, hne⟩ := delimiter_of_blanked hv
    obtain rfl := Option.some.inj (hj.symm.trans (getElem?_of_marks hk hne))
    cases k <;> simp [Mark.delimiter]

/-- A group that is open in the first text and closed in the second one covers the place between them. -/
lemma straddling {escaped : Bool} (hescaped : escapes false x = escaped) (h : ¬ (opens (marks left right false x) = 0
    ∨ closes (marks left right escaped y) = 0)) : left ∈ (balanced left right (x ++ y) true).take x.length ∧ right ∈
    (balanced left right (x ++ y) true).drop x.length ∧ ∀ c, y.head? = some c → markOf left right c = .other → (balanced
    left right (x ++ y) true)[x.length]? = some (maskChar c) := by
  subst hescaped
  have hmarks : marks left right false (x ++ y) =
      marks left right false x ++ marks left right (escapes false x) y := marks_append ..
  have hopen : closes (marks left right false x) < 0 ∨ (0 < opens (marks left right false x) ∧
      0 < closes (marks left right (escapes false x) y)) := by omega
  obtain ⟨v, depth, hview, hlength, hdepth, hopening⟩ := viewFrom_straddling (Nat.zero_le _) hopen
  rw [← hmarks] at hview
  rw [length_marks] at hlength
  refine ⟨?_, ?_, fun c hc hmark => ?_⟩
  · obtain ⟨j, hj, hj'⟩ := hopening rfl
    have hlt : j < x.length := hlength ▸ (List.getElem?_eq_some_iff.mp hj').1
    refine mem_of_getElem? (i := j) ?_
    rw [getElem?_take_of_lt hlt]
    refine getElem?_balanced_of_mark hd (k := .opening) ?_ (by decide) ?_
    · rw [hmarks, getElem?_append_left (by rwa [length_marks]), hj]
    · rw [hview, getElem?_append_left (hlength ▸ hlt), hj']
  · obtain ⟨j, hj, hj'⟩ := exists_closing_shown hdepth
    refine mem_of_getElem? (i := j) ?_
    rw [getElem?_drop]
    refine getElem?_balanced_of_mark hd (k := .closing) ?_ (by decide) ?_
    · rw [hmarks, getElem?_append_right (by rw [length_marks]; omega), length_marks, Nat.add_sub_cancel_left, hj]
    · rw [hview, getElem?_append_right (by omega), hlength, Nat.add_sub_cancel_left, hj']
  · obtain ⟨y, rfl⟩ := head?_eq_some_iff.mp hc
    have hv : (viewFrom 0 (marks left right false (x ++ c :: y)))[x.length]? = some .hidden := by
      rw [hview, getElem?_append_right (by omega), hlength]
      cases escapes false x <;> simp [marks, hmark, viewFrom]
    rw [getElem?_balanced hd hv (c := c) (by simp)]
    rfl

lemma groupCut_of_getElem? (hc : IsOrdinary left right c) (hvisible : isBlank c = false)
    (h : (balanced left right (x ++ c :: y) true)[x.length]? = some c) : GroupCut left right x (c :: y) := by
  have hhead : ∀ d, (c :: y).head? = some d → IsOrdinary left right d := by
    rintro d ⟨⟩
    exact hc
  have hmarks : marks left right false (x ++ c :: y) = marks left right false x ++ marks left right false (c :: y) := by
    rw [marks_append, marks_of_isOrdinary hhead]
  refine ⟨hmarks, ?_⟩
  by_contra hopen
  rw [← marks_of_isOrdinary hhead (escapes false x)] at hopen
  have hhidden := (straddling hd rfl hopen).2.2 c rfl (markOf_of_isOrdinary hc)
  rw [h, Option.some.injEq] at hhidden
  rw [hhidden, isBlank_maskChar] at hvisible
  cases hvisible

lemma groupCut_of_right_notMem (h : right ∉ (balanced left right (x ++ y) true).drop x.length)
    (hhead : ∀ c, ((balanced left right (x ++ y) true).drop x.length).head? = some c → IsOrdinary left right c) :
    GroupCut left right x y := by
  have hapart := Classical.not_not.mp fun hopen => h (straddling hd (y := y) rfl hopen).2.1
  have hsame : marks left right (escapes false x) y = marks left right false y := by
    cases hescapes : escapes false x with
    | false => rfl
    | true =>
      refine marks_of_isOrdinary (fun c hc => hhead c ?_) true
      obtain ⟨y, rfl⟩ := head?_eq_some_iff.mp hc
      -- the character that the backslash takes along stands in no group and comes out as it is
      have hv : (viewFrom 0 (marks left right false (x ++ c :: y)))[x.length]? = some .shown := by
        rw [marks_append, viewFrom_append (Nat.zero_le _) hapart, hescapes,
          getElem?_append_right (by rw [length_viewFrom, length_marks]), length_viewFrom, length_marks, Nat.sub_self]
        rfl
      rw [head?_drop, getElem?_balanced hd hv (c := c) (by simp)]
      rfl
  rw [hsame] at hapart
  exact ⟨by rw [marks_append, hsame], hapart⟩

lemma groupCut_of_left_notMem (h : left ∉ (balanced left right (x ++ y) true).take x.length)
    (hback : '\\' ∉ (balanced left right (x ++ y) true).take x.length) : GroupCut left right x y := by
  have hapart := Classical.not_not.mp fun hopen => h (straddling hd (y := y) rfl hopen).1
  have hescapes : escapes false x = false := by
    refine escapes_of_getLast? fun hlast => ?_
    have hfirst : (balanced left right (x ++ y) true).take x.length = balanced left right x true := by
      have hlength : (viewFrom 0 (marks left right false x)).length = x.length := by
        rw [length_viewFrom, length_marks]
      rw [balanced_eq hd, balanced_eq hd, render, marks_append, viewFrom_append (Nat.zero_le _) hapart,
        zipWith_append hlength, take_left' (by simp [hlength])]
      rfl
    rw [hfirst] at h hback
    -- without a group all characters of the first text stay visible or are delimiters
    rcases mem_or_delimiter_of_mem hd h (mem_of_getLast? hlast) with hmem | hleft | hright
    · exact hback hmem
    · exact hd.left_ne hleft.symm
    · exact hd.right_ne hright.symm
  rw [hescapes] at hapart
  exact ⟨by rw [marks_append, hescapes], hapart⟩

omit t in
lemma Delimiters.maskedForm (t : Text) : MaskedForm t (balanced left right t true) := by
  have hbreak : ∀ c, isBlank c = false → isBreak c = false := by
    intro c hc
    by_contra h
    rw [isBlank_of_isBreak (by simpa using h)] at hc
    cases hc
  exact maskedForm_balanced (hbreak left hd.left_visible) (hbreak right hd.right_visible) t true

end Texts

lemma isOrdinary_iff : (c == left || c == right || c == '\\') = false ↔ IsOrdinary left right c := by
  simp [IsOrdinary, and_assoc]

lemma isOrdinary_of_isSeparator (hleft : isSeparator left = false)
    (hright : isSeparator right = false) (hc : isSeparator c) : IsOrdinary left right c := by
  refine ⟨?_, ?_, ?_⟩
  · rintro rfl
    simp [hc] at hleft
  · rintro rfl
    simp [hc] at hright
  · rintro rfl
    exact absurd hc (by decide)

lemma opens_closes_of_isOrdinary (h : ∀ c ∈ t, IsOrdinary left right c) :
    opens (marks left right false t) = 0 ∧ closes (marks left right false t) = 0 := by
  induction t with
  | nil => exact ⟨rfl, rfl⟩
  | cons c t ih =>
    rw [marks_ordinary (h c mem_cons_self)]
    exact ih fun d hd => h d (mem_cons_of_mem c hd)

/-- The groups between two delimiters as a layer; `gap` holds for the characters of its gaps. -/
def Layer.groups (left right : Char) (gap : Char → Bool) (hd : Delimiters left right)
    (hseparator : isSeparator left = false ∧ isSeparator right = false)
    (hgap : gap left = false ∧ gap right = false ∧ gap '\\' = false) : Layer where
  mask t := balanced left right t true
  special c := c == left || c == right || c == '\\'
  stands c := !isBlank c && !(c == left || c == right || c == '\\')
  Cut := GroupCut left right
  Apart x y := opens (marks left right false x) = 0 ∨ closes (marks left right false y) = 0
  Swallows _ := False
  Fine _ := True
  Gap g := ∀ c ∈ g, gap c
  maskedForm := hd.maskedForm
  special_visible c h := by
    simp only [Bool.or_eq_true, beq_iff_eq] at h
    rcases h with (rfl | rfl) | rfl
    · exact hd.left_visible
    · exact hd.right_visible
    · decide
  stands_visible := by simp +contextual
  mask_append h := h.balanced_append hd
  fine_of_cut _ _ := ⟨trivial, trivial⟩
  apart_of_cut _ h := h.apart
  cut_of_apart := by
    intro x y hapart hloose _
    refine ⟨?_, hapart⟩
    rcases hloose with hlast | hhead
    · rw [marks_append, escapes_of_getLast? fun h => absurd (hlast _ h) (by decide)]
    · rw [marks_append, marks_of_isOrdinary fun c hc => isOrdinary_iff.mp (hhead c hc)]
  apart_of_append_left := by
    intro x x' y h happart
    rw [h.marks_append, opens_append] at happart
    have := h.apart
    omega
  apart_of_append_right := by
    intro x y y' h happart
    rw [h.marks_append, closes_append] at happart
    have := h.apart
    omega
  apart_append_left := by
    intro x x' y h _ hx hx'
    rw [h.marks_append, opens_append]
    omega
  apart_append_right := by
    intro x y y' h _ hy hy'
    rw [h.marks_append, closes_append]
    omega
  apart_separator := by
    intro s hs x
    have hordinary := opens_closes_of_isOrdinary fun c hc =>
      isOrdinary_of_isSeparator hseparator.1 hseparator.2 (hs c hc)
    exact ⟨.inr hordinary.2, .inl hordinary.1⟩
  swallows_append _ _ h := h
  not_swallows_of_visible _ _ := id
  not_swallows_separator _ := id
  cut_at := by
    intro t a b _ hmask hseam
    have hordinary {c : Char} (hstands : !isBlank c && !(c == left || c == right || c == '\\')) :
        isBlank c = false ∧ IsOrdinary left right c := by
      rwa [Bool.and_eq_true_iff, Bool.not_eq_true', Bool.not_eq_true', isOrdinary_iff] at hstands
    have hspace {c : Char} (hstands : !isBlank c && !(c == left || c == right || c == '\\')) : c ≠ ' ' := by
      rintro rfl
      exact absurd (hordinary hstands).1 (by decide)
    have hplain {g : Text} (hgaps : ∀ c ∈ g, gap c) : ∀ c ∈ g, IsOrdinary left right c := by
      intro c hc
      refine ⟨?_, ?_, ?_⟩ <;> rintro rfl <;> simp_all
    obtain ⟨x, y, rfl, hx, hy⟩ := (hmask ▸ hd.maskedForm t).append_inv
    have hcut : GroupCut left right x y := by
      have htake : (balanced left right (x ++ y) true).take x.length = a := by rw [hmask, ← hx.length_eq, take_left]
      have hdrop : (balanced left right (x ++ y) true).drop x.length = b := by rw [hmask, ← hx.length_eq, drop_left]
      cases hseam with
      | before a b hstands =>
        obtain ⟨y, rfl, -⟩ := hy.cons_inv (hspace hstands)
        refine groupCut_of_getElem? hd (hordinary hstands).2 (hordinary hstands).1 ?_
        rw [← head?_drop, hdrop, head?_cons]
      | @after c a b hstands =>
        obtain ⟨x, rfl, hstart⟩ := hx.concat_inv (hspace hstands)
        refine (groupCut_of_getElem? hd (hordinary hstands).2 (hordinary hstands).1 ?_).shift (hordinary hstands).2
        rw [← singleton_append, ← append_assoc, hmask, ← hstart.length_eq]
        simp
      | ahead hgaps =>
        refine groupCut_of_right_notMem hd ?_ fun c hc => ?_
        · exact fun h => (hplain hgaps _ (hdrop ▸ h)).2.1 rfl
        · exact hplain hgaps c (mem_of_head? (hdrop ▸ hc))
      | behind hgaps =>
        refine groupCut_of_left_notMem hd ?_ ?_
        · exact fun h => (hplain hgaps _ (htake ▸ h)).1 rfl
        · exact fun h => (hplain hgaps _ (htake ▸ h)).2.2 rfl
    obtain ⟨hxa, hyb⟩ := parts hd.maskedForm (hcut.balanced_append hd) hmask hx
    exact ⟨x, y, rfl, hxa, hyb, hcut⟩

end CppScaffold.Mask
