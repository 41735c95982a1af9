import CppScaffold.Text.Scan
import Mathlib.Data.List.Infix
import Mathlib.Data.Nat.Find

/-!
# Cutting and searching texts

A text is put together again from its parts, and a search gives the first place at which the part occurs.
-/

namespace CppScaffold

open List

/-- The places of an element in a list: its head or a place in its tail. -/
lemma exists_split_cons {α : Type} {x a : α} {l : List α} {P : List α → List α → Prop} :
    (∃ before after, x :: l = before ++ a :: after ∧ P before after) ↔
      a = x ∧ P [] l ∨ ∃ before after, l = before ++ a :: after ∧ P (x :: before) after := by
  constructor
  · rintro ⟨_ | ⟨y, before⟩, after, hsplit, h⟩
    · obtain ⟨rfl, rfl⟩ := cons_eq_cons.mp hsplit
      exact .inl ⟨rfl, h⟩
    · obtain ⟨rfl, rfl⟩ := cons_eq_cons.mp hsplit
      exact .inr ⟨before, after, rfl, h⟩
  · rintro (⟨rfl, h⟩ | ⟨before, after, rfl, h⟩)
    · exact ⟨[], l, rfl, h⟩
    · exact ⟨x :: before, after, rfl, h⟩

/-! ## Tables -/

section

variable {α β : Type} [BEq α] [LawfulBEq α] (table : List (α × β)) (key : α)

lemma lookup_map_replaced (k : α) (b : β) [Decidable (k = key)] :
    (table.map fun (k, v) => (k, if k == key then b else v)).lookup k =
      if k = key ∧ (table.lookup k).isSome then some b else table.lookup k := by
  induction table with
  | nil => simp
  | cons entry rest ih =>
    obtain ⟨k', v⟩ := entry
    rw [map_cons, lookup_cons, lookup_cons]
    by_cases hk : k = k'
    · subst hk
      by_cases hkey : k = key <;> simp [hkey]
    · rwa [beq_eq_false_iff_ne.mpr hk]

lemma isSome_lookup : (table.lookup key).isSome = table.any (·.1 == key) := by
  induction table with
  | nil => rfl
  | cons entry rest ih =>
    obtain ⟨k, v⟩ := entry
    rw [any_cons, lookup_cons, ← ih]
    by_cases h : k = key
    · simp [h]
    · rw [beq_eq_false_iff_ne.mpr h, beq_eq_false_iff_ne.mpr (Ne.symm h), Bool.false_or]

lemma lookup_concat (k : α) (b : β) [Decidable (k = key)] :
    (table ++ [(key, b)]).lookup k = (table.lookup k).or (if k = key then some b else none) := by
  induction table with
  | nil => by_cases h : k = key <;> simp [h]
  | cons entry rest ih =>
    obtain ⟨k', v⟩ := entry
    rw [cons_append, lookup_cons, lookup_cons, ih]
    cases k == k' <;> rfl

/-- A table into which a value was entered: in the place of the former value of its key, or at the end. -/
lemma lookup_entered (k : α) (b : β) [Decidable (k = key)] :
    (if table.any (·.1 == key) then table.map fun (k, v) => (k, if k == key then b else v)
      else table ++ [(key, b)]).lookup k = if k = key then some b else table.lookup k := by
  cases hknown : table.any (·.1 == key) with
  | true =>
    simp only [if_true, lookup_map_replaced]
    by_cases hk : k = key
    · subst hk
      rw [if_pos ⟨rfl, (isSome_lookup ..).trans hknown⟩, if_pos rfl]
    · rw [if_neg (fun h => hk h.1), if_neg hk]
  | false =>
    simp only [Bool.false_eq_true, if_false, lookup_concat]
    by_cases hk : k = key
    · subst hk
      have hnone : table.lookup k = none := by
        rw [← Option.not_isSome_iff_eq_none, isSome_lookup, hknown]
        exact Bool.false_ne_true
      rw [hnone, Option.none_or]
    · rw [if_neg hk, if_neg hk, Option.or_none]

lemma lookup_filter_keys (kept : α → Bool) (k : α) :
    (table.filter (kept ·.1)).lookup k = if kept k then table.lookup k else none := by
  induction table with
  | nil => simp
  | cons entry rest ih =>
    obtain ⟨k', v⟩ := entry
    by_cases hkept : kept k'
    · rw [filter_cons_of_pos (by exact hkept), lookup_cons, lookup_cons, ih]
      by_cases hk : k = k'
      · rw [hk, if_pos hkept, if_pos hkept]
      · rw [beq_eq_false_iff_ne.mpr hk]
    · rw [filter_cons_of_neg (by exact hkept), ih, lookup_cons]
      by_cases hk : k = k'
      · rw [if_neg (hk ▸ hkept), if_neg (hk ▸ hkept)]
      · rw [beq_eq_false_iff_ne.mpr hk]

lemma lookup_filter_ne (k : α) [Decidable (k = key)] :
    (table.filter (·.1 != key)).lookup k = if k = key then none else table.lookup k := by
  rw [lookup_filter_keys table (· != key)]
  by_cases hk : k = key <;> simp [hk]

end

namespace Text

/-! ## Cutting -/

lemma length_between (t : Text) (a b : Nat) : (between t a b).length = min (b - a) (t.length - a) := by
  simp [between]

lemma mem_between {t : Text} {a b : Nat} {c : Char} (h : c ∈ between t a b) : ∃ i, t[i]? = some c ∧ a ≤ i ∧ i < b := by
  obtain ⟨k, hk⟩ := mem_iff_getElem?.mp h
  have hlt := (List.getElem?_eq_some_iff.mp hk).1
  rw [length_between] at hlt
  rw [between, getElem?_take_of_lt (by omega), getElem?_drop] at hk
  exact ⟨a + k, hk, by omega, by omega⟩

lemma getElem?_of_between {t : Text} {a b i : Nat} {c : Char} (h : (between t a b)[i]? = some c) :
    t[a + i]? = some c := by
  rw [between, getElem?_take] at h
  split at h
  · rwa [getElem?_drop] at h
  · cases h

lemma between_between {t : Text} {a b i j : Nat} (h : j ≤ (between t a b).length) :
    between (between t a b) i j = between t (a + i) (a + j) := by
  rw [length_between] at h
  rw [between, between, between, drop_take, drop_drop, take_take, Nat.min_eq_left (by omega), Nat.add_sub_add_left]

lemma drop_eq_between_append (t : Text) {a b : Nat} (h : a ≤ b) : t.drop a = between t a b ++ t.drop b := by
  have hdrop : t.drop b = (t.drop a).drop (b - a) := by rw [drop_drop]; congr 1; omega
  rw [between, hdrop, take_append_drop]

lemma take_append_between (t : Text) {a b : Nat} (h : a ≤ b) : t.take a ++ between t a b = t.take b := by
  rw [between, ← take_add, Nat.add_sub_cancel' h]

lemma between_take (t : Text) {a b c : Nat} (h : b ≤ c) : between (t.take c) a b = between t a b := by
  rw [between, between, ← drop_take, ← drop_take, take_take, Nat.min_eq_left h]

lemma between_eq_append (t : Text) {a b c : Nat} (hab : a ≤ b) (hbc : b ≤ c) :
    between t a c = between t a b ++ between t b c := by
  have hparts := drop_eq_between_append (t.take c) hab
  rwa [drop_take, drop_take, between_take t hbc] at hparts

/-- A text is the part before `a`, the part from `a` to `b` and the part from `b` on. -/
lemma take_append_between_append_drop (t : Text) {a b : Nat} (h : a ≤ b) :
    t.take a ++ between t a b ++ t.drop b = t := by
  rw [append_assoc, ← drop_eq_between_append t h, take_append_drop]

/-! ## The first occurrence of a part -/

variable {part t x : Text} {i : Nat}

lemma findFrom_eq_some_iff {offset : Nat} : findFrom part offset t = some i ↔ ∃ k, i = offset + k ∧ part <+: t.drop k
    ∧ ∀ j < k, ¬ part <+: t.drop j := by
  induction t generalizing offset with
  | nil =>
    simp only [findFrom, drop_nil, prefix_nil]
    constructor
    · intro h
      split_ifs at h with hp
      exact ⟨0, by simpa using h.symm, by simpa using hp, by simp⟩
    · rintro ⟨k, rfl, hp, hfirst⟩
      have hk : k = 0 := by
        by_contra hk
        exact hfirst 0 (by omega) hp
      simp [hp, hk]
  | cons c rest ih =>
    rw [findFrom]
    by_cases hp : part <+: c :: rest
    · rw [if_pos <| isPrefixOf_iff_prefix.mpr hp]
      constructor
      · intro h
        exact ⟨0, by simpa using h.symm, hp, by simp⟩
      · rintro ⟨k, rfl, _, hfirst⟩
        have hk : k = 0 := by
          by_contra hk
          exact hfirst 0 (by omega) hp
        simp [hk]
    · rw [if_neg (fun h => hp <| isPrefixOf_iff_prefix.mp h), ih]
      constructor
      · rintro ⟨k, rfl, hk, hfirst⟩
        refine ⟨k + 1, by omega, hk, fun j hj => ?_⟩
        cases j with
        | zero => exact hp
        | succ j => exact hfirst j (by omega)
      · rintro ⟨k, rfl, hk, hfirst⟩
        cases k with
        | zero => exact absurd hk hp
        | succ k => exact ⟨k, by omega, hk, fun j hj => hfirst (j + 1) (by omega)⟩

lemma findFrom_succ (part : Text) (offset : Nat) (t : Text) :
    findFrom part (offset + 1) t = (findFrom part offset t).map (· + 1) := by
  induction t generalizing offset with
  | nil =>
    rw [findFrom, findFrom]
    split <;> rfl
  | cons c t ih =>
    rw [findFrom, findFrom]
    split
    · rfl
    · exact ih (offset + 1)

lemma find?_cons (part : Text) (c : Char) (t : Text) :
    find? part (c :: t) = if part.isPrefixOf (c :: t) then some 0 else (find? part t).map (· + 1) := by
  rw [find?, findFrom, findFrom_succ]
  rfl

lemma findFrom_eq_map (part : Text) (offset : Nat) (t : Text) :
    findFrom part offset t = (find? part t).map (offset + ·) := by
  induction offset with
  | zero => simp [find?]
  | succ offset ih =>
    rw [findFrom_succ, ih, Option.map_map]
    congr 1
    funext i
    simp only [Function.comp]
    omega

lemma find?_eq_some_iff : find? part t = some i ↔ part <+: t.drop i ∧ ∀ j < i, ¬ part <+: t.drop j := by
  rw [find?, findFrom_eq_some_iff]
  constructor
  · rintro ⟨k, rfl, h⟩
    simpa using h
  · intro h
    exact ⟨i, by simp, h⟩

lemma add_length_le_of_find? (h : find? part t = some i) (hpart : part ≠ []) : i + part.length ≤ t.length := by
  have hle := (find?_eq_some_iff.mp h).1.length_le
  have hpos := length_pos_iff.mpr hpart
  rw [length_drop] at hle
  omega

lemma find?_append (h : find? part x = some i) (hpart : part ≠ []) (y : Text) : find? part (x ++ y) = some i := by
  have hle := add_length_le_of_find? h hpart
  obtain ⟨hi, hfirst⟩ := find?_eq_some_iff.mp h
  refine find?_eq_some_iff.mpr ⟨?_, fun j hj hprefix => hfirst j hj ?_⟩
  · rw [drop_append_of_le_length (by omega)]
    exact hi.trans (prefix_append ..)
  · rw [drop_append_of_le_length (by omega)] at hprefix
    exact prefix_of_prefix_length_le hprefix (prefix_append ..) (by rw [length_drop]; omega)

/-- A part is found where its first character stands first. -/
lemma find?_of_notMem {c : Char} (h : c ∉ x) (y : Text) :
    find? (c :: part) (x ++ (c :: part ++ y)) = some x.length := by
  refine find?_eq_some_iff.mpr ⟨?_, fun j hj ⟨rest, hrest⟩ => h ?_⟩
  · rw [drop_left]
    exact prefix_append ..
  · rw [drop_append_of_le_length hj.le, drop_eq_getElem_cons hj] at hrest
    rw [(cons_eq_cons.mp hrest).1]
    exact getElem_mem hj

lemma find?_of_append {y : Text} (h : find? part (x ++ y) = some i)
    (hle : i + part.length ≤ x.length) : find? part x = some i := by
  obtain ⟨hi, hfirst⟩ := find?_eq_some_iff.mp h
  refine find?_eq_some_iff.mpr ⟨?_, fun j hj hprefix => hfirst j hj ?_⟩
  · rw [drop_append_of_le_length (by omega)] at hi
    exact prefix_of_prefix_length_le hi (prefix_append ..) (by rw [length_drop]; omega)
  · rw [drop_append_of_le_length (by omega)]
    exact hprefix.trans (prefix_append ..)

lemma find?_eq_none_iff : find? part t = none ↔ ¬ part <:+: t := by
  constructor
  · rintro h ⟨a, b, rfl⟩
    have hex : ∃ i, part <+: (a ++ part ++ b).drop i := by
      refine ⟨a.length, ?_⟩
      rw [append_assoc, drop_left]
      exact prefix_append ..
    have hfound := find?_eq_some_iff.mpr ⟨Nat.find_spec hex, fun j hj => Nat.find_min hex hj⟩
    rw [h] at hfound
    cases hfound
  · intro h
    cases hfound : find? part t with
    | none => rfl
    | some i =>
      obtain ⟨b, hb⟩ := (find?_eq_some_iff.mp hfound).1
      exact absurd ⟨t.take i, b, by rw [append_assoc, hb, take_append_drop]⟩ h

lemma prefix_drop_reverse_iff {a b : Nat} (h : a + part.length + b = t.length) :
    part.reverse <+: t.reverse.drop b ↔ part <+: t.drop a := by
  rw [drop_reverse, reverse_prefix, prefix_iff_eq_take, suffix_iff_eq_drop, length_take,
    drop_take, show min (t.length - b) t.length - part.length = a by omega,
    show t.length - b - a = part.length by omega]

lemma findLast?_eq_some_iff (hpart : part ≠ []) :
    findLast? part t = some i ↔ part <+: t.drop i ∧ ∀ j, i < j → ¬ part <+: t.drop j := by
  have hpos := length_pos_iff.mpr hpart
  have hle : ∀ {j}, part <+: t.drop j → j + part.length ≤ t.length := by
    intro j hj
    have := hj.length_le
    rw [length_drop] at this
    omega
  rw [findLast?, Option.map_eq_some_iff]
  constructor
  · rintro ⟨k, hk, rfl⟩
    have hbound := add_length_le_of_find? hk (by simpa using hpart)
    rw [length_reverse, length_reverse] at hbound
    obtain ⟨hfound, hfirst⟩ := find?_eq_some_iff.mp hk
    refine ⟨(prefix_drop_reverse_iff (by omega)).mp hfound, fun j hj hoccurs => ?_⟩
    have := hle hoccurs
    exact hfirst (t.length - part.length - j) (by omega) ((prefix_drop_reverse_iff (by omega)).mpr hoccurs)
  · rintro ⟨hoccurs, hlast⟩
    have := hle hoccurs
    refine ⟨t.length - part.length - i, find?_eq_some_iff.mpr ⟨(prefix_drop_reverse_iff (by omega)).mpr hoccurs,
      fun j hj hearlier => ?_⟩, by omega⟩
    exact hlast (t.length - part.length - j) (by omega) ((prefix_drop_reverse_iff (by omega)).mp hearlier)

lemma findAfter?_bounds {start : Int} (h : findAfter? part t start = some i)
    (hpart : part ≠ []) : resolveIndex t.length start ≤ i ∧ i + part.length ≤ t.length := by
  obtain ⟨k, rfl, hk, _⟩ := findFrom_eq_some_iff.mp h
  have hle := hk.length_le
  have hpos := length_pos_iff.mpr hpart
  rw [startingAt, drop_drop, length_drop] at hle
  omega

lemma drop_length_takeWhile (p : Char → Bool) (t : Text) : t.drop (t.takeWhile p).length = t.dropWhile p := by
  have h := congrArg (drop (t.takeWhile p).length) (takeWhile_append_dropWhile (p := p) (l := t))
  rw [drop_left] at h
  exact h.symm

lemma takeWhile_append_cons {p : Char → Bool} (hx : ∀ c ∈ x, p c) {e : Char} (he : p e = false) (y : Text) :
    (x ++ e :: y).takeWhile p = x := by
  rw [takeWhile_append_of_pos hx, takeWhile_cons_of_neg (by simp [he]), append_nil]

lemma extract_append (x y z : Text) : extract (x ++ (y ++ z)) ⟨x.length, x.length + y.length⟩ = y := by
  rw [extract, between, drop_left, Nat.add_sub_cancel_left, take_left]

end Text

end CppScaffold
