import CppScaffold.Files.Scanner
import Mathlib.Order.Bounds.Defs

/-!
# How far directories differ

The segments of two directories without those that they share at the start and at the end, with one too many if all
that is left of the shorter path ends the longer one.
-/

namespace CppScaffold

open List

lemma isGreatest_commonLength (as bs : List Text) :
    IsGreatest {n | ∃ c, c <+: as ∧ c <+: bs ∧ c.length = n} (commonLength as bs) := by
  fun_induction commonLength as bs with
  | case1 a as b bs h ih =>
    obtain rfl := beq_iff_eq.mp h
    obtain ⟨c, has, hbs, hlength⟩ := ih.1
    refine ⟨⟨a :: c, cons_prefix_cons.mpr ⟨rfl, has⟩, cons_prefix_cons.mpr ⟨rfl, hbs⟩, by rw [length_cons, hlength]⟩, ?_⟩
    rintro n ⟨_ | ⟨d, c⟩, has, hbs, rfl⟩
    · exact Nat.zero_le _
    · exact Nat.succ_le_succ (ih.2 ⟨c, (cons_prefix_cons.mp has).2, (cons_prefix_cons.mp hbs).2, rfl⟩)
  | case2 a as b bs h =>
    refine ⟨⟨[], nil_prefix, nil_prefix, rfl⟩, ?_⟩
    rintro n ⟨_ | ⟨d, c⟩, has, hbs, rfl⟩
    · exact Nat.le_refl 0
    · rw [← (cons_prefix_cons.mp has).1, ← (cons_prefix_cons.mp hbs).1] at h
      exact absurd BEq.rfl h
  | case3 as bs h =>
    refine ⟨⟨[], nil_prefix, nil_prefix, rfl⟩, ?_⟩
    rintro n ⟨_ | ⟨d, c⟩, ⟨x, rfl⟩, ⟨y, rfl⟩, rfl⟩
    · exact Nat.le_refl 0
    · exact (h d _ d _ rfl rfl).elim

lemma commonLength_take (m n : Nat) (as bs : List Text) :
    commonLength (as.take m) (bs.take n) = min (min m n) (commonLength as bs) := by
  induction as generalizing m n bs with
  | nil => simp [commonLength]
  | cons a as ih =>
    cases bs with
    | nil => cases m <;> simp [commonLength]
    | cons b bs =>
      cases m with
      | zero => simp [commonLength]
      | succ m =>
        cases n with
        | zero => simp [commonLength]
        | succ n =>
          rw [take_succ_cons, take_succ_cons, commonLength, commonLength, ih]
          split <;> omega

namespace Path

/-- **The distance of two directories**: the segments of the longer path without the longest common start and then the
longest common end, and one more exactly if something is left of the shorter path and all of it is common. -/
theorem difference_eq_remaining (a b : Text) :
    let as := parts a
    let bs := parts b
    let leading := commonLength as bs
    let trailing := commonLength (as.drop leading).reverse (bs.drop leading).reverse
    IsGreatest {n | ∃ c, c <+: as ∧ c <+: bs ∧ c.length = n} leading ∧
    IsGreatest {n | ∃ c, c <:+ as.drop leading ∧ c <:+ bs.drop leading ∧ c.length = n} trailing ∧
    difference a b = max as.length bs.length - leading - trailing +
      if 0 < trailing ∧ trailing = min as.length bs.length - leading then 1 else 0 := by
  intro as bs leading trailing
  have hends : ∀ n, (∃ c, c <:+ as.drop leading ∧ c <:+ bs.drop leading ∧ c.length = n) ↔
      ∃ c, c <+: (as.drop leading).reverse ∧ c <+: (bs.drop leading).reverse ∧ c.length = n := by
    intro n
    constructor
    · rintro ⟨c, has, hbs, rfl⟩
      exact ⟨c.reverse, reverse_prefix.mpr has, reverse_prefix.mpr hbs, length_reverse⟩
    · rintro ⟨c, has, hbs, rfl⟩
      exact ⟨c.reverse, reverse_prefix.mp (by rwa [reverse_reverse]), reverse_prefix.mp (by rwa [reverse_reverse]),
        length_reverse⟩
  refine ⟨isGreatest_commonLength as bs, ?_, ?_⟩
  · simp only [hends]
    exact isGreatest_commonLength _ _
  · have htrailing : trailing = min (min as.length bs.length - leading) (commonLength as.reverse bs.reverse) := by
      rw [← Nat.sub_min_sub_right, ← commonLength_take, ← reverse_drop, ← reverse_drop]
    have hcounted := commonLength_take (min as.length bs.length - leading - 1) (min as.length bs.length - leading - 1)
      as.reverse bs.reverse
    have hle : min as.length bs.length - leading ≤ max as.length bs.length - leading :=
      Nat.sub_le_sub_right (Nat.le_trans (Nat.min_le_left ..) (Nat.le_max_left ..)) _
    change max (as.length - leading - commonLength _ _) (bs.length - leading - commonLength _ _) = _
    rw [hcounted, htrailing, Nat.sub_max_sub_right, Nat.sub_max_sub_right]
    split <;> omega

/-- Below the root a directory of the same name: it is the end of the other path, and is counted all the same. -/
theorem difference_counts_shared_end :
    let as := parts "/p"
    let bs := parts "/x/p"
    let leading := commonLength as bs
    max as.length bs.length - leading - commonLength (as.drop leading).reverse (bs.drop leading).reverse = 1 ∧
      difference "/p" "/x/p" = 2 := by
  decide

end Path

end CppScaffold
