import CppScaffold.Proofs.Actions
import CppScaffold.Proofs.Search

/-!
# The most likely counterpart

A candidate with the same base name ends the search. Still the answer is the first of those closest in the length of
base names (`mostLikely_is_first_closest`).
-/

namespace CppScaffold

open Text List Uri

lemma Text.occursIn_iff {part t : Text} : occursIn part t ↔ part <:+: t := by
  rw [occursIn, Option.isSome_iff_ne_none, ne_eq, find?_eq_none_iff, not_not]

namespace Location

/-- The difference in length of two base names. -/
def gap (a b : Text) : Nat := (a.length - b.length) + (b.length - a.length)

/-- A symbol whose counterpart is looked for, the base name of its file and what belongs to the workspace. -/
structure Sought where
  inWorkspace : Text → Outcome Bool
  uri : Text
  range : Range
  base : Text

namespace Sought

variable {q : Sought} {l x : Location} {o o' here : Text} {d : Nat} {done rest : List Location} {best : Best}
  {r : Option Location}

/-- The candidate lies in the workspace, is not the symbol itself, and of the two base names one is part of the other.
-/
structure Fits (q : Sought) (l : Location) (other : Text) : Prop where
  inside : q.inWorkspace l.uri = .ok true
  notOwn : l.isWithin q.uri q.range = .ok false
  hasBase : Path.baseName <$> toPath l.uri = .ok other
  related : other <:+: q.base ∨ q.base <:+: other

/-- No candidate that fits is closer, and those before it are farther. -/
def IsFirstClosest (q : Sought) (candidates : List Location) (l : Location) (d : Nat) : Prop :=
  ∃ other before after, candidates = before ++ l :: after ∧ q.Fits l other ∧ gap other q.base = d ∧
    (∀ x ∈ before, ∀ o, q.Fits x o → d < gap o q.base) ∧ ∀ x ∈ after, ∀ o, q.Fits x o → d ≤ gap o q.base

/-- The address of a candidate can be read, unless it lies outside of the workspace. -/
def Readable (q : Sought) (l : Location) : Prop :=
  ∃ inside, q.inWorkspace l.uri = .ok inside ∧ (inside → ∃ path, toPath l.uri = .ok path)

lemma Fits.unique (h : q.Fits l o) (h' : q.Fits l o') : o = o' :=
  Except.ok.inj (h.hasBase.symm.trans h'.hasBase)

lemma Fits.gap_eq_zero_iff (h : q.Fits l o) : gap o q.base = 0 ↔ o = q.base := by
  constructor
  · intro hgap
    have hlength : o.length = q.base.length := by
      rw [gap] at hgap
      omega
    rcases h.related with h | h
    · exact h.eq_of_length hlength
    · exact (h.eq_of_length hlength.symm).symm
  · rintro rfl
    simp [gap]

/-! ## One candidate -/

def select (q : Sought) : Best → List Location → Outcome (Option Location) :=
  selectFrom q.inWorkspace q.uri q.range q.base

/-- The best candidate after one more that fits. -/
def nearer (best : Best) (l : Location) (d : Nat) : Best :=
  match best with
  | none => some (l, d)
  | some (_, d') => if d < d' then some (l, d) else best

lemma select_cons_cases (huri : toPath q.uri = .ok here) (best : Best) (l : Location) (rest : List Location) :
    (¬ q.Readable l ∧ ∃ e, q.select best (l :: rest) = .error e) ∨
      q.Readable l ∧
        ((∀ o, ¬ q.Fits l o) ∧ q.select best (l :: rest) = q.select best rest ∨
          ∃ o, q.Fits l o ∧ q.select best (l :: rest) =
            if o = q.base then .ok (some l) else q.select (nearer best l (gap o q.base)) rest) := by
  rw [select, selectFrom]
  cases hin : q.inWorkspace l.uri with
  | error e => exact .inl ⟨fun ⟨_, h, _⟩ => by simp [hin] at h, e, rfl⟩
  | ok inside =>
    cases inside with
    | false => exact .inr ⟨⟨false, hin, by simp⟩, .inl ⟨fun o h => by simpa [hin] using h.inside, rfl⟩⟩
    | true =>
      cases hpath : toPath l.uri with
      | error e =>
        refine .inl ⟨fun ⟨b, h, hb⟩ => ?_, e, by simp [isWithin, hpath, bind, Except.bind]⟩
        rw [hin, Except.ok.injEq] at h
        obtain ⟨path, h⟩ := hb h.symm
        simp [hpath] at h
      | ok path =>
        refine .inr ⟨⟨true, hin, fun _ => ⟨path, hpath⟩⟩, ?_⟩
        have hwithin : l.isWithin q.uri q.range = .ok (path == here && q.range.encloses l.range) := by
          simp [isWithin, hpath, huri, bind, Except.bind, pure, Except.pure]
        rw [hwithin]
        cases hown : path == here && q.range.encloses l.range with
        | true => exact .inl ⟨fun o h => by simpa [hwithin, hown] using h.notOwn, rfl⟩
        | false =>
          -- the base name of the candidate decides
          have hbase : ∀ o, q.Fits l o ↔ o = Path.baseName path ∧ (o <:+: q.base ∨ q.base <:+: o) := by
            intro o
            constructor
            · intro h
              have hother := h.hasBase
              rw [hpath] at hother
              exact ⟨(Except.ok.inj hother).symm, h.related⟩
            · rintro ⟨rfl, h⟩
              exact ⟨hin, by rw [hwithin, hown], by rw [hpath]; rfl, h⟩
          simp only [bind, Except.bind, Bool.not_true, Bool.false_eq_true, if_false, beq_iff_eq, Bool.or_eq_true,
            occursIn_iff]
          by_cases hsame : Path.baseName path = q.base
          · exact .inr ⟨_, (hbase _).mpr ⟨rfl, .inl (hsame ▸ infix_refl _)⟩, by rw [if_pos hsame, if_pos hsame]; rfl⟩
          · rw [if_neg hsame]
            by_cases hrelated : Path.baseName path <:+: q.base ∨ q.base <:+: Path.baseName path
            · refine .inr ⟨_, (hbase _).mpr ⟨rfl, hrelated⟩, ?_⟩
              rw [if_neg hsame, if_pos hrelated]
              rcases best with _ | ⟨l', d'⟩
              · rfl
              · simp only [nearer, gap, decide_eq_true_eq]
                congr
            · refine .inl ⟨fun o h => ?_, by rw [if_neg hrelated]⟩
              obtain ⟨rfl, h⟩ := (hbase o).mp h
              exact hrelated h

/-! ## All candidates -/

/-- What the best candidate so far says about those gone through. -/
def Covers (q : Sought) (done : List Location) : Best → Prop
  | none => ∀ x ∈ done, ∀ o, ¬ q.Fits x o
  | some (l, d) => 0 < d ∧ q.IsFirstClosest done l d

lemma IsFirstClosest.le_gap (h : q.IsFirstClosest done l d) (hx : x ∈ done) (hfits : q.Fits x o) :
    d ≤ gap o q.base := by
  obtain ⟨other, before, after, rfl, hl, rfl, hbefore, hafter⟩ := h
  rcases mem_append.mp hx with hx | hx
  · exact Nat.le_of_lt (hbefore x hx o hfits)
  · rcases mem_cons.mp hx with rfl | hx
    · rw [hfits.unique hl]
    · exact hafter x hx o hfits

lemma IsFirstClosest.concat (h : q.IsFirstClosest done l d) (hx : ∀ o, q.Fits x o → d ≤ gap o q.base) :
    q.IsFirstClosest (done ++ [x]) l d := by
  obtain ⟨other, before, after, rfl, hl, hgap, hbefore, hafter⟩ := h
  exact ⟨other, before, after ++ [x], by simp, hl, hgap, hbefore,
    forall_mem_append.mpr ⟨hafter, forall_mem_singleton.mpr hx⟩⟩

lemma Covers.gap_pos (h : q.Covers done best) (hx : x ∈ done) (hfits : q.Fits x o) : 0 < gap o q.base := by
  rcases best with _ | ⟨l, d⟩
  · exact absurd hfits (h x hx o)
  · exact Nat.lt_of_lt_of_le h.1 (h.2.le_gap hx hfits)

lemma Covers.skip (h : q.Covers done best) (hl : ∀ o, ¬ q.Fits l o) : q.Covers (done ++ [l]) best := by
  rcases best with _ | ⟨l', d⟩
  · exact forall_mem_append.mpr ⟨h, forall_mem_singleton.mpr hl⟩
  · exact ⟨h.1, h.2.concat fun o ho => absurd ho (hl o)⟩

lemma Covers.nearer (h : q.Covers done best) (hl : q.Fits l o) (hne : o ≠ q.base) :
    q.Covers (done ++ [l]) (nearer best l (gap o q.base)) := by
  have hpos : 0 < gap o q.base := Nat.pos_of_ne_zero (mt hl.gap_eq_zero_iff.mp hne)
  rcases best with _ | ⟨l', d⟩
  · exact ⟨hpos, o, done, [], rfl, hl, rfl, fun x hx o ho => absurd ho (h x hx o), by simp⟩
  · rw [nearer]
    split
    next hlt =>
      exact ⟨hpos, o, done, [], rfl, hl, rfl, fun x hx o' ho => Nat.lt_of_lt_of_le hlt (h.2.le_gap hx ho), by simp⟩
    next hge =>
      refine ⟨h.1, h.2.concat fun o' ho => ?_⟩
      rw [ho.unique hl]
      exact Nat.le_of_not_lt hge

/-- The answer for a list of candidates. -/
def IsAnswer (q : Sought) (candidates : List Location) : Option Location → Prop
  | none => ∀ x ∈ candidates, ∀ o, ¬ q.Fits x o
  | some l => ∃ d, q.IsFirstClosest candidates l d

lemma isAnswer_of_select (huri : toPath q.uri = .ok here) (hbest : q.Covers done best)
    (h : q.select best rest = .ok r) : q.IsAnswer (done ++ rest) r := by
  induction rest generalizing done best with
  | nil =>
    obtain rfl := Except.ok.inj h
    rw [append_nil]
    rcases best with _ | ⟨l, d⟩
    · exact hbest
    · exact ⟨d, hbest.2⟩
  | cons l rest ih =>
    rw [append_cons]
    rcases select_cons_cases huri best l rest with ⟨-, e, he⟩ | ⟨-, ⟨hl, heq⟩ | ⟨o, hl, heq⟩⟩
    · cases h.symm.trans he
    · exact ih (hbest.skip hl) (heq.symm.trans h)
    · rw [heq] at h
      split at h
      next hsame =>
        obtain rfl := Except.ok.inj h
        have hzero := hl.gap_eq_zero_iff.mpr hsame
        exact ⟨0, o, done, rest, by simp, hl, hzero, fun x hx o' => hbest.gap_pos hx, by simp⟩
      next hne => exact ih (hbest.nearer hl hne) h

/-- The search succeeds if the addresses can be read up to one with the same base name. -/
lemma select_isOk_iff (huri : toPath q.uri = .ok here) :
    (∃ r, q.select best rest = .ok r) ↔ ∀ before l after, rest = before ++ l :: after → (∀ x ∈ before, ¬ q.Fits x q.base) → q.Readable l := by
  induction rest generalizing best with
  | nil => exact ⟨fun _ before l after h => absurd h (by simp), fun _ => ⟨_, rfl⟩⟩
  | cons l rest ih =>
    -- the candidates behind one that does not end the search
    have hrest : ∀ best', q.Readable l → ¬ q.Fits l q.base → ((∃ r, q.select best' rest = .ok r) ↔
        ∀ before l' after, l :: rest = before ++ l' :: after → (∀ x ∈ before, ¬ q.Fits x q.base) → q.Readable l') := by
      intro best' hl hne
      rw [ih]
      constructor
      · intro h before l' after heq hbefore
        cases before with
        | nil => rwa [← (cons_eq_cons.mp heq).1]
        | cons x before => exact h before l' after (cons_eq_cons.mp heq).2 (forall_mem_cons.mp hbefore).2
      · intro h before l' after heq hbefore
        exact h (l :: before) l' after (by rw [heq]; rfl) (forall_mem_cons.mpr ⟨hne, hbefore⟩)
    rcases select_cons_cases huri best l rest with ⟨hl, e, he⟩ | ⟨hl, ⟨hfits, heq⟩ | ⟨o, hfits, heq⟩⟩
    · rw [he]
      exact ⟨fun ⟨_, h⟩ => (by cases h), fun h => absurd (h [] l rest rfl (by simp)) hl⟩
    · rw [heq]
      exact hrest best hl (hfits _)
    · rw [heq]
      split
      next hsame =>
        refine ⟨fun _ before l' after heq hbefore => ?_, fun _ => ⟨_, rfl⟩⟩
        cases before with
        | nil => rwa [← (cons_eq_cons.mp heq).1]
        | cons x before =>
          obtain rfl := (cons_eq_cons.mp heq).1
          exact absurd (hsame ▸ hfits) (hbefore l mem_cons_self)
      next hne => exact hrest _ hl fun h => hne (hfits.unique h)

end Sought

/-- **The most likely counterpart is the first of the closest ones,** or nothing if none fits; the search fails only at
an address that cannot be read. A linked location is never the symbol itself. -/
theorem mostLikely_is_first_closest (inWorkspace : Text → Outcome Bool) (uri : Text) (range : Range)
    (candidates : List Location) (h : 2 ≤ candidates.length) :
    (∀ e, Uri.toPath uri = .error e → mostLikely inWorkspace uri range candidates = .error e) ∧
    (∀ path, Uri.toPath uri = .ok path → let q : Sought := ⟨inWorkspace, uri, range, Path.baseName path⟩
      ((∃ r, mostLikely inWorkspace uri range candidates = .ok r) ↔ ∀ before l after, candidates = before ++ l :: after →
        (∀ x ∈ before, ¬ q.Fits x q.base) → q.Readable l) ∧
      ∀ r, mostLikely inWorkspace uri range candidates = .ok r → q.IsAnswer candidates r) ∧
    ∀ any l, linked inWorkspace uri range any = .ok (some l) → l.isWithin uri range = .ok false := by
  have hsearch : mostLikely inWorkspace uri range candidates = Uri.toPath uri >>= fun path =>
      selectFrom inWorkspace uri range (Path.baseName path) none candidates := by
    match candidates, h with
    | _ :: _ :: _, _ => rfl
  refine ⟨fun e he => by rw [hsearch, he]; rfl, fun path hpath => ?_, fun any l hl => ?_⟩
  · intro q
    have hselect : mostLikely inWorkspace uri range candidates = q.select none candidates := by
      rw [hsearch, hpath]
      rfl
    have hstart : q.Covers [] none := by simp [Sought.Covers]
    rw [hselect]
    exact ⟨Sought.select_isOk_iff (q := q) hpath, fun r hr => Sought.isAnswer_of_select (q := q) hpath hstart hr⟩
  · rw [linked] at hl
    obtain ⟨found, -, hl⟩ := exists_ok_of_bind hl
    cases found with
    | none => cases hl
    | some l' =>
      obtain ⟨own, hown, hl⟩ := exists_ok_of_bind hl
      cases own with
      | true => cases hl
      | false =>
        cases hl
        exact hown

/-- Of two files whose base names are as close the first is taken, behind one that is farther. -/
theorem mostLikely_takes_first_of_two :
    let range : Range := ⟨⟨0, 0⟩, ⟨1, 0⟩⟩
    let place : String → Location := fun s => ⟨s.toList, range⟩
    let candidates := [place "file:///p/carts.cpp", place "file:///p/xcar.cpp", place "file:///q/cars.cpp"]
    mostLikely (fun _ => .ok true) "file:///p/car.h" range candidates = .ok (some (place "file:///p/xcar.cpp")) ∧
      Sought.IsAnswer ⟨fun _ => .ok true, "file:///p/car.h", range, "car"⟩ candidates
        (some (place "file:///p/xcar.cpp")) := by
  intro range place candidates
  have hpath : Uri.toPath "file:///p/car.h" = .ok "/p/car.h" := by decide +kernel
  have hlikely : mostLikely (fun _ => .ok true) "file:///p/car.h" range candidates =
      .ok (some (place "file:///p/xcar.cpp")) := by
    decide +kernel
  have hanswer := (mostLikely_is_first_closest (fun _ => .ok true) "file:///p/car.h" range candidates
    (by simp [candidates])).2.1 _ hpath
  exact ⟨hlikely, hanswer.2 _ hlikely⟩

end Location

end CppScaffold
