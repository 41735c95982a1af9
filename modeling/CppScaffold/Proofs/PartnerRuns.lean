import CppScaffold.Files.Scanner
import CppScaffold.Proofs.Search

/-!
# Partners asked for one after the other

A partner is remembered in both directions. So answers never depend on earlier questions if and only if partners are
mutual among the files asked about.
-/

namespace CppScaffold

open List Path PairCache

namespace PairCache

lemma partner?_insert (c : PairCache) (a b p : Text) :
    (c.insert a b).partner? p = if p = b then some a else if p = a then some b else c.partner? p := by
  rw [partner?, insert, enter, lookup_entered, enter, lookup_entered, partner?]

lemma partner?_erase (c : PairCache) (paths : List Text) (p : Text) :
    (c.erase paths).partner? p = if paths.contains p then none else c.partner? p := by
  have hkept : (c.erase paths).partner? p = if !paths.contains p then c.partner? p else none :=
    lookup_filter_keys c.pairs (!paths.contains ·) p
  rw [hkept]
  cases paths.contains p <;> rfl

end PairCache

namespace Scanner

variable {s : Scanner} {t : FileTree} {c : PairCache} {p q : Text}

/-- The partner of a file as a scanner gives it that was asked for nothing before. -/
def freshAnswer (s : Scanner) (t : FileTree) (p : Text) : Outcome (Option Text) := (s.partner t {} p).1

/-- The answers to questions that are asked one after the other. -/
def answers (s : Scanner) (t : FileTree) : PairCache → List Text → List (Outcome (Option Text))
  | _, [] => []
  | c, p :: rest => (s.partner t c p).1 :: answers s t (s.partner t c p).2 rest

/-- What is remembered after questions that were asked one after the other. -/
def cacheAfter (s : Scanner) (t : FileTree) (c : PairCache) (paths : List Text) : PairCache :=
  paths.foldl (fun c p => (s.partner t c p).2) c

/-- Where one file in question is the partner of another one that exists, the second is the partner of the
first. -/
def Mutual (s : Scanner) (t : FileTree) (asked : Text → Prop) : Prop :=
  ∀ p q, asked p → asked q → t.contains (located p) → s.freshAnswer t p = .ok (some (located q)) →
    s.freshAnswer t q = .ok (some (located p))

lemma freshAnswer_eq (s : Scanner) (t : FileTree) (p : Text) : s.freshAnswer t p = s.findPartner t (located p) := by
  have hget : get {} t.contains (located p) = (none, {}) := rfl
  rw [freshAnswer, partner]
  simp only [hget]
  split
  next m hm => exact hm.symm
  next => rfl

/-! ## One question -/

lemma partner?_of_get {present : Text → Bool} {k v : Text} (h : (c.get present p).2.partner? k = some v) :
    c.partner? k = some v := by
  unfold PairCache.get at h
  split at h
  · exact h
  · split at h
    · exact h
    · rw [partner?_erase] at h
      split at h
      · cases h
      · exact h

lemma partner_of_partner? {m : Text} (h : c.partner? (located p) = some m) (hpresent : t.contains m) :
    s.partner t c p = (.ok (some m), c) := by
  have hget : c.get t.contains (located p) = (some m, c) := by
    unfold PairCache.get
    simp [h, hpresent]
  simp only [partner, hget]

lemma partner_empty {m : Text} (h : s.freshAnswer t p = .ok (some m)) :
    (s.partner t {} p).2 = insert {} (located p) m := by
  have hget : get {} t.contains (located p) = (none, {}) := rfl
  rw [freshAnswer_eq] at h
  simp only [partner, hget, h]

/-- An answer is a remembered partner that exists, or the one that the files show; then nothing but the partner found
is remembered anew. -/
lemma partner_cases (s : Scanner) (t : FileTree) (c : PairCache) (p : Text) : (∃ m, c.partner? (located p) = some m ∧
    t.contains m ∧ s.partner t c p = (.ok (some m), c)) ∨ ((s.partner t c p).1 = s.freshAnswer t p ∧ ∀ k v, (s.partner t
    c p).2.partner? k = some v → c.partner? k = some v ∨ (k = located p ∧ s.freshAnswer t p = .ok (some v)) ∨ (v =
    located p ∧ s.freshAnswer t p = .ok (some k))) := by
  rw [freshAnswer_eq]
  have hleft : ∀ k v, (c.get t.contains (located p)).2.partner? k = some v → c.partner? k = some v :=
    fun _ _ => partner?_of_get
  rcases hget : c.get t.contains (located p) with ⟨_ | m, c'⟩
  · right
    rw [hget] at hleft
    simp only [partner, hget]
    split
    next m hm =>
      refine ⟨hm.symm, fun k v hk => ?_⟩
      rw [partner?_insert] at hk
      by_cases hkm : k = m
      · rw [if_pos hkm] at hk
        exact .inr (.inr ⟨(Option.some.inj hk).symm, hkm ▸ hm⟩)
      · by_cases hkp : k = located p
        · rw [if_neg hkm, if_pos hkp] at hk
          exact .inr (.inl ⟨hkp, Option.some.inj hk ▸ hm⟩)
        · rw [if_neg hkm, if_neg hkp] at hk
          exact .inl (hleft k v hk)
    next => exact ⟨rfl, fun k v hk => .inl (hleft k v hk)⟩
  · left
    have hfound := hget
    unfold PairCache.get at hfound
    split at hfound
    next => cases hfound
    next q hq =>
      split at hfound
      next hpresent =>
        exact ⟨q, hq, hpresent, partner_of_partner? hq hpresent⟩
      next => cases hfound

/-! ## Runs of questions -/

/-- What is remembered of files in question is what the files show, as far as it exists. -/
def Truthful (s : Scanner) (t : FileTree) (asked : Text → Prop) (c : PairCache) : Prop :=
  ∀ p m, asked p → c.partner? (located p) = some m → t.contains m → s.freshAnswer t p = .ok (some m)

/-- Whatever is remembered of a file was found for it, or it was found for what is remembered. -/
def Explained (s : Scanner) (t : FileTree) (asked : List Text) (c : PairCache) : Prop :=
  ∀ k v, c.partner? k = some v → ∃ q ∈ asked, (k = located q ∧ s.freshAnswer t q = .ok (some v)) ∨
    (v = located q ∧ s.freshAnswer t q = .ok (some k))

lemma freshAnswer_congr (h : located p = located q) : s.freshAnswer t p = s.freshAnswer t q := by
  rw [freshAnswer_eq, freshAnswer_eq, h]

/-- Among mutual partners a question is answered as the files show, and so are those after it. -/
lemma Truthful.partner {asked : Text → Prop} (h : s.Truthful t asked c) (hmutual : s.Mutual t asked) (hp : asked p) :
    (s.partner t c p).1 = s.freshAnswer t p ∧ s.Truthful t asked (s.partner t c p).2 := by
  rcases s.partner_cases t c p with ⟨m, hm, hpresent, heq⟩ | ⟨heq, hnew⟩
  · rw [heq]
    exact ⟨(h p m hp hm hpresent).symm, h⟩
  · refine ⟨heq, fun q m hq hm hpresent => ?_⟩
    rcases hnew _ m hm with hold | ⟨hsame, hfresh⟩ | ⟨hsame, hfresh⟩
    · exact h q m hq hold hpresent
    · rw [freshAnswer_congr hsame, hfresh]
    · rw [hsame]
      exact hmutual p q hp hq (hsame ▸ hpresent) hfresh

lemma Truthful.answers {asked : Text → Prop} (hmutual : s.Mutual t asked) {paths : List Text}
    (hpaths : ∀ p ∈ paths, asked p) (h : s.Truthful t asked c) : s.answers t c paths = paths.map (s.freshAnswer t) := by
  induction paths generalizing c with
  | nil => rfl
  | cons p rest ih =>
    obtain ⟨hfirst, hkept⟩ := h.partner hmutual (hpaths p mem_cons_self)
    rw [answers, map_cons, hfirst, ih (fun q hq => hpaths q (mem_cons_of_mem p hq)) hkept]

lemma Explained.partner {asked : List Text} (h : s.Explained t asked c) (p : Text) :
    s.Explained t (p :: asked) (s.partner t c p).2 := by
  have hold : s.Explained t (p :: asked) c := by
    intro k v hk
    obtain ⟨q, hq, hwhy⟩ := h k v hk
    exact ⟨q, mem_cons_of_mem p hq, hwhy⟩
  rcases s.partner_cases t c p with ⟨m, hm, hpresent, heq⟩ | ⟨heq, hnew⟩
  · rwa [heq]
  · intro k v hk
    rcases hnew k v hk with hbefore | hfound
    · exact hold k v hbefore
    · exact ⟨p, mem_cons_self, hfound⟩

lemma Explained.cacheAfter {asked : List Text} (h : s.Explained t asked c) (paths : List Text) :
    s.Explained t (paths.reverse ++ asked) (s.cacheAfter t c paths) := by
  induction paths generalizing asked c with
  | nil => exact h
  | cons p rest ih =>
    rw [reverse_cons, append_assoc]
    exact ih (h.partner p)

/-- **Answers do not depend on earlier questions exactly where partners are mutual.** An answer is that of a fresh
scanner, or a file asked for before whose partner is the file in question. Files can be asked about in any order and
number if and only if, where one is the partner of another that exists, the converse holds too. -/
theorem partner_ignores_history_iff (s : Scanner) (t : FileTree) :
    (∀ history p, (s.partner t (s.cacheAfter t {} history) p).1 = s.freshAnswer t p ∨
      ∃ q ∈ history, t.contains (Path.located q) = true ∧ s.freshAnswer t q = .ok (some (Path.located p)) ∧
        (s.partner t (s.cacheAfter t {} history) p).1 = .ok (some (Path.located q))) ∧
    ∀ asked : Text → Prop, (∀ paths, (∀ p ∈ paths, asked p) → s.answers t {} paths = paths.map (s.freshAnswer t)) ↔
      s.Mutual t asked := by
  refine ⟨fun history p => ?_, fun asked => ⟨fun hsame p q hp hq hpresent hfresh => ?_, fun hmutual paths hpaths => ?_⟩⟩
  · have hexplained : s.Explained t (history.reverse ++ []) (s.cacheAfter t {} history) :=
      Explained.cacheAfter (fun k v hk => by cases hk) history
    rcases s.partner_cases t (s.cacheAfter t {} history) p with ⟨m, hm, hpresent, heq⟩ | ⟨heq, _⟩
    · obtain ⟨q, hq, ⟨hsame, hfresh⟩ | ⟨rfl, hfresh⟩⟩ := hexplained _ m hm
      · left
        rw [heq, freshAnswer_congr hsame, hfresh]
      · right
        refine ⟨q, by simpa using hq, hpresent, hfresh, by rw [heq]⟩
    · exact .inl heq
  · -- The partner is asked for right after the file that was found for it.
    have hboth := hsame [p, q] (by simp [hp, hq])
    simp only [answers, List.map_cons, List.map_nil, List.cons.injEq, and_true] at hboth
    rw [← hboth.2, partner_empty hfresh, partner_of_partner? ?_ hpresent]
    rw [PairCache.partner?_insert, if_pos rfl]
  · have hempty : s.Truthful t asked {} := fun p m _ hm _ => by cases hm
    exact hempty.answers hmutual hpaths

/-- Once the lower of two source files was asked for, the header is answered with it. -/
theorem partner_remembers_farther_file :
    let t : FileTree :=
      { files := [([['p'], "a.h"], ⟨[], 0⟩), ([['p'], "a.cpp"], ⟨[], 0⟩),
          ([['p'], ['q'], "a.cpp"], ⟨[], 0⟩)]
        directories := [[['p']], [['p'], ['q']]] }
    let s : Scanner := ⟨"/p", .standard, []⟩
    let paths : List Text := ["/p/q/a.cpp", "/p/a.h"]
    (s.answers t {} paths).map Except.toOption = [some (some "/p/a.h".toList), some (some "/p/q/a.cpp".toList)] ∧
      s.answers t {} paths ≠ paths.map (s.freshAnswer t) := by
  intro t s paths
  have hanswers : (s.answers t {} paths).map Except.toOption =
      [some (some "/p/a.h".toList), some (some "/p/q/a.cpp".toList)] := by decide +kernel
  refine ⟨hanswers, fun hsame => ?_⟩
  have hfresh : (paths.map (s.freshAnswer t)).map Except.toOption =
      [some (some "/p/a.h".toList), some (some "/p/a.cpp".toList)] := by decide +kernel
  rw [← hsame, hanswers] at hfresh
  exact absurd hfresh (by decide)

end Scanner

end CppScaffold
