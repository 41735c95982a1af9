import CppScaffold.Proofs.Declarators

/-!
# Normal forms are canonical

Two texts have one normal form exactly if they show the same characters and divide the same words
(`normalize_canonical`). The normal form is read as visible characters, each with whether a space comes before it.
-/

namespace CppScaffold.Spacing

open Text List Recognizer

variable {prev : Option Char} {gap m : Bool} {c : Char} {t : Text} {i n : Nat}

def visible (t : Text) : Text := t.filter (!isBlank ·)

/-- A blank stands somewhere behind the first `n` visible characters of a text, and before the next one. -/
def BlankBehind (t : Text) (n : Nat) : Prop := ∃ x d y, t = x ++ d :: y ∧ isBlank d ∧ (visible x).length = n

lemma visible_cons_blank (h : isBlank c) : visible (c :: t) = visible t := by simp [visible, h]

lemma visible_cons_of_not (h : isBlank c = false) : visible (c :: t) = c :: visible t := by simp [visible, h]

lemma blankBehind_cons_blank (h : isBlank c) : BlankBehind (c :: t) n ↔ n = 0 ∨ BlankBehind t n := by
  constructor
  · rintro ⟨x, d, y, ht, hd, rfl⟩
    cases x with
    | nil => exact .inl rfl
    | cons e x =>
      obtain ⟨rfl, rfl⟩ := cons_eq_cons.mp ht
      exact .inr ⟨x, d, y, rfl, hd, by rw [visible_cons_blank h]⟩
  · rintro (rfl | ⟨x, d, y, rfl, hd, rfl⟩)
    · exact ⟨[], c, t, rfl, h, rfl⟩
    · exact ⟨c :: x, d, y, rfl, hd, by rw [visible_cons_blank h]⟩

lemma blankBehind_cons_of_not (h : isBlank c = false) :
    BlankBehind (c :: t) n ↔ ∃ k, n = k + 1 ∧ BlankBehind t k := by
  constructor
  · rintro ⟨x, d, y, ht, hd, rfl⟩
    cases x with
    | nil =>
      obtain ⟨rfl, -⟩ := cons_eq_cons.mp ht
      exact absurd hd (by simp [h])
    | cons e x =>
      obtain ⟨rfl, rfl⟩ := cons_eq_cons.mp ht
      exact ⟨_, by rw [visible_cons_of_not h]; rfl, x, d, y, rfl, hd, rfl⟩
  · rintro ⟨k, rfl, x, d, y, rfl, hd, rfl⟩
    exact ⟨c :: x, d, y, rfl, hd, by rw [visible_cons_of_not h]; rfl⟩

/-! ## Marks -/

/-- The visible characters of a text, each with whether its normal form has a space before it. -/
def marks (prev : Option Char) (gap : Bool) : Text → List (Bool × Char)
  | [] => []
  | c :: rest =>
    if isBlank c then marks prev true rest
    else (gap && prev.any isWordChar && isWordChar c, c) :: marks (some c) false rest

def written : List (Bool × Char) → Text
  | [] => []
  | (space, c) :: rest => if space then ' ' :: c :: written rest else c :: written rest

lemma normalizeFrom_eq_written (prev : Option Char) (gap : Bool) (t : Text) :
    normalizeFrom prev gap t = written (marks prev gap t) := by
  fun_induction normalizeFrom prev gap t with
  | case1 => rfl
  | case2 prev gap c rest hc ih => rw [ih, marks, if_pos hc]
  | case3 prev gap c rest hc hword ih => rw [ih, marks, if_neg hc, written, if_pos hword]
  | case4 prev gap c rest hc hword ih => rw [ih, marks, if_neg hc, written, if_neg hword]

lemma marks_normalizeFrom (prev : Option Char) (gap : Bool) (t : Text) :
    marks prev false (normalizeFrom prev gap t) = marks prev gap t := by
  have hspace : isBlank ' ' = true := by decide
  fun_induction normalizeFrom prev gap t with
  | case1 => rfl
  | case2 prev gap c rest hc ih => rw [ih, marks, if_pos hc]
  | case3 prev gap c rest hc hword ih =>
    rw [Bool.and_eq_true, Bool.and_eq_true] at hword
    rw [marks, if_pos hspace, marks, if_neg hc, ih, marks, if_neg hc, hword.1.1]
  | case4 prev gap c rest hc hword ih =>
    rw [Bool.not_eq_true] at hword
    rw [marks, if_neg hc, ih, marks, if_neg hc]
    exact congrArg (fun space => (space, c) :: _) hword.symm

/-- The marks of a text are its visible characters, with a space where blanks divide words. -/
lemma getElem?_marks : (marks prev gap t)[i]? = some (m, c) ↔ (visible t)[i]? = some c ∧
    (m ↔ (i = 0 ∧ gap ∨ BlankBehind t i) ∧ isWord (before prev (visible t) i) ∧ isWordChar c) := by
  fun_induction marks prev gap t generalizing i with
  | case1 => simp [visible]
  | case2 prev gap d rest hd ih =>
    rw [visible_cons_blank hd, blankBehind_cons_blank hd]
    grind
  | case3 prev gap d rest hd ih =>
    rw [Bool.not_eq_true] at hd
    rw [visible_cons_of_not hd, blankBehind_cons_of_not hd]
    cases i with
    | zero => grind [before, isWord]
    | succ i =>
      simp only [getElem?_cons_succ, ih, before_cons_succ]
      simp

lemma map_marks (prev : Option Char) (gap : Bool) (t : Text) : (marks prev gap t).map (·.2) = visible t := by
  fun_induction marks prev gap t with
  | case1 => rfl
  | case2 prev gap c rest hc ih => rw [ih, visible_cons_blank hc]
  | case3 prev gap c rest hc ih => rw [map_cons, ih, visible_cons_of_not (by simpa using hc)]

/-- Between two words the mark is set exactly if a blank stands there. -/
lemma space_iff {d : Char} (hc : (visible t)[i]? = some c) (hd : (visible t)[i + 1]? = some d) (hcw : isWordChar c)
    (hdw : isWordChar d) : (marks none false t)[i + 1]? = some (true, d) ↔ BlankBehind t (i + 1) := by
  rw [getElem?_marks, before, Nat.add_sub_cancel, hc]
  simp [hd, hcw, hdw, isWord]

/-! ## Normal forms -/

lemma normalize_eq_iff_marks {a b : Text} : normalize a = normalize b ↔ marks none false a = marks none false b := by
  constructor
  · intro h
    rw [← marks_normalizeFrom none false a, ← marks_normalizeFrom none false b]
    exact congrArg (marks none false) h
  · intro h
    rw [normalize, normalize, normalizeFrom_eq_written, normalizeFrom_eq_written, h]

/-- A blank of a normal form is a space between two words, the first of which may end before the text. -/
lemma blank_of_normalizeFrom {x y : Text} (h : normalizeFrom prev gap t = x ++ c :: y) (hc : isBlank c) :
    c = ' ' ∧ isWord (before prev x x.length) ∧ isWord y.head? := by
  fun_induction normalizeFrom prev gap t generalizing x with
  | case1 => simp at h
  | case2 prev gap d rest hd ih => exact ih h
  | case3 prev gap d rest hd hword ih =>
    rcases x with _ | ⟨e, _ | ⟨f, x⟩⟩
    · obtain ⟨rfl, rfl⟩ := cons_eq_cons.mp h
      rw [Bool.and_eq_true, Bool.and_eq_true] at hword
      exact ⟨rfl, hword.1.2, hword.2⟩
    · simp_all
    · simp only [cons_append, cons.injEq] at h
      obtain ⟨-, rfl, h⟩ := h
      simpa [before_cons_succ] using ih h
  | case4 prev gap d rest hd hword ih =>
    rcases x with _ | ⟨e, x⟩
    · simp_all
    · obtain ⟨rfl, h'⟩ := cons_eq_cons.mp h
      simpa [before_cons_succ] using ih h'

/-- **Normal forms are canonical.** Texts with one normal form show the same characters and have blanks between the
same words. A normal form has only single spaces between words, and is its own normal form. -/
theorem normalize_canonical :
    (∀ a b, normalize a = normalize b ↔ visible a = visible b ∧ ∀ i c d, (visible a)[i]? = some c →
      (visible a)[i + 1]? = some d → isWordChar c → isWordChar d → (BlankBehind a (i + 1) ↔ BlankBehind b (i + 1))) ∧
    (∀ t x c y, normalize t = x ++ c :: y → isBlank c → c = ' ' ∧ isWord x.getLast? ∧ isWord y.head?) ∧
    (∀ t, normalize (normalize t) = normalize t) ∧ ∀ c, isBlank c → isWordChar c = false := by
  refine ⟨fun a b => ?_, fun t x c y h hc => ?_, fun t => ?_, fun c => isWordChar_of_isBlank⟩
  · rw [normalize_eq_iff_marks]
    constructor
    · intro h
      have hvisible : visible a = visible b := by rw [← map_marks none false a, h, map_marks]
      refine ⟨hvisible, fun i c d hc hd hcw hdw => ?_⟩
      rw [← space_iff hc hd hcw hdw, h, space_iff (hvisible ▸ hc) (hvisible ▸ hd) hcw hdw]
    · rintro ⟨hvisible, hgaps⟩
      refine ext_getElem? fun i => Option.ext fun mark => ?_
      obtain ⟨m, d⟩ := mark
      rw [getElem?_marks, getElem?_marks, ← hvisible]
      refine and_congr_right fun hd => iff_congr .rfl ?_
      cases i with
      | zero => simp [before, isWord]
      | succ i =>
        have hlt := (List.getElem?_eq_some_iff.mp hd).1
        have hc : (visible a)[i]? = some (visible a)[i] := getElem?_eq_getElem (by omega)
        have hbefore : before none (visible a) (i + 1) = some (visible a)[i] := by simp [before]
        rw [hbefore]
        have := hgaps i _ d hc hd
        tauto
  · obtain ⟨hspace, hbefore, hbehind⟩ := blank_of_normalizeFrom h hc
    refine ⟨hspace, ?_, hbehind⟩
    cases x using reverseRecOn with
    | nil => cases hbefore
    | append_singleton x d => simpa [before] using hbefore
  · rw [normalize_eq_iff_marks]
    exact marks_normalizeFrom none false t

end CppScaffold.Spacing
