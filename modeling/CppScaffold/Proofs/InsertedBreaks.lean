import CppScaffold.Proofs.Recognizers
import CppScaffold.Proofs.Starts

/-!
# Line breaks of inserted code

Code is inserted with the line breaks of its old place, which formatting changes only where the document uses the long
one.
-/

namespace CppScaffold

open Text Recognizer List

namespace Text

/-- The line breaks of a text, in order. -/
def breaks : Text → List Text
  | [] => []
  | '\r' :: '\n' :: rest => ['\r', '\n'] :: breaks rest
  | c :: rest => if isBreak c then [c] :: breaks rest else breaks rest

/-- The lines of the text end with a line feed or with the long line break. -/
inductive Lined : Text → Prop where
  | nil : Lined []
  | char {c : Char} {t : Text} (hc : isBreak c = false) (h : Lined t) : Lined (c :: t)
  | feed {t : Text} (h : Lined t) : Lined ('\n' :: t)
  | long {t : Text} (h : Lined t) : Lined ('\r' :: '\n' :: t)

lemma breaks_cons_feed (t : Text) : breaks ('\n' :: t) = ['\n'] :: breaks t := rfl

lemma breaks_cons_long (t : Text) : breaks ('\r' :: '\n' :: t) = ['\r', '\n'] :: breaks t := rfl

lemma breaks_cons {c : Char} (hc : isBreak c = false) (t : Text) : breaks (c :: t) = breaks t := by
  rw [breaks]
  · rw [hc]
    rfl
  · rintro _ rfl
    cases hc

variable {t s : Text}

lemma mem_breaks {b : Text} (h : b ∈ breaks t) : b = ['\r'] ∨ b = ['\n'] ∨ b = ['\r', '\n'] := by
  fun_induction breaks t with
  | case1 => cases h
  | case2 rest ih =>
    rcases mem_cons.mp h with rfl | h
    · exact .inr (.inr rfl)
    · exact ih h
  | case3 c rest _ hc ih =>
    rcases mem_cons.mp h with rfl | h
    · rw [isBreak, Bool.or_eq_true, beq_iff_eq, beq_iff_eq] at hc
      rcases hc with rfl | rfl
      · exact .inl rfl
      · exact .inr (.inl rfl)
    · exact ih h
  | case4 c rest _ hc ih => exact ih h

lemma lined_iff : Lined t ↔ ['\r'] ∉ breaks t := by
  constructor
  · intro h
    induction h with
    | nil => exact not_mem_nil
    | char hc _ ih => rwa [breaks_cons hc]
    | feed _ ih => simpa [breaks_cons_feed] using ih
    | long _ ih => simpa [breaks_cons_long] using ih
  · intro h
    fun_induction breaks t with
    | case1 => exact .nil
    | case2 rest ih => exact .long (ih fun hmem => h (mem_cons_of_mem _ hmem))
    | case3 c rest _ hc ih =>
      rw [isBreak, Bool.or_eq_true, beq_iff_eq, beq_iff_eq] at hc
      rcases hc with rfl | rfl
      · exact absurd mem_cons_self h
      · exact .feed (ih fun hmem => h (mem_cons_of_mem _ hmem))
    | case4 c rest _ hc ih => exact .char (by simpa using hc) (ih h)

lemma Lined.of_breaks_eq (hs : Lined s) (h : breaks t = breaks s) : Lined t :=
  lined_iff.mpr (h ▸ lined_iff.mp hs)

lemma breaks_append (hs : Lined s) (t : Text) : breaks (s ++ t) = breaks s ++ breaks t := by
  induction hs with
  | nil => rfl
  | char hc _ ih => rw [cons_append, breaks_cons hc, breaks_cons hc, ih]
  | feed _ ih => rw [cons_append, breaks_cons_feed, breaks_cons_feed, ih, cons_append]
  | long _ ih =>
    rw [cons_append, cons_append, breaks_cons_long, breaks_cons_long, ih, cons_append]

lemma Lined.append (hs : Lined s) (ht : Lined t) : Lined (s ++ t) := by
  rw [lined_iff, breaks_append hs, mem_append, not_or]
  exact ⟨lined_iff.mp hs, lined_iff.mp ht⟩

lemma breaks_noBreak_append (h : ∀ c ∈ s, isBreak c = false) (t : Text) :
    breaks (s ++ t) = breaks t := by
  induction s with
  | nil => rfl
  | cons c s ih =>
    obtain ⟨hc, h⟩ := forall_mem_cons.mp h
    rw [cons_append, breaks_cons hc, ih h]

/-- A line feed followed by something that holds no line break. -/
lemma breaks_replaceFrom_feed {lead : Text} (hlead : ∀ c ∈ lead, isBreak c = false) (h : Lined t) :
    breaks (replaceFrom ['\n'] ('\n' :: lead) 0 t) = breaks t := by
  have hfeed : ∀ u, replaceFrom ['\n'] ('\n' :: lead) 0 ('\n' :: u) =
      '\n' :: (lead ++ replaceFrom ['\n'] ('\n' :: lead) 0 u) := fun u => by simp [replaceFrom]
  have hother : ∀ {c : Char} u, c ≠ '\n' → replaceFrom ['\n'] ('\n' :: lead) 0 (c :: u) =
      c :: replaceFrom ['\n'] ('\n' :: lead) 0 u := fun u hc => by simp [replaceFrom, Ne.symm hc]
  induction h with
  | nil => rfl
  | @char c t hc _ ih =>
    rw [hother t (by rintro rfl; cases hc), breaks_cons hc, breaks_cons hc, ih]
  | @feed t _ ih => rw [hfeed, breaks_cons_feed, breaks_noBreak_append hlead, ih, breaks_cons_feed]
  | @long t _ ih =>
    rw [hother _ (by decide), hfeed, breaks_cons_long, breaks_noBreak_append hlead, ih, breaks_cons_long]

lemma breaks_removeFrom {r : Recognizer}
    (hr : ∀ prev t n, r prev t = some (n + 1) → ∀ c ∈ t.take (n + 1), isBreak c = false)
    (h : Lined t) (prev : Option Char) (skip : Nat) :
    breaks (replaceAllFrom r (fun _ => []) prev skip t) = breaks (t.drop skip) := by
  -- a line break is never part of what is taken out
  have hkept : ∀ {c : Char} prev u, isBreak c → replaceAllFrom r (fun _ => []) prev 0 (c :: u) =
      c :: replaceAllFrom r (fun _ => []) (some c) 0 u := by
    intro c prev u hc
    rw [replaceAllFrom]
    split
    next n hn => exact absurd hc (by rw [hr _ _ _ hn c mem_cons_self]; decide)
    next => rfl
  induction h generalizing prev skip with
  | nil => rw [replaceAllFrom, drop_nil]
  | @char c t hc _ ih =>
    cases skip with
    | succ skip => exact ih _ _
    | zero =>
      rw [replaceAllFrom]
      split
      next n hn =>
        have hpart := (forall_mem_cons.mp (hr _ _ _ hn)).2
        rw [nil_append, ih, drop_zero, breaks_cons hc, ← breaks_noBreak_append hpart, take_append_drop]
      next => rw [breaks_cons hc, ih, drop_zero, drop_zero, breaks_cons hc]
  | @feed t _ ih =>
    cases skip with
    | succ skip => exact ih _ _
    | zero => rw [hkept _ _ rfl, breaks_cons_feed, ih, drop_zero, drop_zero, breaks_cons_feed]
  | @long t _ ih =>
    cases skip with
    | succ skip =>
      cases skip with
      | succ skip => exact ih _ _
      | zero => rw [replaceAllFrom, hkept _ _ rfl, breaks_cons_feed, ih]; rfl
    | zero => rw [hkept _ _ rfl, hkept _ _ rfl, breaks_cons_long, ih]; rfl

end Text

namespace TextDocument

variable (d : TextDocument)

lemma eol_cases : d.eol = ['\n'] ∨ d.eol = ['\r', '\n'] := by
  rw [eol]
  split
  · exact .inr rfl
  · exact .inl rfl

lemma lined_eol : Lined d.eol := by
  rcases d.eol_cases with h | h
  · exact h ▸ .feed .nil
  · exact h ▸ .long .nil

lemma breaks_eol : breaks d.eol = [d.eol] := by
  rcases d.eol_cases with h | h <;> rw [h] <;> rfl

lemma breaks_eol_append (t : Text) : breaks (d.eol ++ t) = d.eol :: breaks t := by
  rw [breaks_append d.lined_eol, d.breaks_eol, singleton_append]

lemma isBreak_indentation (line : Int) {c : Char} (hc : c ∈ (d.lineAt line).indentation) :
    isBreak c = false :=
  d.isBreak_of_mem_between (d.min_lt_lineCount _) (Nat.le_refl _) (Nat.le_refl _) (takeWhile_subset _ hc)

end TextDocument

namespace Placement

variable {t : Text} (d : TextDocument)

lemma breaks_convertBreaks (h : Lined t) :
    breaks (convertBreaks d.eol t) = (breaks t).map fun _ => d.eol := by
  induction h with
  | nil => rfl
  | @char c t hc _ ih =>
    rw [convertBreaks]
    · rw [(Bool.or_eq_false_iff.mp hc).2, if_neg (by decide), breaks_cons hc, ih, breaks_cons hc]
    · rintro _ rfl
      cases hc
  | @feed t _ ih | @long t _ ih => exact (d.breaks_eol_append _).trans (congrArg _ ih)

lemma breaks_indentLinesFrom {lead : Text} (hlead : ∀ c ∈ lead, isBreak c = false) (h : Lined t)
    (prev : Option Char) : breaks (indentLinesFrom lead prev t) = breaks t := by
  induction h generalizing prev with
  | nil => rfl
  | char hc _ ih =>
    rw [indentLinesFrom]
    split
    · rw [breaks_noBreak_append hlead, breaks_cons hc, breaks_cons hc, ih]
    · rw [breaks_cons hc, breaks_cons hc, ih]
  | feed _ ih =>
    rw [indentLinesFrom, if_neg (by simp [isBreak]), breaks_cons_feed, ih, breaks_cons_feed]
  | long _ ih =>
    rw [indentLinesFrom, if_neg (by simp [isBreak]), indentLinesFrom, if_neg (by simp [isBreak]),
      breaks_cons_long, ih, breaks_cons_long]

lemma breaks_removeAll_specifierIndent {indentation : Text}
    (hindentation : ∀ c ∈ indentation, isBreak c = false) (h : Lined t) :
    breaks (removeAll (specifierIndent indentation) t) = breaks t := by
  refine breaks_removeFrom (fun prev u n hn c hc => hindentation c ?_) h none 0
  rw [specifierIndent, andThen_eq_some_iff] at hn
  obtain ⟨a, b, hindent, hspecifier, hlength⟩ := hn
  obtain ⟨hstart, rfl⟩ := exactly_eq_some_iff.mp hindent
  obtain ⟨_, rfl⟩ := ahead_eq_some_iff.mp hspecifier
  rwa [hlength, Nat.add_zero, ← prefix_iff_eq_take.mp hstart] at hc

/-! ## Formatted texts -/

/-- The line breaks that a text has when it comes to a document: where the document uses the long one, all of them are
replaced. -/
def arrivingBreaks (d : TextDocument) (t : Text) : List Text :=
  if d.eol = ['\n'] then breaks t else (breaks t).map fun _ => d.eol

lemma breaks_arriving (h : Lined t) :
    breaks (if d.eol != ['\n'] then convertBreaks d.eol t else t) = arrivingBreaks d t := by
  rw [arrivingBreaks]
  by_cases heol : d.eol = ['\n']
  · rw [if_neg (by simp [heol]), if_pos heol]
  · rw [if_pos (by simp [heol]), if_neg heol, breaks_convertBreaks d h]

lemma lined_arriving (h : Lined t) :
    Lined (if d.eol != ['\n'] then convertBreaks d.eol t else t) := by
  rw [lined_iff, breaks_arriving d h, arrivingBreaks]
  split
  · exact lined_iff.mp h
  · intro hmem
    obtain ⟨_, _, heol⟩ := mem_map.mp hmem
    rcases d.eol_cases with h | h <;> rw [h] at heol <;> cases heol

/-- A text with the given line breaks and, before and behind them, some of the document. -/
structure Framed (d : TextDocument) (bs : List Text) (t : Text) : Prop where
  lined : Lined t
  breaks_eq : ∃ m n, breaks t = List.replicate m d.eol ++ (bs ++ List.replicate n d.eol)

namespace Framed

variable {d : TextDocument} {bs : List Text} {t : Text}

lemma of_breaks_eq (h : Framed d bs t) {u : Text} (hu : breaks u = breaks t) : Framed d bs u :=
  ⟨h.lined.of_breaks_eq hu, hu ▸ h.breaks_eq⟩

lemma eol_append (h : Framed d bs t) : Framed d bs (d.eol ++ t) := by
  obtain ⟨m, n, hbreaks⟩ := h.breaks_eq
  refine ⟨d.lined_eol.append h.lined, m + 1, n, ?_⟩
  rw [d.breaks_eol_append, hbreaks, replicate_succ, cons_append]

lemma append_eol (h : Framed d bs t) : Framed d bs (t ++ d.eol) := by
  obtain ⟨m, n, hbreaks⟩ := h.breaks_eq
  refine ⟨h.lined.append d.lined_eol, m, n + 1, ?_⟩
  rw [breaks_append h.lined, d.breaks_eol, hbreaks, replicate_succ', append_assoc, append_assoc]

lemma append_noBreak (h : Framed d bs t) {lead : Text} (hlead : ∀ c ∈ lead, isBreak c = false) :
    Framed d bs (t ++ lead) := by
  have hnone := breaks_noBreak_append hlead []
  rw [append_nil] at hnone
  exact h.of_breaks_eq (by rw [breaks_append h.lined, hnone, breaks, append_nil])

lemma ite {u : Text} (ht : Framed d bs t) (c : Prop) [Decidable c] (hu : Framed d bs u) :
    Framed d bs (if c then t else u) := by
  split
  · exact ht
  · exact hu

end Framed

/-- Formatting changes no line break of a text that has arrived, and adds only breaks of the document. -/
lemma framed_format (p : Placement) (d : TextDocument) {level indentation : Text} (ht : Lined t)
    (hlevel : ∀ c ∈ level, isBreak c = false) (hindentation : ∀ c ∈ indentation, isBreak c = false)
    (indentNamespaceBody : Bool) :
    Framed d (arrivingBreaks d t) (p.format t d level indentation indentNamespaceBody) := by
  have hlead : ∀ c ∈ (d.lineAt ((p.relativeTo.map (·.start)).getD p.position).line).indentation, isBreak c = false :=
    fun c hc => d.isBreak_indentation _ hc
  -- one step after the other, in the order of the definition
  have harrived : Framed d (arrivingBreaks d t) (if d.eol != ['\n'] then convertBreaks d.eol t else t) :=
    ⟨lined_arriving d ht, 0, 0, by rw [breaks_arriving d ht]; simp⟩
  have hleveled := (harrived.of_breaks_eq (breaks_indentLinesFrom hlevel harrived.lined none)).ite
    (p.indents indentNamespaceBody) harrived
  have hindented := (hleveled.of_breaks_eq (breaks_replaceFrom_feed hlead hleveled.lined)).ite p.before
    (hleveled.of_breaks_eq (breaks_indentLinesFrom hlead hleveled.lined none))
  have hspecified := hindented.ite indentation.isEmpty
    (hindented.of_breaks_eq (breaks_removeAll_specifierIndent hindentation hindented.lined))
  have hspaced : ∀ {u}, Framed d (arrivingBreaks d t) u →
      Framed d (arrivingBreaks d t)
        (if p.after then (if p.nextTo || p.isCrowded d then d.eol else d.eol ++ d.eol) ++ u
          else if p.before then u ++ (if p.nextTo || p.isCrowded d then d.eol else d.eol ++ d.eol) else u) := by
    intro u hu
    by_cases hclose : p.nextTo || p.isCrowded d
    · rw [if_pos hclose]
      exact hu.eol_append.ite p.after (hu.append_eol.ite p.before hu)
    · rw [if_neg hclose, append_assoc, ← append_assoc u]
      exact hu.eol_append.eol_append.ite p.after (hu.append_eol.append_eol.ite p.before hu)
  have hended := (hspaced hspecified).append_eol.ite (p.position.line = (d.lineCount : Int) - 1) (hspaced hspecified)
  exact (hended.append_noBreak hlead).ite p.before hended

/-- An indentation that puts no line break before a line, neither as it is written nor as a template. -/
def StaysInLine (indentation : Json) : Prop :=
  ∀ t, indentation = .str t → ∀ level, level = t ∨ Template.expand t = .ok level → ∀ c ∈ level, isBreak c = false

lemma framed_formatWith {p : Placement} {out : Text} {d : TextDocument} {indentation : Json}
    {indentNamespaceBody : Bool} (h : p.formatWith t d indentation indentNamespaceBody = .ok out) (ht : Lined t)
    (hindentation : StaysInLine indentation) : Framed d (arrivingBreaks d t) out := by
  unfold formatWith at h
  split at h
  next written =>
    have hwritten : ∀ c ∈ written, isBreak c = false := hindentation written rfl written (.inl rfl)
    by_cases hindents : p.indents indentNamespaceBody
    · rw [if_pos hindents] at h
      obtain ⟨level, hlevel, h⟩ := exists_ok_of_bind h
      obtain rfl := Except.ok.inj h
      exact framed_format p d ht (hindentation written rfl level (.inr hlevel)) hwritten indentNamespaceBody
    · rw [if_neg hindents] at h
      obtain rfl := Except.ok.inj h
      exact framed_format p d ht hwritten hwritten indentNamespaceBody
  next =>
    split at h
    · obtain rfl := Except.ok.inj h
      exact framed_format p d ht (forall_mem_nil _) (forall_mem_nil _) indentNamespaceBody
    · cases h

/-- **Inserted code takes over the line breaks of the document, except from the long one to the short one**: all are
those of the document if and only if it uses the long break or the text has none. -/
theorem formatted_breaks_iff {p : Placement} {t out : Text} {d : TextDocument} {indentation : Json}
    {indentNamespaceBody : Bool} (h : p.formatWith t d indentation indentNamespaceBody = .ok out)
    (ht : ['\r'] ∉ breaks t) (hindentation : StaysInLine indentation) :
    (∀ b ∈ breaks out, b = d.eol) ↔ (['\r', '\n'] ∈ breaks t → d.eol = ['\r', '\n']) := by
  obtain ⟨m, n, hbreaks⟩ := (framed_formatWith h (lined_iff.mpr ht) hindentation).breaks_eq
  have hout : (∀ b ∈ breaks out, b = d.eol) ↔ ∀ b ∈ arrivingBreaks d t, b = d.eol := by
    rw [hbreaks]
    simp only [List.mem_append, List.mem_replicate]
    constructor
    · intro hall b hb
      exact hall b (.inr (.inl hb))
    · rintro hall b (⟨_, rfl⟩ | hb | ⟨_, rfl⟩)
      exacts [rfl, hall b hb, rfl]
  rw [hout, arrivingBreaks]
  rcases d.eol_cases with heol | heol
  · rw [if_pos heol]
    constructor
    · intro hall hmem
      exact (hall _ hmem).symm
    · intro hlong b hb
      rcases mem_breaks hb with rfl | rfl | rfl
      · exact absurd hb ht
      · exact heol.symm
      · exact (hlong hb).symm
  · rw [if_neg (by rw [heol]; decide)]
    refine iff_of_true (fun b hb => ?_) fun _ => heol
    obtain ⟨_, _, rfl⟩ := List.mem_map.mp hb
    rfl

lemma staysInLine_spaces : StaysInLine (.str [' ', ' ']) := by
  rintro t ⟨⟩ level hlevel
  obtain rfl : level = [' ', ' '] := hlevel.elim id fun h => (Except.ok.inj h).symm
  exact forall_mem_cons.mpr ⟨rfl, forall_mem_singleton.mpr rfl⟩

/-- A member function with short breaks that goes into an indented class with long ones. -/
theorem formatted_breaks_iff_shortIntoLong :
    let d : TextDocument := { uri := [], text := ['{', '\r', '\n', ' ', 'x', ';', '\r', '\n', '}'] }
    let p : Placement := { position := ⟨1, 3⟩, after := true }
    let t : Text := ['f', '\n', '\n', 'g']
    ∃ out, p.formatWith t d (.str [' ', ' ']) true = .ok out ∧
      out = ['\r', '\n', '\r', '\n', ' ', 'f', '\r', '\n', '\r', '\n', ' ', 'g'] ∧ ['\r'] ∉ breaks t ∧
      ∀ b ∈ breaks out, b = d.eol := by
  intro d p t
  have hreturn : ['\r'] ∉ breaks t := by decide
  have hformat : p.formatWith t d (.str [' ', ' ']) true =
      .ok ['\r', '\n', '\r', '\n', ' ', 'f', '\r', '\n', '\r', '\n', ' ', 'g'] := rfl
  exact ⟨_, hformat, rfl, hreturn, (formatted_breaks_iff hformat hreturn staysInLine_spaces).mpr fun _ => rfl⟩

/-- The long break of a text stays in a document with short ones. -/
theorem long_break_stays :
    let d : TextDocument := { uri := [], text := ['a', ';', '\n', 'b', ';', '\n'] }
    let p : Placement := { position := ⟨0, 2⟩, after := true, nextTo := true }
    let t : Text := ['f', '\r', '\n', 'g']
    ['\r'] ∉ breaks t ∧ ∃ out, p.formatWith t d (.str [' ', ' ']) true = .ok out ∧
      breaks out = [['\n'], ['\r', '\n']] ∧ ¬ ∀ b ∈ breaks out, b = d.eol := by
  refine ⟨by decide, ['\n', 'f', '\r', '\n', 'g'], rfl, rfl, ?_⟩
  decide

end Placement

end CppScaffold
