import CppScaffold.Proofs.NestedBrackets
import CppScaffold.Proofs.TemplateDefaults
import CppScaffold.Proofs.TemplateNames

/-!
# Template statements

When the statement of an entity without defaults is the one written for the same parameters without them, and when the
arguments of the template are the names of its parameters.
-/

namespace CppScaffold.Mask

open Text List

/-! ## Balanced angle brackets -/

/-- The angle brackets of a text close each other, and it ends with no backslash that would escape what follows. -/
def Balanced (t : Text) : Prop := level 0 (marks '<' '>' false t) = some 0 ∧ escapes false t = false

instance (t : Text) : Decidable (Balanced t) := inferInstanceAs (Decidable (_ ∧ _))

variable {x : Text}

lemma Balanced.append {y : Text} (hx : Balanced x) (hy : Balanced y) : Balanced (x ++ y) := by
  refine ⟨?_, ?_⟩
  · rw [marks_append, hx.2, level_append hx.1, hy.1]
  · rw [escapes_append, hx.2, hy.2]

lemma balanced_of_isOrdinary (h : ∀ c ∈ x, IsOrdinary '<' '>' c) : Balanced x := by
  refine ⟨?_, escapes_of_notMem fun hmem => (h _ hmem).2.2 rfl⟩
  induction x with
  | nil => rfl
  | cons c x ih =>
    rw [marks_ordinary (h c mem_cons_self)]
    exact ih fun d hd => h d (mem_cons_of_mem c hd)

lemma Balanced.group (h : Balanced x) : Balanced ('<' :: (x ++ ['>'])) := by
  refine ⟨?_, ?_⟩
  · rw [delimiters_angleBrackets.marks_left, marks_append, h.2, level, level_append (level_add h.1 1)]
    rfl
  · rw [escapes, escapes_append]
    have hescapes : (!false && decide ('<' = '\\')) = false := by decide
    rw [hescapes, h.2]
    rfl

lemma balanced_join {l : List Text} (h : ∀ t ∈ l, Balanced t) : Balanced (join [','] l) := by
  induction l with
  | nil => exact ⟨rfl, rfl⟩
  | cons t l ih =>
    have htail := ih fun u hu => h u (mem_cons_of_mem t hu)
    by_cases hl : l = []
    · rw [hl, join_singleton]
      exact h t mem_cons_self
    · rw [join_cons _ _ hl]
      exact (h t mem_cons_self).append ((balanced_of_isOrdinary (forall_mem_singleton.mpr (by decide))).append htail)

lemma isOrdinary_of_isBlank {c : Char} (h : isBlank c) : IsOrdinary '<' '>' c := by
  refine ⟨?_, ?_, ?_⟩ <;> rintro rfl <;> exact absurd h (by decide)

lemma angleBrackets_group {y inner : Text} (hx : ∀ c ∈ x, IsOrdinary '<' '>' c) (h : Balanced inner) :
    angleBrackets (x ++ '<' :: (inner ++ '>' :: y)) true = x ++ '<' :: (all inner ++ '>' :: angleBrackets y true) := by
  rw [angleBrackets, angleBrackets, balanced_eq delimiters_angleBrackets, balanced_eq delimiters_angleBrackets,
    render_append hx, render_group delimiters_angleBrackets h.2 h.1]

end CppScaffold.Mask

namespace CppScaffold.Entity

open Text Recognizer Mask List

/-! ## Parameters -/

structure DefaultArgument where
  /-- The blanks before the equals sign. -/
  gap : Text
  value : Text
  gap_blank : gap.all isBlank := by decide
  value_ne_nil : value ≠ [] := by decide
  balanced : Balanced value := by decide

/-- A template parameter. Nothing is asked of the commas in it, so results hold for each way to divide a statement. -/
structure TemplateParameter where
  head : Text
  /-- The name, which is empty if the parameter has none. -/
  name : Text
  tail : Text
  default? : Option DefaultArgument
  balanced : Balanced (head ++ (name ++ tail)) := by decide
  visible : default?.isSome → (head ++ (name ++ tail)).getLast?.all (fun c => !isBlank c && c != '=') := by decide

namespace TemplateParameter

def declared (p : TemplateParameter) : Text := p.head ++ (p.name ++ p.tail)

def defaultText (p : TemplateParameter) : Text := p.default?.elim [] fun d => d.gap ++ '=' :: d.value

def written (p : TemplateParameter) : Text := p.declared ++ p.defaultText

def withoutDefault (p : TemplateParameter) : TemplateParameter := { p with default? := none, visible := nofun }

/-- No part of the default looks like the end of the parameter, and nothing before it looks like a default. -/
def Removable (p : TemplateParameter) : Prop := Undisturbed p.declared ∧ ∀ d ∈ p.default?, ',' ∉ d.value ∧ '>' ∉ d.value

instance (p : TemplateParameter) : Decidable p.Removable := inferInstanceAs (Decidable (_ ∧ ∀ d ∈ p.default?, _))

variable (p : TemplateParameter)

lemma balanced_written : Balanced p.written := by
  refine p.balanced.append ?_
  unfold defaultText
  cases p.default? with
  | none => exact ⟨rfl, rfl⟩
  | some d =>
    have hgap : Balanced d.gap :=
      balanced_of_isOrdinary fun c hc => isOrdinary_of_isBlank (all_eq_true.mp d.gap_blank c hc)
    have hequals : Balanced ['='] := by decide
    exact hgap.append (hequals.append d.balanced)

lemma isDefault_defaultText : IsDefault p.defaultText := by
  unfold defaultText
  cases p.default? with
  | none => exact .inl rfl
  | some d => exact .inr ⟨d.gap, d.value, rfl, all_eq_true.mp d.gap_blank, d.value_ne_nil⟩

lemma removable_iff {p : TemplateParameter} :
    p.Removable ↔ Undisturbed p.declared ∧ ∀ c ∈ p.defaultText, endsDefault c = false := by
  refine and_congr_right fun _ => ?_
  unfold defaultText
  cases p.default? with
  | none => simp
  | some d =>
    have hgap : ∀ c ∈ d.gap, endsDefault c = false := by
      refine fun c hc => Bool.eq_false_iff.mpr fun hends => ?_
      have hblank := not_isBlank_of_endsDefault hends
      rw [all_eq_true.mp d.gap_blank c hc] at hblank
      cases hblank
    have hvalue : (∀ c ∈ d.value, endsDefault c = false) ↔ ',' ∉ d.value ∧ '>' ∉ d.value := by
      simp only [Bool.eq_false_iff, ne_eq, endsDefault_iff]
      refine ⟨fun h => ⟨fun hmem => h _ hmem (.inl rfl), fun hmem => h _ hmem (.inr rfl)⟩, fun h c hc => ?_⟩
      rintro (rfl | rfl)
      · exact h.1 hc
      · exact h.2 hc
    have hequals : endsDefault '=' = false := by decide
    rw [Option.elim_some, forall_mem_append, forall_mem_cons, hvalue]
    refine ⟨fun h => ⟨hgap, hequals, h d rfl⟩, fun h d' hd' => ?_⟩
    obtain rfl := Option.some.inj hd'
    exact h.2.2

lemma getLast?_declared {p : TemplateParameter} (h : p.defaultText ≠ []) {c : Char}
    (hc : p.declared.getLast? = some c) : isBlank c = false ∧ c ≠ '=' := by
  have hsome : p.default?.isSome := by
    unfold defaultText at h
    cases hdefault : p.default? with
    | none => exact absurd (by rw [hdefault, Option.elim_none]) h
    | some d => rfl
  have hvisible := p.visible hsome
  rw [← declared, hc] at hvisible
  simpa using hvisible

end TemplateParameter

/-! ## Parameters in a row -/

open TemplateParameter

/-- The texts of some parameters, a comma before each of them and a closing angle bracket behind them. -/
def row (ts : List Text) : Text := ts.flatMap (',' :: ·) ++ ['>']

lemma row_cons (t : Text) (ts : List Text) : row (t :: ts) = ',' :: (t ++ row ts) := by
  simp [row]

lemma row_eq (t : Text) (ts : List Text) : row (t :: ts) = ',' :: (join [','] (t :: ts) ++ ['>']) := by
  induction ts generalizing t with
  | nil => rw [row_cons, join_singleton]; rfl
  | cons u ts ih => rw [row_cons, ih, join_cons _ t (by simp), append_assoc, append_assoc, singleton_append]

lemma head?_row (ts : List Text) : ∃ c, (row ts).head? = some c ∧ endsDefault c := by
  cases ts with
  | nil => exact ⟨'>', rfl, rfl⟩
  | cons t ts => exact ⟨',', by rw [row_cons]; rfl, rfl⟩

lemma removeAll_row_cons (p : TemplateParameter) (y : Text) :
    removeAll templateDefault (',' :: (p.written ++ y)) =
      ',' :: removeAll templateDefault (p.declared ++ (p.defaultText ++ y)) := by
  rw [removeAll_end rfl, written, append_assoc]

variable {ps : List TemplateParameter}

lemma removeAll_row (h : ∀ p ∈ ps, p.Removable) :
    removeAll templateDefault (row (ps.map written)) = row (ps.map declared) := by
  induction ps with
  | nil => decide
  | cons p ps ih =>
    obtain ⟨hp, hps⟩ := forall_mem_cons.mp h
    obtain ⟨hundisturbed, hfree⟩ := removable_iff.mp hp
    rw [map_cons, row_cons, removeAll_row_cons, removeAll_declared p.isDefault_defaultText hfree (head?_row _)
      hundisturbed fun hne c hc => getLast?_declared hne hc, ih hps, map_cons, row_cons]

/-- A comma or closing angle bracket in a default is one more than the parameters have without their defaults. -/
lemma count_row_le (c : Char) (ps : List TemplateParameter) :
    (row (ps.map declared)).count c ≤ (row (ps.map written)).count c ∧
    ((row (ps.map declared)).count c = (row (ps.map written)).count c → ∀ p ∈ ps, c ∉ p.defaultText) := by
  induction ps with
  | nil => simp
  | cons p ps ih =>
    obtain ⟨hle, hnot⟩ := ih
    rw [map_cons, map_cons, row_cons, row_cons, count_cons, count_cons, count_append,
      count_append, written, count_append]
    refine ⟨by omega, fun heq => forall_mem_cons.mpr ⟨count_eq_zero.mp (by omega), hnot (by omega)⟩⟩

/-- If no default holds a comma or closing angle bracket, then no parameter gets longer than its declared part. -/
lemma length_removeAll_row_le (hfree : ∀ p ∈ ps, ∀ c ∈ p.defaultText, endsDefault c = false) :
    (removeAll templateDefault (row (ps.map written))).length ≤ (row (ps.map declared)).length ∧
    ((removeAll templateDefault (row (ps.map written))).length = (row (ps.map declared)).length →
      ∀ p ∈ ps, Undisturbed p.declared) := by
  induction ps with
  | nil => exact ⟨by decide, by simp⟩
  | cons p ps ih =>
    obtain ⟨hfirst, hrest⟩ := forall_mem_cons.mp hfree
    obtain ⟨hle, hundisturbed⟩ := ih hrest
    obtain ⟨hle', hundisturbed'⟩ :=
      length_removeAll_le p.isDefault_defaultText hfirst (head?_row (ps.map written)) p.declared
    rw [map_cons, map_cons, row_cons, row_cons, removeAll_row_cons, length_cons, length_cons, length_append]
    exact ⟨by omega, fun heq => forall_mem_cons.mpr ⟨hundisturbed' (by omega), hundisturbed (by omega)⟩⟩

/-- **The defaults and nothing else are taken out of a row of parameters just if all of them are removable.** -/
theorem removeAll_row_iff :
    removeAll templateDefault (row (ps.map written)) = row (ps.map declared) ↔ ∀ p ∈ ps, p.Removable := by
  refine ⟨fun h => ?_, removeAll_row⟩
  have hnot : ∀ c, endsDefault c → ∀ p ∈ ps, c ∉ p.defaultText := by
    intro c hc
    refine (count_row_le c ps).2 ?_
    rw [← h, count_removeAll hc]
  have hfree : ∀ p ∈ ps, ∀ c ∈ p.defaultText, endsDefault c = false := by
    intro p hp c hmem
    by_contra hc
    exact hnot c (by simpa using hc) p hp hmem
  have hundisturbed := (length_removeAll_row_le hfree).2 (by rw [h])
  exact fun p hp => removable_iff.mpr ⟨hundisturbed p hp, hfree p hp⟩

/-! ## Names -/

namespace TemplateParameter

/-- The argument that stands for a parameter: its name, with dots if it is a pack. -/
def argument? (p : TemplateParameter) : Option Text :=
  if p.name = [] then none else some (if endsWithDots p.head then p.name ++ "..." else p.name)

/-- The parameter can be told from its text: its brackets are nested and enclose its commas, and it ends with a name
behind another word just if it has one. -/
structure Legible (p : TemplateParameter) : Prop where
  nested : Nested p.declared
  no_backslash : '\\' ∉ p.declared
  no_equals : '=' ∉ p.declared
  commas : ∀ i, p.declared[i]? = some ',' → Enclosed p.declared i
  named : p.name ≠ [] → EndsWithName p.declared p.head p.name
  unnamed : p.name = [] → ∀ head name, ¬ EndsWithName p.declared head name

lemma parameterName?_declared {p : TemplateParameter} (h : p.Legible) : parameterName? p.declared = p.argument? := by
  unfold argument?
  by_cases hname : p.name = []
  · rw [if_pos hname]
    exact parameterName?_eq_none_iff.mpr (h.unnamed hname)
  · rw [if_neg hname]
    exact parameterName?_eq_some_iff.mpr ⟨p.head, p.name, h.named hname, rfl⟩

end TemplateParameter

/-- What is read between the visible commas of joined texts is read from the texts. -/
lemma filterMap_findAllFrom_join {f : Text → Option Text} (hf : f [] = none) {mask : Text → Text}
    (hlength : ∀ t, (mask t).length = t.length) {ts : List Text} (h : ∀ t ∈ ts, ',' ∉ mask t) (pre : Text)
    (prev : Option Char) :
    (findAllFrom (some1 (· != ',')) prev pre.length 0 (join [','] (ts.map mask))).filterMap
      (fun s => f (Text.extract (pre ++ join [','] ts) s)) = ts.filterMap f := by
  induction ts generalizing pre prev with
  | nil => rfl
  | cons t ts ih =>
    obtain ⟨ht, h⟩ := forall_mem_cons.mp h
    have hrun : ∀ c ∈ mask t, (c != ',') := fun c hc => bne_iff_ne.mpr (ne_of_mem_of_not_mem hc ht)
    have hfirst : ∀ z, (if mask t = [] then [] else [(⟨pre.length, pre.length + (mask t).length⟩ : Span)]).filterMap
        (fun s => f (Text.extract (pre ++ (t ++ z)) s)) = [t].filterMap f := by
      intro z
      by_cases hnil : mask t = []
      · have ht : t = [] := length_eq_zero_iff.mp (by rw [← hlength, hnil, length_nil])
        rw [if_pos hnil, ht, filterMap_cons_none hf]
        rfl
      · rw [if_neg hnil, hlength]
        simp [filterMap_cons, extract_append]
    by_cases hts : ts = []
    · have hlast := hfirst []
      rw [append_nil] at hlast
      rw [hts, map_singleton, join_singleton, join_singleton, findAllFrom_all hrun, hlast]
    · rw [map_cons, join_cons _ (mask t) (by simpa using hts), join_cons _ t hts, singleton_append, singleton_append,
        findAllFrom_append_separator hrun rfl, filterMap_append, hfirst, hlength]
      have htail := ih h (pre ++ (t ++ [','])) none
      simp only [length_append, length_singleton, append_assoc, singleton_append] at htail
      rw [Nat.add_assoc, htail]
      exact (filterMap_append ..).symm

lemma maskKinds_join (h : ∀ p ∈ ps, p.Legible) :
    maskKinds Bracket.kinds (join [','] (ps.map declared)) =
      join [','] ((ps.map declared).map (maskKinds Bracket.kinds)) := by
  induction ps with
  | nil => exact eq_all_of_maskedForm (maskedForm_maskKinds Bracket.kinds (all []))
  | cons p ps ih =>
    obtain ⟨hp, h⟩ := forall_mem_cons.mp h
    by_cases hps : ps = []
    · rw [hps, map_singleton, map_singleton, join_singleton, join_singleton]
    · rw [map_cons, map_cons, join_cons _ p.declared (by simpa using hps),
        join_cons _ (maskKinds _ _) (by simpa using hps), maskKinds_append hp.nested hp.no_backslash, singleton_append,
        maskKinds_plain _ rfl (by decide), ih h, singleton_append]

lemma comma_notMem_maskKinds {p : TemplateParameter} (h : p.Legible) : ',' ∉ maskKinds Bracket.kinds p.declared := by
  intro hmem
  obtain ⟨i, hi⟩ := mem_iff_getElem?.mp hmem
  have hcomma := (maskedForm_maskKinds Bracket.kinds p.declared).getElem?_of_visible hi (by decide)
  exact (maskKinds_shows_iff h.nested h.no_backslash hcomma (.inl rfl)).mp hi (h.commas i hcomma)

lemma equals_notMem_join (h : ∀ p ∈ ps, p.Legible) : '=' ∉ join [','] (ps.map declared) := by
  intro hmem
  rcases mem_join hmem with hmem | ⟨t, ht, hmem⟩
  · exact absurd hmem (by decide)
  · obtain ⟨p, hp, rfl⟩ := mem_map.mp ht
    exact (h p hp).no_equals hmem

/-- **The names of legible parameters are read from their statement.** -/
theorem parameterNames_join (h : ∀ p ∈ ps, p.Legible) :
    parameterNames (join [','] (ps.map declared)) = ps.filterMap argument? := by
  have hmask : nestedGroups (join [','] (ps.map declared)) =
      join [','] ((ps.map declared).map (maskKinds Bracket.kinds)) := by
    rw [nestedGroups_eq_maskKinds fun c _ hinside => equals_notMem_join h (hinside.subset (by simp)), maskKinds_join h]
  have hcommas : ∀ t ∈ ps.map declared, ',' ∉ maskKinds Bracket.kinds t :=
    forall_mem_map.mpr fun p hp => comma_notMem_maskKinds (h p hp)
  have hread := filterMap_findAllFrom_join (f := fun t => parameterName? (t.takeWhile (· != '='))) rfl
    (fun t => (maskedForm_maskKinds Bracket.kinds t).length_eq) hcommas [] none
  rw [parameterNames, hmask]
  refine hread.trans ?_
  rw [filterMap_map]
  refine filterMap_congr fun p hp => ?_
  have hequals : p.declared.takeWhile (· != '=') = p.declared :=
    takeWhile_eq_self_iff.mpr fun c hc => bne_iff_ne.mpr (ne_of_mem_of_not_mem hc (h p hp).no_equals)
  rw [Function.comp_apply, hequals, parameterName?_declared (h p hp)]

/-! ## The statement of an entity -/

/-- The word that begins a template statement. -/
def keyword : Text := "template"

def statement (gap : Text) (ps : List TemplateParameter) : Text :=
  keyword ++ (gap ++ '<' :: (join [','] (ps.map written) ++ ['>']))

/-- The text in which the template statements of an entity are looked for, without comments and indentation. -/
def statementText (e : Entity) : Text :=
  e.removeIndentation (removeComments (e.document.getText ⟨e.trueStart, e.declarationStart⟩))

lemma statement_withoutDefault (gap : Text) (ps : List TemplateParameter) :
    statement gap (ps.map withoutDefault) = keyword ++ (gap ++ '<' :: (join [','] (ps.map declared) ++ ['>'])) := by
  have hwritten : (ps.map withoutDefault).map written = ps.map declared := by
    rw [map_map]
    exact map_congr_left fun p _ => append_nil p.declared
  rw [statement, hwritten]

lemma balanced_parameters (ps : List TemplateParameter) : Balanced (join [','] (ps.map written)) :=
  balanced_join (forall_mem_map.mpr fun p _ => p.balanced_written)

lemma maskedTemplate_eq :
    maskedTemplate = andThen boundary (andThen (exactly keyword) (optional (andThen blanks (emptyPair '<' '>')))) := rfl

section Statement

variable {gap : Text} (hgap : ∀ c ∈ gap, isBlank c = true) (ps : List TemplateParameter)
include hgap

lemma isOrdinary_of_mem_keyword : ∀ c ∈ keyword ++ gap, IsOrdinary '<' '>' c := by
  have hkeyword : keyword.all (fun c => IsOrdinary '<' '>' c) := by decide
  exact forall_mem_append.mpr ⟨by simpa using hkeyword, fun c hc => isOrdinary_of_isBlank (hgap c hc)⟩

lemma removeAll_statement_iff :
    removeAll templateDefault (statement gap ps) = statement gap (ps.map withoutDefault) ↔ ∀ p ∈ ps, p.Removable := by
  have hequals : '=' ∉ keyword ++ gap ++ ['<'] := by
    intro hmem
    rcases mem_append.mp hmem with hmem | hmem
    · rcases mem_append.mp hmem with hmem | hmem
      · exact absurd hmem (by decide)
      · exact absurd (hgap _ hmem) (by decide)
    · exact absurd hmem (by decide)
  have hlast : ∀ c, (keyword ++ gap ++ ['<']).getLast? = some c → isBlank c = false := by
    intro c hc
    rw [getLast?_concat] at hc
    obtain rfl := Option.some.inj hc
    decide
  have hsplit : ∀ y, keyword ++ (gap ++ '<' :: y) = keyword ++ gap ++ ['<'] ++ y := by simp
  rw [statement_withoutDefault, statement, hsplit, hsplit, removeAll_passed hequals hlast, append_cancel_left_eq,
    ← removeAll_row_iff]
  cases ps with
  | nil => decide
  | cons p ps =>
    -- the comma that a row has before its first parameter is kept
    rw [map_cons, map_cons, row_eq, row_eq, removeAll_end rfl, cons_inj_right]

lemma maskedTemplate_accepts {b : Text} (hb : ∀ c ∈ b, isBlank c) (y : Text) :
    maskedTemplate none (keyword ++ (gap ++ '<' :: (b ++ ['>'])) ++ y) =
      some (keyword ++ (gap ++ '<' :: (b ++ ['>']))).length := by
  have hpair : ∀ prev, andThen blanks (emptyPair '<' '>') prev (gap ++ '<' :: (b ++ '>' :: y)) =
      some (gap.length + (b.length + 2)) := by
    intro prev
    refine andThen_eq_some_iff.mpr ⟨gap.length, b.length + 2, ?_, ?_, rfl⟩
    · rw [blanks, many_eq_some_iff, takeWhile_append_cons hgap rfl]
    · rw [drop_left]
      exact (emptyPair_eq_some_iff rfl).mpr ⟨b, y, rfl, hb, rfl⟩
  have hsplit : keyword ++ (gap ++ '<' :: (b ++ ['>'])) ++ y = keyword ++ (gap ++ '<' :: (b ++ '>' :: y)) := by simp
  have hboundary : boundary none (keyword ++ (gap ++ '<' :: (b ++ '>' :: y))) = some 0 := rfl
  rw [hsplit, maskedTemplate_eq, andThen_eq_some_iff]
  refine ⟨0, _, hboundary, ?_, (Nat.zero_add _).symm⟩
  rw [drop_zero, andThen_eq_some_iff]
  refine ⟨keyword.length, gap.length + (b.length + 2), exactly_eq_some_iff.mpr ⟨prefix_append .., rfl⟩, ?_, ?_⟩
  · rw [drop_left, Recognizer.optional, hpair, Option.getD_some]
  · simp

end Statement

/-! ## Finding the statement -/

lemma findAllFrom_eq_nil {r : Recognizer} {t : Text} (h : ∀ prev u n, u <:+ t → r prev u ≠ some (n + 1)) (x : Text)
    (prev : Option Char) (offset : Nat) : findAllFrom r prev offset x.length (x ++ t) = [] := by
  induction x generalizing prev offset with
  | cons c x ih =>
    exact ih (some c) (offset + 1)
  | nil =>
    rw [nil_append, length_nil]
    induction t generalizing prev offset with
    | nil => rfl
    | cons c t ih =>
      have hrest := ih (fun prev u n hu => h prev u n (hu.trans (suffix_cons c t))) (some c) (offset + 1)
      rw [findAllFrom]
      split
      next n hn => exact absurd hn (h prev _ n (suffix_refl _))
      next => exact hrest

/-- What is accepted at the start of a text is all that is found, if nothing is accepted behind it. -/
lemma findAll_eq_singleton {r : Recognizer} {x t : Text} (hx : x ≠ []) (haccepted : r none (x ++ t) = some x.length)
    (h : ∀ prev u n, u <:+ t → r prev u ≠ some (n + 1)) : findAll r (x ++ t) = [⟨0, x.length⟩] := by
  obtain ⟨c, x, rfl⟩ := exists_cons_of_ne_nil hx
  rw [cons_append, length_cons] at haccepted
  rw [findAll, cons_append, findAllFrom]
  simp only [haccepted]
  rw [findAllFrom_eq_nil h, Nat.zero_add, length_cons]

lemma between_inside (x body : Text) :
    between (x ++ '<' :: (body ++ ['>'])) (x.length + 1) ((x ++ '<' :: (body ++ ['>'])).length - 1) = body := by
  have hsplit : x ++ '<' :: (body ++ ['>']) = x ++ ['<'] ++ (body ++ ['>']) := by simp
  have hextract := extract_append (x ++ ['<']) body ['>']
  rw [Text.extract, length_append, length_singleton] at hextract
  have hstop : (x ++ '<' :: (body ++ ['>'])).length - 1 = x.length + 1 + body.length := by
    simp only [length_append, length_cons, length_nil]
    omega
  rw [hstop, hsplit, hextract]

section Entity

variable {e : Entity} {gap rest : Text} {ps : List TemplateParameter} (htemplate : e.isTemplate = true)
  (hgap : ∀ c ∈ gap, isBlank c = true) (hrest : ¬ keyword <:+: rest) (htext : e.statementText = statement gap ps ++ rest)

lemma maskedTemplate_ne_some {m : Text} (h : ¬ keyword <:+: m) (prev : Option Char) (u : Text) (n : Nat)
    (hu : u <:+ m) : maskedTemplate prev u ≠ some (n + 1) := by
  intro hsome
  obtain ⟨_, _, hboundary, hword, -⟩ := andThen_eq_some_iff.mp hsome
  obtain ⟨-, rfl⟩ := boundary_eq_some_iff.mp hboundary
  obtain ⟨_, _, hkeyword, -⟩ := andThen_eq_some_iff.mp hword
  exact h ((exactly_eq_some_iff.mp hkeyword).1.isInfix.trans hu.isInfix)

include htemplate hgap hrest htext

lemma templateStatements_eq : e.templateStatements true = [removeAll templateDefault (statement gap ps)] := by
  have hmask : angleBrackets (statement gap ps ++ rest) true =
      keyword ++ (gap ++ '<' :: (Mask.all (join [','] (ps.map written)) ++ ['>'])) ++ angleBrackets rest true := by
    have hgroup := angleBrackets_group (y := rest) (isOrdinary_of_mem_keyword hgap) (balanced_parameters ps)
    rw [statement]
    simpa using hgroup
  have hbehind : ¬ keyword <:+: angleBrackets rest true := by
    intro hinside
    exact hrest ((maskedForm_angleBrackets rest true).infix_of_visible hinside (by decide))
  have hfound : findAll maskedTemplate (angleBrackets (statement gap ps ++ rest) true) =
      [⟨0, (statement gap ps).length⟩] := by
    rw [hmask, findAll_eq_singleton (by simp) (maskedTemplate_accepts hgap (fun c hc => isBlank_of_mem_all hc) _)
      (maskedTemplate_ne_some hbehind), statement]
    simp [Mask.all]
  have hextract : extract (statement gap ps ++ rest) ⟨0, (statement gap ps).length⟩ = statement gap ps := by
    have hall := extract_append [] (statement gap ps) rest
    rwa [nil_append, length_nil, Nat.zero_add] at hall
  have hlast : (statement gap ps).getLast? = some '>' := by
    rw [statement, ← cons_append, ← append_assoc, ← append_assoc, getLast?_concat]
  unfold templateStatements
  rw [if_pos htemplate, ← statementText, htext]
  dsimp only
  rw [hfound, map_singleton, hextract, hlast, if_neg (by decide), if_pos rfl]

/-- The arguments of the template are the names of its parameters. -/
lemma templateParameters_eq (hunspecialized : e.isUnspecializedTemplate) (hremovable : ∀ p ∈ ps, p.Removable)
    (hlegible : ∀ p ∈ ps, p.Legible) : e.templateParameters = '<' :: join ", " (ps.filterMap argument?) ++ ['>'] := by
  have hstatements := templateStatements_eq htemplate hgap hrest htext
  rw [(removeAll_statement_iff hgap ps).mpr hremovable, statement_withoutDefault, ← append_assoc] at hstatements
  have hspecialized : e.isSpecializedTemplate = false := by
    rw [isSpecializedTemplate, hunspecialized, Bool.not_true, Bool.and_false]
  have hleft : find? ['<'] (keyword ++ gap ++ '<' :: (join [','] (ps.map declared) ++ ['>'])) =
      some (keyword ++ gap).length := by
    refine find?_singleton_eq_some_iff.mpr ⟨keyword ++ gap, _, rfl, rfl, fun hmem => ?_⟩
    exact (isOrdinary_of_mem_keyword hgap _ hmem).1 rfl
  unfold templateParameters
  rw [hspecialized, hstatements, if_neg Bool.false_ne_true, getLast?_singleton]
  dsimp only
  rw [hleft]
  dsimp only
  rw [between_inside, parameterNames_join hlegible]

/-- **The template statement without defaults.** It is the one written for the same parameters without defaults just if
all are removable, and then its angle brackets are balanced. The arguments of a template are the names of its
parameters if these are legible too. -/
theorem templateStatements_withoutDefault_iff :
    (e.templateStatements true = [statement gap (ps.map withoutDefault)] ↔ ∀ p ∈ ps, p.Removable) ∧
    Balanced (statement gap (ps.map withoutDefault)) ∧
    ((∀ p ∈ ps, p.Removable) → (∀ p ∈ ps, p.Legible) → e.isUnspecializedTemplate = true →
      e.templateParameters = '<' :: join ", " (ps.filterMap argument?) ++ ['>']) := by
  refine ⟨?_, (balanced_of_isOrdinary (isOrdinary_of_mem_keyword hgap)).append (balanced_parameters _).group,
    fun hremovable hlegible hunspecialized => ?_⟩
  · rw [templateStatements_eq htemplate hgap hrest htext, List.cons.injEq, removeAll_statement_iff hgap]
    exact and_iff_left rfl
  · exact templateParameters_eq htemplate hgap hrest htext hunspecialized hremovable hlegible

end Entity

def classBelow (t : Text) : Entity where
  document := { uri := "file:///p/b.h", text := t ++ "\nclass B \x7b\x7d;\n", opening := 0 }
  node := ⟨⟨"B", "B", [], .classType, ⟨⟨0, 0⟩, ⟨1, 10⟩⟩, ⟨⟨1, 6⟩, ⟨1, 7⟩⟩, []⟩, []⟩

/-- Parameters with a pack and a template among them, and one that has no name. -/
def mixedParameters : List TemplateParameter :=
  [{ head := "typename ", name := "T", tail := [], default? := some { gap := " ", value := " int" } },
    { head := " class... ", name := "Ts", tail := [], default? := none },
    { head := " template<class, int> class ", name := "C", tail := [], default? := none },
    { head := " int", name := [], tail := [], default? := some { gap := " ", value := " 4" } }]

lemma legible_mixedParameters : ∀ p ∈ mixedParameters, p.Legible := by
  have hcommas : ∀ {t : Text}, ',' ∉ t → ∀ i, t[i]? = some ',' → Enclosed t i :=
    fun h i hi => absurd (mem_of_getElem? hi) h
  have henclosed : ∀ i, " template<class, int> class C".toList[i]? = some ',' →
      Enclosed " template<class, int> class C" i := by
    intro i hi
    have hlt : i < 29 := (List.getElem?_eq_some_iff.mp hi).1
    have hplace : ∀ j < 29, " template<class, int> class C".toList[j]? = some ',' → j = 15 := by decide
    obtain rfl := hplace i hlt hi
    exact ⟨.angleBrackets, " template", "class, int", " class C", rfl, nested_of_plain (by decide), by decide,
      by decide⟩
  have hnamed : ∀ {head name : Text}, name.head?.any isIdentifierStart → name.all isWordChar →
      head.getLast?.all (!isWordChar ·) → EndsWithWord head → EndsWithName (head ++ (name ++ [])) head name := by
    intro head name hstart hword hapart hbehind
    obtain ⟨c, hc, hstart⟩ := (Option.any_eq_true ..).mp hstart
    obtain ⟨rest, hrest⟩ := head?_eq_some_iff.mp hc
    refine ⟨⟨[], rfl, by simp⟩, ⟨c, rest, hrest, hstart⟩, all_eq_true.mp hword, fun d hd => ?_, hbehind⟩
    rw [hd] at hapart
    simpa using hapart
  unfold mixedParameters
  simp only [forall_mem_cons]
  have htemplate : Nested " template<class, int> class C" :=
    nested_append (x := " template") (by decide) (.group .angleBrackets (nested_of_plain (t := "class, int") (by decide))
      (nested_of_plain (t := " class C") (by decide)))
  refine ⟨⟨nested_of_plain (by decide), by decide, by decide, hcommas (by decide),
      fun _ => hnamed rfl rfl rfl (by decide), fun h => absurd h (by decide)⟩,
    ⟨nested_of_plain (by decide), by decide, by decide, hcommas (by decide), fun _ => hnamed rfl rfl rfl (by decide),
      fun h => absurd h (by decide)⟩,
    ⟨htemplate, by decide, by decide, henclosed, fun _ => hnamed rfl rfl rfl (by decide), fun h => absurd h (by decide)⟩,
    ⟨nested_of_plain (by decide), by decide, by decide, hcommas (by decide), fun h => absurd rfl h,
      fun _ => parameterName?_eq_none_iff.mp rfl⟩, by simp⟩

theorem templateStatements_withoutDefault_iff_mixed :
    (∀ p ∈ mixedParameters, p.Removable) ∧
    (classBelow (statement " " mixedParameters)).templateStatements true =
      [statement " " (mixedParameters.map withoutDefault)] ∧
    (classBelow (statement " " mixedParameters)).templateParameters = "<T, Ts..., C>".toList := by
  have hremovable : ∀ p ∈ mixedParameters, p.Removable := by decide +kernel
  have htemplate : (classBelow (statement " " mixedParameters)).isTemplate = true := by decide +kernel
  have hunspecialized : (classBelow (statement " " mixedParameters)).isUnspecializedTemplate = true := by
    decide +kernel
  have hgap : " ".toList.all isBlank = true := by decide
  have htext : (classBelow (statement " " mixedParameters)).statementText = statement " " mixedParameters ++ "\n" := by
    decide +kernel
  have harguments : '<' :: join ", ".toList (mixedParameters.filterMap argument?) ++ ['>'] = "<T, Ts..., C>" := by
    decide +kernel
  obtain ⟨hstatements, -, hparameters⟩ :=
    templateStatements_withoutDefault_iff htemplate (List.all_eq_true.mp hgap) (by decide +kernel) htext
  exact ⟨hremovable, hstatements.mpr hremovable,
    (hparameters hremovable legible_mixedParameters hunspecialized).trans harguments⟩

/-- Parameters of which one has a template with arguments for its default, and one is a pointer. -/
def nestedDefaults : List TemplateParameter :=
  [{ head := "class ", name := "T", tail := [], default? := some { gap := " ", value := " A<int>" } },
    { head := " int* ", name := "P", tail := [], default? := some { gap := " ", value := " nullptr" } }]

/-- The default ends with its own closing angle bracket, so that one of them is left over, and no name is read any more. -/
theorem not_templateStatements_withoutDefault :
    (classBelow (statement [] nestedDefaults)).isTemplate = true ∧
    (classBelow (statement [] nestedDefaults)).isUnspecializedTemplate = true ∧
    (classBelow (statement [] nestedDefaults)).statementText = statement [] nestedDefaults ++ "\n" ∧
    statement [] (nestedDefaults.map withoutDefault) = "template<class T, int* P>" ∧
    (classBelow (statement [] nestedDefaults)).templateStatements true = ["template<class T>, int* P>"] ∧
    ¬ Balanced "template<class T>, int* P>" ∧
    nestedDefaults.filterMap argument? = ["T", "P"] ∧
    (classBelow (statement [] nestedDefaults)).templateParameters = "<>" := by
  decide +kernel

end CppScaffold.Entity
