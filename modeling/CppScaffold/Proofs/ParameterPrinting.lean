import CppScaffold.Proofs.DeclarationPrinting

/-!
# Parameter lists printed and read again

Printed parameters are read again with the same types, names and default values
(`parse_declarations_keeps_parameters`), if each stays readable (`Printable`) and the last one does not turn into dots.
A single one is read as it was (`ReadsAs`), and printed ones can stand one after the other (`ListsAs`).
-/

namespace CppScaffold

open Text Recognizer Mask List Lexeme Layer ParameterList
open Layer renaming parameters → layer

namespace Parameter

/-- What a parameter says, without regard to spacing and to where it stands. -/
def content (p : Parameter) : Text × Text × Text := (p.normalizedType, p.name, p.defaultValue)

/-- A parameter that can be read again once it is printed. -/
structure Printable (p : Parameter) : Prop where
  ne_nil : withDefault p ≠ []
  /-- The text before the name ends in no line comment. -/
  comment : p.name ≠ [] → ¬ EndsInComment (p.type.take p.nameIndex)
  /-- No comment and no literal is read across the place from which the name was taken. -/
  scan : scan p.type = scan (p.type.take p.nameIndex) ++ scan (p.type.drop p.nameIndex)

variable {x raw gap y t d : Text} {p : Parameter} {c : Char}

lemma endsInComment_iff :
    EndsInComment x ↔ (scan x).getLast?.any (· matches .token .lineComment _) := by
  constructor
  · rintro ⟨w, hw⟩
    rw [hw]
    rfl
  · intro h
    match hl : (scan x).getLast?, h with
    | some (.token .lineComment w), _ => exact ⟨w, hl⟩

instance (x : Text) : Decidable (EndsInComment x) := decidable_of_iff' _ endsInComment_iff

instance (p : Parameter) : Decidable p.Printable :=
  decidable_of_iff (withDefault p ≠ [] ∧ (p.name ≠ [] → ¬ EndsInComment (p.type.take p.nameIndex)) ∧
      scan p.type = scan (p.type.take p.nameIndex) ++ scan (p.type.drop p.nameIndex))
    ⟨fun ⟨hne, hcomment, hscan⟩ => ⟨hne, hcomment, hscan⟩, fun h => ⟨h.ne_nil, h.comment, h.scan⟩⟩

/-! ## One parameter -/

lemma declaration_eq_compose (h : p.raw ≠ "...") :
    p.declaration = compose (p.type, p.name, p.nameIndex) := by
  rw [declaration, withName, isVariadic, if_neg (by simpa using h)]
  rfl

lemma declaration_of_dots (h : p.raw = "...") : p.declaration = p.raw := by
  rw [declaration, withName, isVariadic, if_pos (by simp [h])]

lemma withDefault_of_nil (h : p.defaultValue = []) : withDefault p = p.declaration := by
  rw [withDefault, if_pos (by simp [h])]

lemma ofText_of_plain (h : '=' ∉ layer.mask raw) :
    ofText raw = ⟨raw, (partsOf raw).1, (partsOf raw).2.1, [], ⟨.zero, .zero⟩, (partsOf raw).2.2⟩ := by
  rw [ofText, ofPiece, find?_singleton_eq_none_iff.mpr h, partsOf]

lemma ofText_of_default {m : Text} (hcut : layer.Cut (x ++ gap) ('=' :: y)) (hgap : layer.Cut x gap)
    (hm : layer.mask ('=' :: y) = '=' :: m) (hequals : '=' ∉ layer.mask x)
    (hlast : ∀ c, (layer.mask x).getLast? = some c → isBlank c = false) (hblank : ∀ c ∈ layer.mask gap, isBlank c) :
    ofText (x ++ gap ++ '=' :: y) =
      ⟨x ++ gap ++ '=' :: y, (partsOf x).1, (partsOf x).2.1, trim y, ⟨.zero, .zero⟩, (partsOf x).2.2⟩ := by
  have hmask : layer.mask (x ++ gap ++ '=' :: y) = layer.mask x ++ layer.mask gap ++ '=' :: m := by
    rw [layer.mask_append hcut, layer.mask_append hgap, hm]
  have hlength : (layer.mask x ++ layer.mask gap).length = (x ++ gap).length := by
    rw [← layer.mask_append hgap, (layer.maskedForm _).length_eq]
  have hfind : find? ['='] (layer.mask (x ++ gap ++ '=' :: y)) = some (x ++ gap).length := by
    refine find?_singleton_eq_some_iff.mpr ⟨_, _, hmask, hlength, ?_⟩
    rw [mem_append, not_or]
    exact ⟨hequals, fun hmem => absurd (hblank _ hmem) (by decide)⟩
  have htrim : trimEnd ((layer.mask (x ++ gap ++ '=' :: y)).take (x ++ gap).length) = layer.mask x := by
    rw [hmask, take_left' hlength, trimEnd, dropEndWhile_append hblank, dropEndWhile_eq_self hlast]
  have hsource : (source.mask (x ++ gap ++ '=' :: y)).take x.length = source.mask x := by
    rw [source.mask_append hcut.1, source.mask_append hgap.1, append_assoc, take_left' (source.maskedForm x).length_eq]
  have htake : (x ++ gap ++ '=' :: y).take x.length = x := by rw [append_assoc, take_left]
  rw [ofText, ofPiece, hfind]
  dsimp only
  rw [htrim, (layer.maskedForm x).length_eq, htake, hsource, drop_length_add_append, drop_succ_cons,
    drop_zero, partsOf]

lemma Respaced.trimmed {anew : Text} (h : Respaced t anew) (ht : Trimmed (layer.mask t)) :
    Trimmed (layer.mask anew) := by
  refine ⟨fun hnil => ht.ne_nil ?_, fun c hc => ht.head c (h.head_mask ▸ hc), fun c hc => ht.last c (h.last_mask ▸ hc)⟩
  rw [← head?_eq_none_iff, ← h.head_mask, hnil]
  rfl

lemma Respaced.notMem {anew : Text} (h : Respaced t anew) (hc : c ≠ ' ') (ht : c ∉ layer.mask t) :
    c ∉ layer.mask anew :=
  fun hmem => (h.mem_mask c hmem).elim hc ht

/-- The second text is read as the first one is, and can stand where it stands. -/
structure ReadsAs (raw d : Text) : Prop where
  within : layer.Within d raw
  closed : ¬ layer.Swallows d
  no_comma : ',' ∉ layer.mask d
  core : ∃ gap raw', d = gap ++ raw' ∧ (∀ c ∈ gap, isBlank c) ∧ (gap = [] ∨ '=' ∈ layer.mask raw') ∧
    Trimmed (layer.mask raw') ∧ (ofText raw').content = (ofText raw).content

lemma not_swallows_of_trimmed (h : Trimmed (layer.mask x)) : ¬ layer.Swallows x := by
  obtain ⟨c, hc⟩ := Option.ne_none_iff_exists'.mp (mt getLast?_eq_none_iff.mp h.ne_nil)
  exact layer.not_swallows_of_visible hc (h.last c hc)

lemma cut_of_blank (h : ∀ c ∈ gap, isBlank c) (y : Text) : layer.Cut gap y :=
  layer.cut_separator (isSeparator_of_isBlank h) (fun c hc => h c (mem_of_mem_getLast? hc)) y

lemma isBlank_mask (h : ∀ c ∈ gap, isBlank c) (hc : c ∈ layer.mask gap) : isBlank c := by
  obtain ⟨i, hi⟩ := getElem?_of_mem hc
  by_cases hspace : c = ' '
  · exact hspace ▸ by decide
  · exact h c (mem_of_getElem? ((layer.maskedForm gap).getElem?_of_visible hi hspace))

lemma ReadsAs.of_core {raw' : Text} (hgap : ∀ c ∈ gap, isBlank c) (hequals : gap = [] ∨ '=' ∈ layer.mask raw')
    (hwithin : layer.Within raw' raw) (htrimmed : Trimmed (layer.mask raw')) (hcomma : ',' ∉ layer.mask raw')
    (hcontent : (ofText raw').content = (ofText raw).content) : ReadsAs raw (gap ++ raw') := by
  have hcut := cut_of_blank hgap raw'
  refine ⟨?_, fun hswallows => ?_, ?_, gap, raw', rfl, hgap, hequals, htrimmed, hcontent⟩
  · exact .append hcut (.inl fun c hc => hgap c (mem_of_mem_getLast? hc))
      (within_separator (isSeparator_of_isBlank hgap) raw) hwithin
  · refine not_swallows_of_trimmed htrimmed (layer.swallows_append hcut ?_ hswallows)
    rintro rfl
    exact htrimmed.ne_nil (length_eq_zero_iff.mp (layer.maskedForm []).length_eq)
  · rw [layer.mask_append hcut, mem_append, not_or]
    exact ⟨fun hmem => absurd (isBlank_mask hgap hmem) (by decide), hcomma⟩

lemma ReadsAs.of_trimmed (hwithin : layer.Within d raw) (htrimmed : Trimmed (layer.mask d))
    (hcomma : ',' ∉ layer.mask d) (hcontent : (ofText d).content = (ofText raw).content) : ReadsAs raw d :=
  ⟨hwithin, not_swallows_of_trimmed htrimmed, hcomma, [], d, rfl, by simp, .inl rfl, htrimmed, hcontent⟩

lemma readsAs_plain (h : PieceOf t raw) (hp : (ofText raw).Printable)
    (hequals : '=' ∉ layer.mask raw) : ReadsAs raw (withDefault (ofText raw)) := by
  have hread := ofText_of_plain hequals
  generalize hparts : partsOf raw = parts at hread
  by_cases hdots : raw = "..."
  · have hprinted : withDefault (ofText raw) = raw := by
      rw [withDefault_of_nil (by rw [hread]), declaration_of_dots (by rwa [hread]), hread]
    rw [hprinted]
    exact .of_trimmed (.refl raw) h.trimmed h.no_comma rfl
  · have hprinted : withDefault (ofText raw) = compose parts := by
      rw [withDefault_of_nil (by rw [hread]), declaration_eq_compose (by rwa [hread]), hread]
    rw [hread] at hp
    obtain ⟨hrespaced, hname, htype⟩ := partsOf_compose h.fine hparts hp.comment hp.scan
    rw [hprinted]
    refine .of_trimmed hrespaced.within (hrespaced.trimmed h.trimmed)
      (hrespaced.notMem (by decide) h.no_comma) ?_
    rw [hread, ofText_of_plain (hrespaced.notMem (by decide) hequals)]
    simp only [content, normalizedType, hname, htype]

/-- A parameter with a default value, cut before and after its equals sign. -/
structure Defaulted (raw x gap y : Text) : Prop where
  written : raw = x ++ gap ++ '=' :: y
  cut : layer.Cut (x ++ gap) ('=' :: y)
  cut_gap : layer.Cut x gap
  cut_equals : layer.Cut ['='] y
  equals : '=' ∉ layer.mask x
  last : ∀ c, (layer.mask x).getLast? = some c → isBlank c = false
  blank : ∀ c ∈ layer.mask gap, isBlank c

lemma exists_defaulted (hfine : layer.Fine raw) (hequals : '=' ∈ layer.mask raw) :
    ∃ x gap y, Defaulted raw x gap y := by
  obtain ⟨a, b, hmask, ha⟩ := eq_append_cons_of_mem hequals
  obtain ⟨z, y, rfl, hz, hy, hcut, hcut'⟩ := layer.cut_around hfine hmask
    (stands_parameters (by decide) (by decide)) (by decide)
  obtain ⟨g, hg, hblank⟩ := exists_eq_dropEndWhile_append isBlank a
  obtain ⟨x, gap, rfl, hx, hgap, hcut''⟩ := layer.cut_end (layer.fine_of_cut hfine hcut).1
    (hz.trans hg) (gap_parameters hblank) fun c hc => getLast?_dropEndWhile hc
  refine ⟨x, gap, y, rfl, hcut, hcut'', hcut', ?_, ?_, hgap ▸ hblank⟩
  · rw [hg, mem_append, not_or] at ha
    exact hx ▸ ha.1
  · rw [hx]
    exact fun c hc => getLast?_dropEndWhile hc

namespace Defaulted

variable {raw x gap y : Text} (h : Defaulted raw x gap y)

include h

lemma mask_equals : layer.mask ('=' :: y) = '=' :: layer.mask y := by
  have hequals : layer.mask ['='] = ['='] := by decide
  rw [← singleton_append, layer.mask_append h.cut_equals]
  rfl

lemma ofText_eq : ofText raw = ⟨raw, (partsOf x).1, (partsOf x).2.1, trim y, ⟨.zero, .zero⟩, (partsOf x).2.2⟩ := by
  rw [h.written]
  exact ofText_of_default h.cut h.cut_gap h.mask_equals h.equals h.last h.blank

lemma mask_eq : layer.mask raw = layer.mask x ++ (layer.mask gap ++ '=' :: layer.mask y) := by
  rw [h.written, layer.mask_append h.cut, layer.mask_append h.cut_gap, h.mask_equals, append_assoc]

lemma within_declaration : layer.Within x raw := by
  rw [h.written]
  exact (within_left h.cut_gap).trans (within_left h.cut)

lemma within_value : layer.Within y raw := by
  rw [h.written]
  exact (within_right h.cut_equals).trans (within_right h.cut)

lemma apart (hfine : layer.Fine raw) : layer.Apart x y := by
  have hapart := layer.apart_of_cut (h.written ▸ hfine) h.cut
  exact (layer.apart_of_append_left h.cut_gap
    (layer.apart_of_append_right (y := ['=']) h.cut_equals hapart).2).1

lemma fine (hfine : layer.Fine raw) : layer.Fine x :=
  (layer.fine_of_cut (layer.fine_of_cut (h.written ▸ hfine) h.cut).1 h.cut_gap).1

lemma trimmed (hraw : Trimmed (layer.mask raw)) (hx : x ≠ []) : Trimmed (layer.mask x) := by
  have hne := (layer.maskedForm x).ne_nil hx
  refine ⟨hne, fun c hc => hraw.head c ?_, h.last⟩
  rw [h.mask_eq, head?_append_of_ne_nil _ hne, hc]

end Defaulted

/-- A declaration that stands before a default value; there may be none. -/
structure BeforeDefault (raw d : Text) : Prop where
  trimmed : d ≠ [] → Trimmed (layer.mask d)
  no_equals : '=' ∉ layer.mask d
  no_comma : ',' ∉ layer.mask d
  within : layer.Within d raw

structure ValueOf (raw v : Text) : Prop where
  trimmed : Trimmed v
  last : ∀ c, (layer.mask v).getLast? = some c → isBlank c = false
  no_comma : ',' ∉ layer.mask v
  within : layer.Within v raw

lemma mask_nil : layer.mask [] = [] :=
  length_eq_zero_iff.mp (layer.maskedForm []).length_eq

lemma BeforeDefault.closed (h : BeforeDefault raw d) : ¬ layer.Swallows d := by
  by_cases hd : d = []
  · rw [hd]
    exact layer.not_swallows_separator (by simp)
  · exact not_swallows_of_trimmed (h.trimmed hd)

lemma BeforeDefault.last (h : BeforeDefault raw d) (hc : (layer.mask d).getLast? = some c) : isBlank c = false := by
  by_cases hd : d = []
  · rw [hd] at hc
    cases hc
  · exact (h.trimmed hd).last c hc

lemma isBlank_of_mem_gap (hgap : (d = [] ∧ gap = []) ∨ (d ≠ [] ∧ gap = [' '])) : ∀ c ∈ gap, isBlank c := by
  rcases hgap with ⟨_, rfl⟩ | ⟨_, rfl⟩ <;> simp [isBlank]

section

variable {raw d gap v : Text} (hd : BeforeDefault raw d) (hv : ValueOf raw v) (hapart : layer.Apart d v)
  (hgap : (d = [] ∧ gap = []) ∨ (d ≠ [] ∧ gap = [' ']))

include hd hapart hgap

/-- A default value that is printed behind a declaration is found there again. -/
lemma defaulted_of_printed : Defaulted (d ++ gap ++ '=' :: ' ' :: v) d gap (' ' :: v) := by
  have hblank := isBlank_of_mem_gap hgap
  have hseparator := isSeparator_of_isBlank hblank
  have hhead : ∀ c, gap.head? = some c → layer.special c = false :=
    fun _ => special_gap hblank
  have hcutGap : layer.Cut d gap := layer.cut_before_separator hd.closed hseparator hhead
  have hequals : ∀ c ∈ ['=', ' '], isSeparator c := by simp [isSeparator, isBlank]
  have hcut : layer.Cut (d ++ gap) ('=' :: ' ' :: v) := by
    refine layer.cut_of_apart ?_ (.inl ?_) ?_
    · refine layer.apart_append_right (y := ['=', ' ']) (layer.cut_separator hequals (by simp [isBlank]) v)
        (.inl (by simp [isBlank])) (layer.apart_separator hequals _).1 ?_
      exact layer.apart_append_left hcutGap (.inr hhead) hapart (layer.apart_separator hseparator v).2
    · rcases hgap with ⟨rfl, rfl⟩ | ⟨_, rfl⟩ <;> simp [isBlank]
    · rcases hgap with ⟨rfl, rfl⟩ | ⟨_, rfl⟩
      · exact layer.not_swallows_separator (by simp)
      · exact fun hswallows => layer.not_swallows_separator hseparator
          (layer.swallows_append hcutGap (by simp) hswallows)
  refine ⟨rfl, hcut, hcutGap, ?_, hd.no_equals, fun c hc => hd.last hc, fun c hc => isBlank_mask hblank hc⟩
  exact layer.cut_before_space (layer.not_swallows_separator (by simp [isSeparator]))
    (layer.apart_separator (by simp [isSeparator]) v).2

include hv

lemma readsAs_value (front : Text) (hfront : ∀ c ∈ front, isBlank c)
    (hcontent : (ofText raw).content = (Spacing.normalizeSource (partsOf d).1, (partsOf d).2.1, v)) :
    ReadsAs raw (front ++ (d ++ gap ++ '=' :: ' ' :: v)) := by
  have h := defaulted_of_printed hd hapart hgap
  have hmask : layer.mask (d ++ gap ++ '=' :: ' ' :: v) =
      layer.mask d ++ (gap ++ '=' :: ' ' :: layer.mask v) := by
    have hmaskGap : layer.mask gap = gap := by
      rcases hgap with ⟨_, rfl⟩ | ⟨_, rfl⟩
      · exact mask_nil
      · rw [layer.mask_space, mask_nil]
    rw [h.mask_eq, hmaskGap, layer.mask_space]
  have hvne := (layer.maskedForm v).ne_nil hv.trimmed.ne_nil
  have hblank := isBlank_of_mem_gap hgap
  have hlast : ∀ c, (d ++ gap).getLast? = some c → isBlank c := by
    rcases hgap with ⟨rfl, rfl⟩ | ⟨_, rfl⟩ <;> simp [isBlank]
  refine .of_core hfront (.inr ?_) ?_ ⟨?_, ?_, ?_⟩ ?_ ?_
  · rw [hmask]
    simp
  · refine .append h.cut (.inl hlast) ?_ ?_
    · exact .append h.cut_gap (.inr fun _ => special_gap hblank) hd.within
        (within_separator (isSeparator_of_isBlank hblank) raw)
    · refine .append (x := ['=']) h.cut_equals (.inr ?_) (within_separator (by simp [isSeparator]) raw)
        (within_space hv.within)
      rintro c ⟨⟩
      exact layer.special_of_isBlank rfl
  · rw [hmask]
    simp
  · intro c hc
    rw [hmask] at hc
    rcases hgap with ⟨rfl, rfl⟩ | ⟨hne, rfl⟩
    · rw [mask_nil] at hc
      obtain rfl : '=' = c := Option.some.inj hc
      decide
    · rw [head?_append_of_ne_nil _ (hd.trimmed hne).ne_nil] at hc
      exact (hd.trimmed hne).head c hc
  · intro c hc
    refine hv.last c ?_
    rwa [hmask, ← append_assoc, append_cons, append_cons, getLast?_append_of_ne_nil _ hvne] at hc
  · rw [hmask]
    intro hmem
    simp only [mem_append, mem_cons] at hmem
    rcases hmem with hmem | hmem | hmem | hmem | hmem
    · exact hd.no_comma hmem
    · exact absurd (hblank _ hmem) (by decide)
    · cases hmem
    · cases hmem
    · exact hv.no_comma hmem
  · have htrim : trim (' ' :: v) = v := by
      have := hv.trimmed.trim_append (l := [' ']) (r := []) (by simp [isBlank]) (by simp)
      simpa using this
    rw [hcontent, h.ofText_eq, htrim]
    simp only [content, normalizedType]

end

/-- The value behind the equals sign ends with a visible character. -/
lemma Defaulted.exists_value (h : Defaulted raw x gap y) (hraw : PieceOf t raw) (hy : trim y ≠ []) :
    ∃ l, y = l ++ trim y ∧ layer.Cut l (trim y) ∧ ValueOf raw (trim y) := by
  have hlastMask : ∀ c, (layer.mask y).getLast? = some c → isBlank c = false := by
    intro c hc
    refine hraw.trimmed.last c ?_
    rw [h.mask_eq, ← append_assoc, append_cons, getLast?_append, hc]
    rfl
  have hvisible : isAllBlank y = false := by
    rw [Bool.eq_false_iff]
    intro hall
    refine hy ?_
    rw [trim, trimStart, dropWhile_eq_nil_iff.mpr (all_eq_true.mp hall)]
    rfl
  obtain ⟨l, core, r, rfl, hl, hr, hcore⟩ := exists_core hvisible
  obtain rfl : r = [] := by
    refine eq_nil_of_last (x := l ++ core) hr fun c hc => ?_
    rw [append_assoc] at hc
    exact (layer.maskedForm _).getLast?_visible hlastMask hc
  have hcut := cut_of_blank hl core
  rw [hcore.trim_append hl hr]
  rw [append_nil] at h hlastMask ⊢
  have hmask := layer.mask_append hcut
  refine ⟨l, rfl, hcut, hcore, fun c hc => hlastMask c ?_, fun hmem => hraw.no_comma ?_,
    (within_right hcut).trans h.within_value⟩
  · rw [hmask, getLast?_append_of_ne_nil _ ((layer.maskedForm core).ne_nil hcore.ne_nil), hc]
  · rw [h.mask_eq, hmask]
    simp [hmem]

/-- A declaration before a default value, with other blanks. -/
lemma Defaulted.beforeDefault (h : Defaulted raw x gap y) (hraw : PieceOf t raw) (hrespaced : Respaced x d) :
    BeforeDefault raw d := by
  refine ⟨fun hd => hrespaced.trimmed (h.trimmed hraw.trimmed ?_), hrespaced.notMem (by decide) h.equals,
    hrespaced.notMem (by decide) fun hmem => hraw.no_comma ?_, hrespaced.within.trans h.within_declaration⟩
  · rintro rfl
    have := hrespaced.head_mask
    rw [mask_nil, head?_nil, head?_eq_none_iff] at this
    exact (layer.maskedForm d).ne_nil hd this
  · rw [h.mask_eq]
    exact mem_append_left _ hmem

lemma readsAs_default (h : PieceOf t raw) (hp : (ofText raw).Printable)
    (hequals : '=' ∈ layer.mask raw) : ReadsAs raw (withDefault (ofText raw)) := by
  obtain ⟨x, gap, y, hdefault⟩ := exists_defaulted h.fine hequals
  have hread := hdefault.ofText_eq
  generalize hparts : partsOf x = parts at hread
  have hdots : raw ≠ "..." := by
    rintro rfl
    revert hequals
    decide
  have hdeclaration : (ofText raw).declaration = compose parts := by
    rw [declaration_eq_compose (by rwa [hread]), hread]
  have hne := hp.ne_nil
  rw [hread] at hp
  obtain ⟨hrespaced, hname, htype⟩ := partsOf_compose (hdefault.fine h.fine) hparts hp.comment hp.scan
  have hcontent : (ofText raw).content =
      (Spacing.normalizeSource (partsOf (compose parts)).1, (partsOf (compose parts)).2.1, trim y) := by
    rw [hread, hname, htype]
    simp only [content, normalizedType]
  generalize compose parts = d at *
  have hbefore := hdefault.beforeDefault h hrespaced
  by_cases hv : trim y = []
  · rw [withDefault_of_nil (by rw [hread]; exact hv), hdeclaration] at hne ⊢
    refine .of_trimmed hbefore.within (hbefore.trimmed hne) hbefore.no_comma ?_
    rw [hcontent, ofText_of_plain hbefore.no_equals, hv]
    simp only [content, normalizedType]
  · obtain ⟨l, hy, hcut, hvalue⟩ := hdefault.exists_value h hv
    rw [withDefault, if_neg (by simpa [hread] using hv), hdeclaration, hread]
    have hapart : layer.Apart d (trim y) := by
      have := hdefault.apart h.fine
      rw [hy] at this
      exact hrespaced.within.left _ (layer.apart_of_append_right hcut this).2
    by_cases hd : d = []
    · have := readsAs_value hbefore hvalue hapart (.inl ⟨hd, rfl⟩) [' '] (by simp [isBlank]) hcontent
      simpa [hd] using this
    · have := readsAs_value hbefore hvalue hapart (.inr ⟨hd, rfl⟩) [] (by simp) hcontent
      simpa using this

def printed (raw : Text) : Text := withDefault (ofText raw)

lemma readsAs_printed (h : PieceOf t raw) (hp : (ofText raw).Printable) : ReadsAs raw (printed raw) := by
  by_cases hequals : '=' ∈ layer.mask raw
  · exact readsAs_default h hp hequals
  · exact readsAs_plain h hp hequals

namespace ReadsAs

variable {raw d gap : Text} (h : ReadsAs raw d)

include h

lemma ne_nil : d ≠ [] := by
  obtain ⟨gap, raw', rfl, _, _, htrimmed, _⟩ := h.core
  intro hnil
  rw [(append_eq_nil_iff.mp hnil).2] at htrimmed
  exact htrimmed.ne_nil mask_nil

variable (hgap : ∀ c ∈ gap, isBlank c = true)

include hgap

lemma piece : ∃ raw', Piece (gap ++ d) [raw'] ∧ (ofText raw').content = (ofText raw).content := by
  obtain ⟨gap', raw', rfl, hgap', _, htrimmed, hcontent⟩ := h.core
  have hblank : ∀ c ∈ gap ++ gap', isBlank c := forall_mem_append.mpr ⟨hgap, hgap'⟩
  have hcut : layer.Cut raw' [] :=
    layer.cut_before_separator (not_swallows_of_trimmed htrimmed) (by simp) (by simp)
  refine ⟨raw', ?_, hcontent⟩
  have hpiece := Piece.core (cut_of_blank hblank _) hcut (fun c hc => isBlank_mask hblank hc) (by simp [mask_nil])
    htrimmed
  rwa [append_nil, append_assoc] at hpiece

lemma no_comma_gap : ',' ∉ layer.mask (gap ++ d) := by
  rw [layer.mask_append (cut_of_blank hgap d), mem_append, not_or]
  exact ⟨fun hmem => absurd (isBlank_mask hgap hmem) (by decide), h.no_comma⟩

lemma cut {y : Text} (hapart : layer.Apart d y) (hhead : ∀ c, y.head? = some c → layer.special c = false) :
    layer.Cut (gap ++ d) y := by
  have hcut := cut_of_blank hgap d
  refine layer.cut_of_apart ?_ (.inr hhead) fun hswallows => h.closed (layer.swallows_append hcut h.ne_nil hswallows)
  exact layer.apart_append_left hcut (.inl fun c hc => hgap c (mem_of_mem_getLast? hc))
    (layer.apart_separator (isSeparator_of_isBlank hgap) y).2 hapart

end ReadsAs

end Parameter

namespace ParameterList

open Parameter

/-! ## The whole list -/

/-- The text is read as the parameters are, one after the other, and can stand where they stand. -/
structure ListsAs (raws : List Text) (t : Text) : Prop where
  pieces : ∀ gap : Text, (∀ c ∈ gap, isBlank c) → ∃ raws', Pieces (gap ++ t) raws' ∧
    raws'.map (fun raw => (ofText raw).content) = raws.map (fun raw => (ofText raw).content)
  left : ∀ z, (∀ raw ∈ raws, layer.Apart raw z) → layer.Apart t z
  right : ∀ z, (∀ raw ∈ raws, layer.Apart z raw) → layer.Apart z t
  closed : ¬ layer.Swallows t
  ne_nil : t ≠ []
  last : ∃ raw pre, raws.getLast? = some raw ∧ layer.mask t = pre ++ layer.mask (printed raw) ∧
    (pre = [] ∨ ∃ pre', pre = pre' ++ [',', ' '])

variable {raw t : Text} {raws : List Text}

lemma ListsAs.single (h : ReadsAs raw (printed raw)) : ListsAs [raw] (printed raw) := by
  refine ⟨fun gap hgap => ?_, fun z hz => h.within.left z (hz raw (by simp)),
    fun z hz => h.within.right z (hz raw (by simp)), h.closed, h.ne_nil, raw, [], rfl, (nil_append _).symm, .inl rfl⟩
  obtain ⟨raw', hpiece, hcontent⟩ := h.piece hgap
  exact ⟨[raw'], .last (h.no_comma_gap hgap) hpiece, by simp [hcontent]⟩

lemma isSeparator_comma : ∀ c ∈ [',', ' '], isSeparator c := by simp [isSeparator, isBlank]

lemma special_comma {c : Char} (h : (',' :: t).head? = some c) : layer.special c = false := by
  cases h
  by_contra h
  exact absurd (Layer.mem_of_special_parameters (by simpa using h)) (by decide)

lemma cut_comma (t : Text) : layer.Cut [',', ' '] t := layer.cut_separator isSeparator_comma (by simp [isBlank]) t

lemma cut_comma_space (t : Text) : layer.Cut [','] (' ' :: t) :=
  layer.cut_before_space (layer.not_swallows_separator (by simp [isSeparator]))
    (layer.apart_separator (by simp [isSeparator]) t).2

lemma apart_comma {x : Text} (h : layer.Apart x t) : layer.Apart x (',' :: ' ' :: t) :=
  layer.apart_append_right (y := [',', ' ']) (cut_comma t) (.inl (by simp [isBlank]))
    (layer.apart_separator isSeparator_comma x).1 h

lemma ListsAs.cons (h : ReadsAs raw (printed raw)) (h' : ListsAs raws t)
    (hapart : ∀ raw' ∈ raws, layer.Apart raw raw') : ListsAs (raw :: raws) (printed raw ++ ',' :: ' ' :: t) := by
  have hapart' : layer.Apart (printed raw) (',' :: ' ' :: t) :=
    apart_comma (h'.right _ fun raw' hraw' => h.within.left _ (hapart raw' hraw'))
  have hhead : ∀ c, (',' :: ' ' :: t).head? = some c → layer.special c = false := fun c => special_comma
  have hcut : layer.Cut (printed raw) (',' :: ' ' :: t) := layer.cut_of_apart hapart' (.inr hhead) h.closed
  refine ⟨fun gap hgap => ?_, fun z hz => ?_, fun z hz => ?_, fun hswallows => ?_, by simp, ?_⟩
  · obtain ⟨raw', hpiece, hcontent⟩ := h.piece hgap
    obtain ⟨raws', hpieces, hcontents⟩ := h'.pieces [' '] (by simp [isBlank])
    refine ⟨[raw'] ++ raws', ?_, by simp [hcontent, hcontents]⟩
    rw [← append_assoc]
    exact .cons (h.no_comma_gap hgap) hpiece (h.cut hgap hapart' hhead) (cut_comma_space t) hpieces
  · refine layer.apart_append_left hcut (.inr hhead) (h.within.left z (hz raw (by simp))) ?_
    exact layer.apart_append_left (x := [',', ' ']) (cut_comma t) (.inl (by simp [isBlank]))
      (layer.apart_separator isSeparator_comma z).2 (h'.left z fun raw' hraw' => hz raw' (by simp [hraw']))
  · exact layer.apart_append_right hcut (.inr hhead) (h.within.right z (hz raw (by simp)))
      (apart_comma (h'.right z fun raw' hraw' => hz raw' (by simp [hraw'])))
  · exact h'.closed (layer.swallows_append (x := [',', ' ']) (cut_comma t) h'.ne_nil
      (layer.swallows_append hcut (by simp) hswallows))
  · obtain ⟨raw', pre, hlast, hmask, hpre⟩ := h'.last
    refine ⟨raw', layer.mask (printed raw) ++ [',', ' '] ++ pre, ?_, ?_, .inr ?_⟩
    · rw [getLast?_cons, hlast]
      rfl
    · rw [layer.mask_append hcut, (mask_comma (cut_comma_space t)).1, layer.mask_space, hmask]
      simp
    · rcases hpre with rfl | ⟨pre', rfl⟩
      · exact ⟨layer.mask (printed raw), by simp⟩
      · exact ⟨layer.mask (printed raw) ++ [',', ' '] ++ pre', by simp⟩

lemma listsAs_join (hne : raws ≠ []) (hreads : ∀ raw ∈ raws, ReadsAs raw (printed raw))
    (hapart : raws.Pairwise layer.Apart) : ListsAs raws (join ", " (raws.map printed)) := by
  induction raws with
  | nil => exact absurd rfl hne
  | cons raw raws ih =>
    obtain ⟨hfirst, hrest⟩ := pairwise_cons.mp hapart
    cases raws with
    | nil =>
      rw [join, map_singleton, intercalate_singleton]
      exact .single (hreads raw (by simp))
    | cons raw' raws =>
      have h := ih (by simp) (fun r hr => hreads r (mem_cons_of_mem _ hr)) hrest
      exact .cons (hreads raw (by simp)) h hfirst

lemma eq_of_last_comma {u w u' w' : Text} (h : u ++ ',' :: w = u' ++ ',' :: w') (hw : ',' ∉ w) (hw' : ',' ∉ w') :
    w = w' := by
  have hsplit := congrArg (splitAtChar ',') h
  rw [splitAtChar_append, splitAtChar_append, splitAtChar_of_notMem hw, splitAtChar_of_notMem hw'] at hsplit
  exact singleton_inj.mp (append_inj' hsplit rfl).2

/-- Dots are found at the end of a list only if nothing else stands behind its last comma. -/
lemma isDots_of_search? {x w : Text} {s : Span} (hs : search? variadicTail (x ++ w) = some s)
    (hx : x = [] ∨ ∃ y, x = y ++ [',']) (hw : ',' ∉ w) : IsDots w := by
  obtain ⟨pre, m, heq, hm, hpre⟩ := exists_dots_of_search? hs
  have hnot := comma_notMem_dots hm
  rcases hx with rfl | ⟨y, rfl⟩
  · rcases hpre with ⟨_, rfl⟩ | hpre
    · rw [nil_append, nil_append] at heq
      exact heq ▸ hm
    · rw [nil_append] at heq
      rw [heq, hpre] at hw
      simp at hw
  · rcases hpre with ⟨_, rfl⟩ | hpre
    · rw [nil_append] at heq
      rw [← heq] at hnot
      simp at hnot
    · rw [hpre, append_assoc, append_assoc] at heq
      obtain rfl : w = m := eq_of_last_comma heq hw hnot
      exact hm

lemma eq_dots_of_maskedForm (h : MaskedForm t "...") : t = "..." := by
  obtain ⟨t₁, rfl, h₁⟩ := MaskedForm.cons_inv (c := '.') h (by decide)
  obtain ⟨t₂, rfl, h₂⟩ := MaskedForm.cons_inv (c := '.') h₁ (by decide)
  obtain ⟨t₃, rfl, h₃⟩ := MaskedForm.cons_inv (c := '.') h₂ (by decide)
  rw [length_eq_zero_iff.mp h₃.length_eq.symm]
  rfl

lemma eq_dots_of_mask (h : layer.mask t = "...") : t = "..." :=
  eq_dots_of_maskedForm (h ▸ layer.maskedForm t)

lemma eq_dots_of_readsAs {d : Text} (h : ReadsAs raw d) (hdots : IsDots (layer.mask d)) : d = "..." := by
  obtain ⟨gap, raw', rfl, hgap, hequals, htrimmed, _⟩ := h.core
  rw [layer.mask_append (cut_of_blank hgap raw')] at hdots
  rcases hequals with rfl | hequals
  · rw [mask_nil, nil_append] at hdots
    rw [nil_append]
    obtain ⟨l, r, hmask, hl, hr⟩ := hdots
    have hlnil : l = [] := eq_nil_of_head (x := "..." ++ r) hl (by rw [← hmask]; exact htrimmed.head)
    have hrnil : r = [] := eq_nil_of_last (x := l ++ "...") hr (by rw [append_assoc, ← hmask]; exact htrimmed.last)
    refine eq_dots_of_mask ?_
    rw [hmask, hlnil, hrnil]
    rfl
  · exact absurd (hdots.eq_or_isBlank (mem_append_right _ hequals)) (by decide)

/-- A printed list ends with dots only if its last parameter is printed as dots. -/
lemma ListsAs.search?_eq_none (h : ListsAs raws t) (hreads : ∀ raw ∈ raws, ReadsAs raw (printed raw))
    (hlast : ∀ raw, raws.getLast? = some raw → printed raw ≠ "...") :
    search? variadicTail (layer.mask t) = none := by
  rw [Option.eq_none_iff_forall_ne_some]
  intro s hs
  obtain ⟨raw, pre, hraw, hmask, hpre⟩ := h.last
  have hread := hreads raw (mem_of_mem_getLast? hraw)
  refine hlast raw hraw (eq_dots_of_readsAs hread ?_)
  rw [hmask] at hs
  rcases hpre with rfl | ⟨pre, rfl⟩
  · exact isDots_of_search? hs (.inl rfl) hread.no_comma
  · have hsplit : pre ++ [',', ' '] ++ layer.mask (printed raw) = (pre ++ [',']) ++ ' ' :: layer.mask (printed raw) := by
      simp
    obtain ⟨l, r, hdots, hl, hr⟩ := isDots_of_search? (hsplit ▸ hs) (.inr ⟨pre, rfl⟩) (by simp [hread.no_comma])
    cases l with
    | nil => simp at hdots
    | cons c l => exact ⟨l, r, (cons_eq_cons.mp hdots).2, fun c hc => hl c (mem_cons_of_mem _ hc), hr⟩

/-- Dots that are printed at the end of a list are found there again. -/
lemma ListsAs.parameters_dots {raws' : List Text} (h : ListsAs raws t)
    (hdots : ∀ raw ∈ raws, layer.Apart raw "...") (hpieces : Pieces t raws') :
    (parse (t ++ ',' :: ' ' :: "...".toList)).parameters.map unplaced =
      raws'.map ofText ++ [variadicParameter ⟨.zero, .zero⟩] := by
  have hmask : IsDots (layer.mask (' ' :: "...".toList)) := ⟨[' '], [], by decide, by simp [isBlank], by simp⟩
  have hcut := layer.cut_of_apart (apart_comma (h.left _ hdots)) (.inr fun c => special_comma) h.closed
  exact parameters_of_pieces_dots hpieces hcut (cut_comma_space _) hmask

/-- The parameters of a list in the texts between its commas, and the dots at its end. -/
lemma exists_reading (hfine : layer.Fine t) : ∃ raws : List Text, (∀ raw ∈ raws, ∃ q, PieceOf q raw) ∧
    raws.Pairwise layer.Apart ∧ ((parse t).parameters.map unplaced = raws.map ofText ∨
      (parse t).parameters.map unplaced = raws.map ofText ++ [variadicParameter ⟨.zero, .zero⟩] ∧
        ∀ raw ∈ raws, layer.Apart raw "...") := by
  cases hs : search? variadicTail (layer.mask t) with
  | none =>
    obtain ⟨raws, hpieces, hraws, happart⟩ := exists_pieces hfine
    exact ⟨raws, fun raw hraw => ⟨t, hraws raw hraw⟩, happart, .inl (parameters_of_pieces hpieces hs)⟩
  | some s =>
    obtain ⟨pre, m, hmask, hdots, hpre⟩ := exists_dots_of_search? hs
    rcases hpre with ⟨_, rfl⟩ | hpre
    · exact ⟨[], by simp, .nil, .inr ⟨by simpa using parameters_of_dots (hmask ▸ hdots), by simp⟩⟩
    · rw [hpre, append_assoc, singleton_append] at hmask
      obtain ⟨q, rest, rfl, hq, hrest, hcut, hcomma⟩ := layer.cut_around hfine hmask stands_comma rfl
      obtain ⟨hfineQ, hfineRest⟩ := layer.fine_of_cut hfine hcut
      obtain ⟨raws, hpieces, hraws, happart⟩ := exists_pieces hfineQ
      refine ⟨raws, fun raw hraw => ⟨q, hraws raw hraw⟩, happart, .inr
        ⟨parameters_of_pieces_dots hpieces hcut hcomma (hrest ▸ hdots), fun raw hraw => ?_⟩⟩
      -- the dots stand in the rest, apart from all that comes before
      have hbetween : layer.Apart q rest :=
        (layer.apart_of_append_right (y := [',']) hcomma (layer.apart_of_cut hfine hcut)).2
      have hfineRest := (layer.fine_of_cut (x := [',']) hfineRest hcomma).2
      obtain ⟨l, r, rfl, hl, hr⟩ := hdots
      obtain ⟨x, y, rfl, _, hy, hcutX⟩ := layer.cut_start hfineRest hrest (gap_parameters hl) (by rintro c ⟨⟩; rfl)
      obtain ⟨dots, z, rfl, hdots, _, hcutZ⟩ :=
        layer.cut_end (layer.fine_of_cut hfineRest hcutX).2 hy (gap_parameters hr) trimmed_dots.last
      rw [← eq_dots_of_mask hdots]
      exact ((within_left hcutZ).trans (within_right hcutX)).right _ ((hraws raw hraw).within.left _ hbetween)

lemma withDefault_unplaced (p : Parameter) : withDefault p.unplaced = withDefault p := rfl

lemma declarations_eq {l : List Parameter} (h : (parse t).parameters.map unplaced = l) :
    (parse t).declarations true = join ", " (l.map withDefault) := by
  rw [← h, map_map]
  rfl

lemma contents_eq {l : List Parameter} (h : (parse t).parameters.map unplaced = l) :
    (parse t).parameters.map content = l.map content := by
  rw [← h, map_map]
  rfl

lemma map_withDefault (raws : List Text) : (raws.map ofText).map withDefault = raws.map printed := by
  rw [map_map]
  exact map_congr_left fun raw _ => by rw [printed, Function.comp_apply]

lemma map_content (raws : List Text) : (raws.map ofText).map content = raws.map fun raw => (ofText raw).content := by
  simp

lemma name_ne_dots (raw partlyMasked masked : Text) (range : Range) :
    (ofPiece raw partlyMasked masked range).name ≠ "..." := by
  have hword : ∀ c ∈ (ofPiece raw partlyMasked masked range).name, isWordChar c := by
    intro c hc
    rw [ofPiece] at hc
    split at hc
    · exact isWordChar_name _ _ _ hc
    · exact isWordChar_name _ _ _ hc
  intro h
  exact absurd (hword '.' (by simp [h])) (by decide)

/-- Whether what is begun and not closed stays open: no quote follows a lone one, no closing brackets follow those that
begin no attribute, and no equals sign follows a comparison operator. -/
def isSettled (t : Text) : Bool :=
  settled (scan t) && attributesSettled (replaceTokens chooseAll all t)
    && comparisonsSettled (Mask.parentheses (nonSource t false) true)

lemma fine_of_isSettled (h : isSettled t) : layer.Fine t := by
  simp only [isSettled, Bool.and_eq_true] at h
  exact Layer.fine_parameters.mpr ⟨h.1.1, h.1.2, h.2⟩

/-- A list that is printed with its default values and read again has the same types, names and default values. -/
theorem parse_declarations_keeps_parameters {t : Text} (hsettled : isSettled t = true)
    (hprintable : ∀ p ∈ (parse t).parameters, p.Printable)
    (hlast : ∀ p ∈ (parse t).parameters.getLast?, withDefault p = "...".toList → p.name = "...".toList) :
    (parse ((parse t).declarations true)).parameters.map content = (parse t).parameters.map content := by
  have hfine := fine_of_isSettled hsettled
  obtain ⟨raws, hpieces, hapart, hparse⟩ := exists_reading hfine
  have hreads : ∀ raw ∈ raws, ReadsAs raw (printed raw) := by
    intro raw hraw
    obtain ⟨q, hq⟩ := hpieces raw hraw
    have hmem : ofText raw ∈ (parse t).parameters.map unplaced := by
      rcases hparse with h | ⟨h, _⟩
      · rw [h]
        exact mem_map_of_mem hraw
      · rw [h]
        exact mem_append_left _ (mem_map_of_mem hraw)
    obtain ⟨p, hp, heq⟩ := mem_map.mp hmem
    have h := hprintable p hp
    exact readsAs_printed hq (heq ▸ ⟨h.ne_nil, h.comment, h.scan⟩)
  by_cases hne : raws = []
  · -- there are no parameters, or dots only
    subst hne
    rcases hparse with h | ⟨h, _⟩
    all_goals
      rw [declarations_eq h, contents_eq h]
      decide
  have hlists := listsAs_join hne hreads hapart
  obtain ⟨raws', hpieces', hcontents⟩ := hlists.pieces [] (by simp)
  rw [nil_append] at hpieces'
  rcases hparse with h | ⟨h, hdots⟩
  · have hnone := hlists.search?_eq_none hreads fun raw hraw hdots => by
      have hp : ((parse t).parameters.map unplaced).getLast? = some (ofText raw) := by
        rw [h, getLast?_map, hraw]
        rfl
      rw [getLast?_map] at hp
      obtain ⟨p, hp, heq⟩ := Option.map_eq_some_iff.mp hp
      refine name_ne_dots raw (Layer.source.mask raw) (layer.mask raw) ⟨.zero, .zero⟩ ?_
      rw [← ofText, ← heq]
      exact hlast p hp (by rw [← withDefault_unplaced, heq]; exact hdots)
    rw [declarations_eq h, contents_eq h, map_withDefault, map_content,
      contents_eq (parameters_of_pieces hpieces' hnone), map_content, hcontents]
  · rw [declarations_eq h, contents_eq h, map_append, map_append, map_withDefault, map_content]
    have hvariadic : [variadicParameter ⟨.zero, .zero⟩].map withDefault = ["...".toList] := rfl
    have hcomma : ", ".toList ++ "...".toList = ',' :: ' ' :: "...".toList := rfl
    rw [hvariadic, join_concat _ (by simpa using hne), hcomma,
      contents_eq (hlists.parameters_dots hdots hpieces'), map_append, map_content, hcontents]

/-- The name in a nested declarator moves behind a blank, and default values behind blanks. -/
theorem parse_declarations_keeps_parameters_variadic :
    let t := "int (A::f)(char), T n=\x7b1, 2\x7d, ..."
    (parse t).declarations true = "int (A:: f)(char), T n = \x7b1, 2\x7d, ..." ∧
      (parse ((parse t).declarations true)).parameters.map content = (parse t).parameters.map content :=
  ⟨by decide +kernel, parse_declarations_keeps_parameters (by decide +kernel) (by decide +kernel) (by decide +kernel)⟩

/-- A name that stands behind a line comment is printed into it. -/
theorem parse_declarations_loses_commented_name :
    (parse ((parse "int // c\na").declarations true)).parameters.map content ≠
      (parse "int // c\na").parameters.map content := by
  decide +kernel

end ParameterList

end CppScaffold
