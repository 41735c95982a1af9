import CppScaffold.Proofs.Declarators
import CppScaffold.Proofs.Normalization

/-!
# Reading parameters piece by piece

What is read from a piece between two commas is read from the piece alone (`parse_of_pieces`).
-/

namespace CppScaffold

open Text Recognizer Mask List Layer

namespace Parameter

/-- A parameter without regard to where it stands. -/
def unplaced (p : Parameter) : Parameter := { p with range := ⟨.zero, .zero⟩ }

def ofText (raw : Text) : Parameter :=
  ofPiece raw (source.mask raw) (Layer.parameters.mask raw) ⟨.zero, .zero⟩

lemma unplaced_ofPiece (raw partlyMasked masked : Text) (range : Range) :
    (ofPiece raw partlyMasked masked range).unplaced = ofPiece raw partlyMasked masked ⟨.zero, .zero⟩ := by
  rw [ofPiece, ofPiece]
  split <;> rfl

end Parameter

namespace ParameterList

open Parameter
open Layer renaming parameters → layer

/-- What is read between two commas: nothing, or one text with visible ends. -/
inductive Piece : Text → List Text → Prop where
  | blank {q : Text} (h : ∀ c ∈ layer.mask q, isBlank c) : Piece q []
  | core {x raw z : Text} (hcut : layer.Cut x (raw ++ z)) (hcut' : layer.Cut raw z)
      (hx : ∀ c ∈ layer.mask x, isBlank c) (hz : ∀ c ∈ layer.mask z, isBlank c)
      (htrimmed : Trimmed (layer.mask raw)) : Piece (x ++ (raw ++ z)) [raw]

/-- What is read from a list, cut at its commas. -/
inductive Pieces : Text → List Text → Prop where
  | last {q : Text} {raws : List Text} (hq : ',' ∉ layer.mask q) (h : Piece q raws) : Pieces q raws
  | cons {q rest : Text} {raws raws' : List Text} (hq : ',' ∉ layer.mask q) (h : Piece q raws)
      (hcut : layer.Cut q (',' :: rest)) (hcomma : layer.Cut [','] rest) (h' : Pieces rest raws') :
      Pieces (q ++ ',' :: rest) (raws ++ raws')

variable {rest q t m : Text} {qs raws : List Text}

lemma mask_comma (h : layer.Cut [','] rest) :
    layer.mask (',' :: rest) = ',' :: layer.mask rest ∧ source.mask (',' :: rest) = ',' :: source.mask rest := by
  have hcomma : layer.mask [','] = [','] := by rw [mask_parameters]; decide
  have hcomma' : source.mask [','] = [','] := by rw [mask_source]; decide
  constructor
  · rw [← singleton_append, layer.mask_append h]
    rfl
  · rw [← singleton_append, source.mask_append h.1]
    rfl

/-! ## Parts between commas -/

/-- The parameter in one part of a list, wherever the part stands. -/
def readPart (q : Text) : Option Parameter :=
  if isAllBlank (layer.mask q) then none
  else
    let s : Span := ⟨(indentation (layer.mask q)).length, (trimEnd (layer.mask q)).length⟩
    some (ofPiece (extract q s) (extract (source.mask q) s) (extract (layer.mask q) s) ⟨.zero, .zero⟩)

/-- A list is read part by part: both masks mask the parts between its commas one by one. -/
structure ReadsInParts (t : Text) (qs : List Text) : Prop where
  ne_nil : qs ≠ []
  written : t = join [','] qs
  source : source.mask t = join [','] (qs.map source.mask)
  masked : layer.mask t = join [','] (qs.map layer.mask)
  no_comma : ∀ q ∈ qs, ',' ∉ layer.mask q

lemma ReadsInParts.singleton (hq : ',' ∉ layer.mask q) : ReadsInParts q [q] :=
  ⟨by simp, (join_singleton ..).symm, (join_singleton ..).symm, (join_singleton ..).symm, by simpa using hq⟩

lemma ReadsInParts.cons (hq : ',' ∉ layer.mask q)
    (hcut : layer.Cut q (',' :: rest)) (hcomma : layer.Cut [','] rest) (h : ReadsInParts rest qs) :
    ReadsInParts (q ++ ',' :: rest) (q :: qs) where
  ne_nil := by simp
  written := by rw [join_cons _ _ h.ne_nil, ← h.written, singleton_append]
  source := by
    rw [Layer.source.mask_append hcut.1, (mask_comma hcomma).2, h.source, map_cons, join_cons _ _ (by simpa using h.ne_nil),
      singleton_append]
  masked := by
    rw [layer.mask_append hcut, (mask_comma hcomma).1, h.masked, map_cons, join_cons _ _ (by simpa using h.ne_nil),
      singleton_append]
  no_comma := forall_mem_cons.mpr ⟨hq, h.no_comma⟩

lemma ReadsInParts.concat (h : ReadsInParts t qs) (hcut : layer.Cut t (',' :: rest))
    (hcomma : layer.Cut [','] rest) (hrest : ',' ∉ layer.mask rest) :
    ReadsInParts (t ++ ',' :: rest) (qs ++ [rest]) where
  ne_nil := by simp
  written := by rw [join_concat _ h.ne_nil, ← h.written, singleton_append]
  source := by
    rw [Layer.source.mask_append hcut.1, (mask_comma hcomma).2, h.source, map_append, map_singleton,
      join_concat _ (by simpa using h.ne_nil), singleton_append]
  masked := by
    rw [layer.mask_append hcut, (mask_comma hcomma).1, h.masked, map_append, map_singleton,
      join_concat _ (by simpa using h.ne_nil), singleton_append]
  no_comma := forall_mem_append.mpr ⟨h.no_comma, by simpa using hrest⟩

lemma readPart_of_blank (h : ∀ c ∈ layer.mask q, isBlank c) : readPart q = none := by
  have hblank : isAllBlank (layer.mask q) := all_eq_true.mpr h
  rw [readPart, if_pos hblank]

lemma readPart_of_core {core : Text} (hmask : layer.mask q = l ++ (core ++ r)) (hl : ∀ c ∈ l, isBlank c)
    (hr : ∀ c ∈ r, isBlank c) (hcore : Trimmed core) : readPart q = some (ofPiece (extract q ⟨l.length, l.length +
    core.length⟩) (extract (source.mask q) ⟨l.length, l.length + core.length⟩) core ⟨.zero, .zero⟩) := by
  simp only [readPart, hmask, hcore.isAllBlank_append, Bool.false_eq_true, if_false, hcore.indentation_append hl,
    hcore.trimEnd_append _ hr, length_append, extract_append]

lemma Piece.filterMap_readPart (h : Piece q raws) : [q].filterMap readPart = raws.map ofText := by
  cases h with
  | blank h =>
    rw [filterMap_cons_none (readPart_of_blank h)]
    rfl
  | @core x raw z hcut hcut' hx hz htrimmed =>
    have hmask : layer.mask (x ++ (raw ++ z)) =
        layer.mask x ++ (layer.mask raw ++ layer.mask z) := by
      rw [layer.mask_append hcut, layer.mask_append hcut']
    have hmask' : source.mask (x ++ (raw ++ z)) =
        source.mask x ++ (source.mask raw ++ source.mask z) := by
      rw [source.mask_append hcut.1, source.mask_append hcut'.1]
    have hlength : ∀ t, (layer.mask t).length = t.length := fun t => (layer.maskedForm t).length_eq
    have hlength' : ∀ t, (source.mask t).length = t.length := fun t => (source.maskedForm t).length_eq
    have hsource := extract_append (source.mask x) (source.mask raw) (source.mask z)
    rw [hlength', hlength'] at hsource
    rw [filterMap_cons_some (readPart_of_core hmask hx hz htrimmed), hlength, hlength, extract_append, hmask', hsource]
    rfl

lemma Pieces.exists_parts (h : Pieces t raws) :
    ∃ qs, ReadsInParts t qs ∧ qs.filterMap readPart = raws.map ofText := by
  induction h with
  | last hq h => exact ⟨_, .singleton hq, h.filterMap_readPart⟩
  | @cons q rest raws raws' hq h hcut hcomma h' ih =>
    obtain ⟨qs, hqs, hread⟩ := ih
    have hsplit : (q :: qs).filterMap readPart = [q].filterMap readPart ++ qs.filterMap readPart :=
      filterMap_append (l := [q])
    exact ⟨q :: qs, hqs.cons hq hcut hcomma, by rw [hsplit, h.filterMap_readPart, hread, map_append]⟩

lemma extract_inside (pre x post : Text) {a b : Nat} (hb : b ≤ x.length) :
    extract (pre ++ (x ++ post)) ⟨pre.length + a, pre.length + b⟩ = extract x ⟨a, b⟩ := by
  rw [← extract_append_of_le (t := x) (x := post) (s := ⟨a, b⟩) hb, Text.extract, between, Nat.add_sub_add_left,
    drop_length_add_append]
  rfl

section

variable (document : TextDocument) (offset : Int)

lemma parsePiece_part (q pre : Text) {pre' pre'' : Text} (hpre' : pre'.length = pre.length) (hpre'' : pre''.length =
    pre.length) (post post' post'' : Text) : ((if layer.mask q = [] then [] else [⟨pre.length, pre.length +
    (layer.mask q).length⟩]).filterMap (parsePiece document offset (pre ++ (q ++ post)) (pre' ++
    (source.mask q ++ post')) (pre'' ++ (layer.mask q ++ post'')))).map unplaced = [q].filterMap
    readPart := by
  have hlength : (layer.mask q).length = q.length := (layer.maskedForm q).length_eq
  have hlength' : (source.mask q).length = q.length := (source.maskedForm q).length_eq
  have hstop := length_trimEnd_le (layer.mask q)
  have hwhole : extract (pre'' ++ (layer.mask q ++ post'')) ⟨pre.length, pre.length + (layer.mask q).length⟩ =
      layer.mask q := by
    rw [← hpre'']
    exact extract_append ..
  by_cases hnil : layer.mask q = []
  · rw [if_pos hnil, filterMap_cons_none (by rw [readPart, hnil]; rfl)]
    rfl
  rw [if_neg hnil]
  cases hblank : isAllBlank (layer.mask q) with
  | true =>
    rw [filterMap_cons_none (by simp [parsePiece, hwhole, hblank]),
      filterMap_cons_none (by simp [readPart, hblank])]
    rfl
  | false =>
    rw [filterMap_cons_some (by simp only [parsePiece, hwhole, hblank, Bool.false_eq_true, if_false]; rfl),
      filterMap_cons_some (by simp only [readPart, hblank, Bool.false_eq_true, if_false]; rfl), filterMap_nil,
      filterMap_nil, map_singleton, unplaced_ofPiece, ← extract_inside pre q post (hstop.trans_eq hlength),
      ← extract_inside pre' _ post' (hstop.trans_eq (hlength.trans hlength'.symm)), ← extract_inside pre'' _ post'' hstop, hpre',
      hpre'']
    rfl

lemma parsePiece_join {qs : List Text} (hne : qs ≠ []) (hq : ∀ q ∈ qs, ',' ∉ layer.mask q) (pre : Text)
    {pre' pre'' : Text} (hpre' : pre'.length = pre.length) (hpre'' : pre''.length = pre.length) (post post' : Text) :
    ((findAllFrom (some1 (· != ',')) none pre.length 0 (join [','] (qs.map layer.mask))).filterMap
    (parsePiece document offset (pre ++ (join [','] qs ++ post)) (pre' ++ (join [','] (qs.map source.mask) ++
    post')) (pre'' ++ join [','] (qs.map layer.mask)))).map unplaced = qs.filterMap readPart := by
  have hcomma : ∀ {m : Text}, ',' ∉ m → ∀ c ∈ m, (c != ',') :=
    fun hm c hc => bne_iff_ne.mpr fun heq => hm (heq ▸ hc)
  induction qs generalizing pre pre' pre'' with
  | nil => exact absurd rfl hne
  | cons q qs ih =>
    by_cases hqs : qs = []
    · have := parsePiece_part document offset q pre hpre' hpre'' post post' []
      rw [append_nil] at this
      rw [hqs, map_singleton, map_singleton, join_singleton, join_singleton, join_singleton,
        findAllFrom_all (hcomma (hq q mem_cons_self)), this]
    · have hlength : (layer.mask q).length = q.length := (layer.maskedForm q).length_eq
      have hlength' : (source.mask q).length = q.length := (source.maskedForm q).length_eq
      have hfirst := parsePiece_part document offset q pre hpre' hpre'' (',' :: (join [','] qs ++ post))
        (',' :: (join [','] (qs.map source.mask) ++ post')) (',' :: join [','] (qs.map layer.mask))
      have hbefore : (pre' ++ source.mask q ++ [',']).length = (pre ++ q ++ [',']).length := by simp [hpre', hlength']
      have hbefore' : (pre'' ++ layer.mask q ++ [',']).length = (pre ++ q ++ [',']).length := by
        simp [hpre'', hlength]
      have hrest := ih hqs (fun q' hq' => hq q' (mem_cons_of_mem q hq')) _ hbefore hbefore'
      have hoffset : (pre ++ q ++ [',']).length = pre.length + (layer.mask q).length + 1 := by
        simp [hlength, Nat.add_assoc]
      rw [hoffset] at hrest
      rw [map_cons, map_cons, join_cons _ _ hqs, join_cons _ _ (by simpa using hqs), join_cons _ _ (by simpa using hqs)]
      simp only [singleton_append]
      have hsplit : (q :: qs).filterMap readPart = [q].filterMap readPart ++ qs.filterMap readPart :=
        filterMap_append (l := [q])
      rw [findAllFrom_append_separator (hcomma (hq q mem_cons_self)) rfl, filterMap_append, map_append, hsplit]
      refine congr (congrArg _ ?_) ?_
      · simpa using hfirst
      · simpa using hrest

end

/-! ## The dots at the end -/

lemma dots_accepted (h : IsDots m) (prev : Option Char) :
    seq [blanks, exactly "...", blanks, atEnd] prev m = some m.length := by
  obtain ⟨l, r, rfl, hl, hr⟩ := h
  have hspace : ∀ {g u : Text}, (∀ c ∈ g, isBlank c) → (∀ c, u.head? = some c → isBlank c = false) →
      (g ++ u).takeWhile isBlank = g := by
    intro g u hg hu
    rw [takeWhile_append_of_pos hg]
    cases u with
    | nil => simp
    | cons c u => simp [hu c rfl]
  have hblanks : (l ++ ("..." ++ r)).takeWhile isBlank = l := hspace hl (by rintro c ⟨⟩; decide)
  have hend : r.takeWhile isBlank = r := by simpa using hspace (u := []) hr (by simp)
  simp only [seq, blanks, andThen_eq_some_iff, many_eq_some_iff, exactly_eq_some_iff, atEnd_eq_some_iff, hblanks]
  refine ⟨_, _, rfl, ⟨3, r.length, ⟨?_, rfl⟩, ⟨r.length, 0, ?_, ⟨?_, rfl⟩, rfl⟩, rfl⟩, ?_⟩
  · rw [drop_left]
    exact prefix_append ..
  · rw [drop_left]
    exact congrArg length hend.symm
  · rw [drop_left]
    simp
  · rw [length_append, length_append]
    rfl

lemma comma_notMem_dots (h : IsDots m) : ',' ∉ m := fun hmem => absurd (h.eq_or_isBlank hmem) (by decide)

/-- What is accepted holds no comma but the first character. -/
lemma comma_notMem_tail {prev : Option Char} {n : Nat} (h : variadicTail prev t = some n) : ',' ∉ t.tail := by
  rw [variadicTail, firstOf_cons_eq_some_iff, firstOf_cons_eq_some_iff] at h
  rcases h with h | ⟨_, h | ⟨_, h⟩⟩
  · split at h
    · exact fun hmem => comma_notMem_dots (isDots_of_seq h) (mem_of_mem_tail hmem)
    · cases h
  · obtain ⟨_, _, hcomma, hdots, _⟩ := andThen_eq_some_iff.mp h
    obtain ⟨c, rest, rfl, _, rfl⟩ := char_eq_some_iff.mp hcomma
    exact comma_notMem_dots (isDots_of_seq hdots)
  · cases h

lemma search?_dots (h : IsDots m) (x : Text) :
    ∃ n, search? variadicTail (x ++ ',' :: m) = some ⟨x.length, x.length + n⟩ := by
  have haccept : andThen (char (· == ',')) (seq [blanks, exactly "...", blanks, atEnd])
      (before none (x ++ ',' :: m) x.length) (',' :: m) = some (1 + m.length) :=
    andThen_eq_some_iff.mpr ⟨1, _, rfl, dots_accepted h _, rfl⟩
  refine ⟨1 + m.length, search?_eq_some_iff.mpr ⟨Nat.le_add_right .., by simp, ?_, fun j hj => ?_⟩⟩
  · rw [Nat.add_sub_cancel_left, drop_left, variadicTail, firstOf_cons_eq_some_iff, firstOf_cons_eq_some_iff]
    refine .inr ⟨?_, .inl haccept⟩
    split
    · simp [seq, blanks, andThen, many, exactly, isBlank]
    · rfl
  · -- what is accepted before would hold the comma
    rw [Option.eq_none_iff_forall_ne_some]
    intro n hn
    refine comma_notMem_tail hn ?_
    have hne : x.drop j ≠ [] := ne_nil_of_length_pos (by rw [length_drop]; exact Nat.sub_pos_of_lt hj)
    rw [drop_append_of_le_length (Nat.le_of_lt hj), tail_append_of_ne_nil hne]
    simp

lemma parameters_of_none (h : search? variadicTail (layer.mask t) = none) :
    (parse t).parameters = (findAll (some1 (· != ',')) (layer.mask t)).filterMap
      (parsePiece { uri := "untitled:parameters", text := t } 0 t (source.mask t) (layer.mask t)) := by
  rw [mask_parameters] at h ⊢
  simp only [parse, parseIn, h, append_nil, mask_source]

lemma parameters_of_some {s : Span} (h : search? variadicTail (layer.mask t) = some s) :
    (parse t).parameters.map unplaced =
      ((findAll (some1 (· != ',')) ((layer.mask t).take s.start)).filterMap
        (parsePiece { uri := "untitled:parameters", text := t } 0 t (source.mask t)
          ((layer.mask t).take s.start))).map unplaced ++ [variadicParameter ⟨.zero, .zero⟩] := by
  rw [mask_parameters] at h ⊢
  simp only [parse, parseIn, h, mask_source, map_append, map_cons, map_nil]
  rfl

lemma parameters_of_parts (h : ReadsInParts t qs) (hnone : search? variadicTail (layer.mask t) = none) :
    (parse t).parameters.map unplaced = qs.filterMap readPart := by
  have hparts := parsePiece_join { uri := "untitled:parameters", text := t } 0 h.ne_nil h.no_comma [] rfl rfl [] []
  simp only [nil_append, append_nil, length_nil, ← h.written, ← h.source, ← h.masked] at hparts
  rw [parameters_of_none hnone, findAll, hparts]

lemma parameters_of_pieces (h : Pieces t raws) (hnone : search? variadicTail (layer.mask t) = none) :
    (parse t).parameters.map unplaced = raws.map ofText := by
  obtain ⟨qs, hqs, hread⟩ := h.exists_parts
  rw [parameters_of_parts hqs hnone, hread]

lemma parameters_of_dots (h : IsDots (layer.mask t)) :
    (parse t).parameters.map unplaced = [variadicParameter ⟨.zero, .zero⟩] := by
  have hsearch : search? variadicTail (layer.mask t) = some ⟨0, (layer.mask t).length⟩ := by
    generalize layer.mask t = m at h
    refine search?_eq_some_iff.mpr ⟨Nat.zero_le _, Nat.zero_le _, ?_, fun j hj => absurd hj (Nat.not_lt_zero j)⟩
    rw [variadicTail, firstOf_cons_eq_some_iff]
    exact .inl (dots_accepted h none)
  rw [parameters_of_some hsearch]
  rfl

lemma parameters_of_parts_dots (h : ReadsInParts t (qs ++ [q])) (hq : IsDots (layer.mask q)) :
    (parse t).parameters.map unplaced = qs.filterMap readPart ++ [variadicParameter ⟨.zero, .zero⟩] := by
  by_cases hne : qs = []
  · have hmask := h.masked
    rw [hne, nil_append, map_singleton, join_singleton] at hmask
    rw [hne, parameters_of_dots (by rwa [hmask])]
    rfl
  have hwritten := h.written
  have hmask := h.masked
  have hmask' := h.source
  rw [join_concat _ hne, singleton_append] at hwritten
  rw [map_append, map_singleton, join_concat _ (by simpa using hne), singleton_append] at hmask hmask'
  obtain ⟨n, hsearch⟩ := search?_dots hq (join [','] (qs.map layer.mask))
  rw [← hmask] at hsearch
  have hparts := parsePiece_join { uri := "untitled:parameters", text := t } 0 hne
    (fun q' hq' => h.no_comma q' (mem_append_left _ hq')) [] rfl rfl (',' :: q) (',' :: source.mask q)
  simp only [nil_append, length_nil, ← hwritten, ← hmask'] at hparts
  rw [parameters_of_some hsearch, hmask, take_left, findAll, hparts]

lemma parameters_of_pieces_dots (h : Pieces t raws) (hcut : layer.Cut t (',' :: rest))
    (hcomma : layer.Cut [','] rest) (hrest : IsDots (layer.mask rest)) :
    (parse (t ++ ',' :: rest)).parameters.map unplaced = raws.map ofText ++ [variadicParameter ⟨.zero, .zero⟩] := by
  obtain ⟨qs, hqs, hread⟩ := h.exists_parts
  rw [parameters_of_parts_dots (hqs.concat hcut hcomma (comma_notMem_dots hrest)) hrest, hread]

/-! ## The pieces of a list -/

lemma gap_parameters {g : Text} (h : ∀ c ∈ g, isBlank c) : layer.Gap g := by
  intro c hc
  simp [isGap, h c hc]

lemma stands_comma : layer.stands ',' := stands_parameters rfl (by decide)

/-- A part of a list from which one parameter is read. -/
structure PieceOf (t raw : Text) : Prop where
  fine : layer.Fine raw
  trimmed : Trimmed (layer.mask raw)
  no_comma : ',' ∉ layer.mask raw
  within : layer.Within raw t

lemma exists_piece (hfine : layer.Fine q) (hq : ',' ∉ layer.mask q) :
    ∃ raws, Piece q raws ∧ (∀ raw ∈ raws, PieceOf q raw) ∧ raws.Pairwise layer.Apart := by
  cases hblank : isAllBlank (layer.mask q) with
  | true => exact ⟨[], .blank (all_eq_true.mp hblank), by simp, .nil⟩
  | false =>
    obtain ⟨l, core, r, hmask, hl, hr, hcore⟩ := exists_core hblank
    have hhead : ∀ c, (core ++ r).head? = some c → isBlank c = false := by
      intro c hc
      rw [head?_append_of_ne_nil _ hcore.ne_nil] at hc
      exact hcore.head c hc
    obtain ⟨x, y, rfl, hx, hy, hcut⟩ := layer.cut_start hfine hmask (gap_parameters hl) hhead
    have hfine' := (layer.fine_of_cut hfine hcut).2
    obtain ⟨raw, z, rfl, hraw, hz, hcut'⟩ := layer.cut_end hfine' hy (gap_parameters hr) hcore.last
    refine ⟨[raw], .core hcut hcut' (hx ▸ hl) (hz ▸ hr) (hraw ▸ hcore), ?_, pairwise_singleton ..⟩
    simp only [mem_singleton, forall_eq]
    refine ⟨(layer.fine_of_cut hfine' hcut').1, hraw ▸ hcore, fun hcomma => hq ?_, ?_⟩
    · rw [hmask, ← hraw]
      simp [hcomma]
    · exact (within_left hcut').trans (within_right hcut)

/-- The part of a list before its first comma, and the list behind. -/
lemma exists_first_part (hfine : layer.Fine t) (hmem : ',' ∈ layer.mask t) : ∃ q rest, t = q ++
    ',' :: rest ∧ ',' ∉ layer.mask q ∧ layer.Cut q (',' :: rest) ∧ layer.Cut [','] rest
    ∧ layer.Fine q ∧ layer.Fine rest ∧ layer.Apart q rest := by
  obtain ⟨a, b, hmask, ha⟩ := eq_append_cons_of_mem hmem
  obtain ⟨q, rest, rfl, hq, hrest, hcut, hcomma⟩ := layer.cut_around hfine hmask stands_comma rfl
  obtain ⟨hfineQ, hfineRest⟩ := layer.fine_of_cut hfine hcut
  exact ⟨q, rest, rfl, hq ▸ ha, hcut, hcomma, hfineQ, (layer.fine_of_cut (x := [',']) hfineRest hcomma).2,
    (layer.apart_of_append_right (y := [',']) hcomma (layer.apart_of_cut hfine hcut)).2⟩

/-- A list falls into pieces in which nothing is left open that a later one closes. -/
lemma exists_pieces (hfine : layer.Fine t) :
    ∃ raws, Pieces t raws ∧ (∀ raw ∈ raws, PieceOf t raw) ∧ raws.Pairwise layer.Apart := by
  induction hn : t.length using Nat.strong_induction_on generalizing t with
  | _ n ih =>
    subst hn
    by_cases hmem : ',' ∈ layer.mask t
    · obtain ⟨q, rest, rfl, hq, hcut, hcomma, hfineQ, hfineRest, hbetween⟩ := exists_first_part hfine hmem
      obtain ⟨raws, hpiece, hraws, happart⟩ := exists_piece hfineQ hq
      obtain ⟨raws', hpieces, hraws', happart'⟩ :=
        ih rest.length (by rw [length_append, length_cons]; omega) hfineRest rfl
      have hwithin : layer.Within rest (q ++ ',' :: rest) :=
        (within_right hcomma).trans (within_right hcut)
      refine ⟨raws ++ raws', .cons hq hpiece hcut hcomma hpieces, fun raw hraw => ?_,
        pairwise_append.mpr ⟨happart, happart', fun raw hraw raw' hraw' => ?_⟩⟩
      · rcases mem_append.mp hraw with hraw | hraw
        · have := hraws raw hraw
          exact { this with within := this.within.trans (within_left hcut) }
        · have := hraws' raw hraw
          exact { this with within := this.within.trans hwithin }
      · exact (hraws' raw' hraw').within.right _ ((hraws raw hraw).within.left _ hbetween)
    · obtain ⟨raws, hpiece, hraws, happart⟩ := exists_piece hfine hmem
      exact ⟨raws, .last hmem hpiece, hraws, happart⟩

/-- A list is read in parts in which nothing is left open that a later one closes. -/
lemma exists_readsInParts (hfine : layer.Fine t) : ∃ qs, ReadsInParts t qs ∧
    (∀ q ∈ qs, layer.Fine q ∧ layer.Within q t) ∧ qs.Pairwise layer.Apart := by
  induction hn : t.length using Nat.strong_induction_on generalizing t with
  | _ n ih =>
    subst hn
    by_cases hmem : ',' ∈ layer.mask t
    · obtain ⟨q, rest, rfl, hq, hcut, hcomma, hfineQ, hfineRest, hbetween⟩ := exists_first_part hfine hmem
      obtain ⟨qs, hqs, hfineQs, hapart⟩ := ih rest.length (by rw [length_append, length_cons]; omega) hfineRest rfl
      have hwithin : layer.Within rest (q ++ ',' :: rest) :=
        (within_right hcomma).trans (within_right hcut)
      refine ⟨q :: qs, hqs.cons hq hcut hcomma, forall_mem_cons.mpr ⟨⟨hfineQ, within_left hcut⟩, fun q' hq' => ?_⟩,
        pairwise_cons.mpr ⟨fun q' hq' => (hfineQs q' hq').2.right _ hbetween, hapart⟩⟩
      exact ⟨(hfineQs q' hq').1, (hfineQs q' hq').2.trans hwithin⟩
    · exact ⟨[t], .singleton hmem, by simpa using ⟨hfine, Layer.Within.refl t⟩, pairwise_singleton ..⟩

end ParameterList

end CppScaffold
