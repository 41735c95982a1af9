import CppScaffold.Proofs.Actions
import CppScaffold.Proofs.Positions
import Mathlib.Data.List.Induction

/-!
# The innermost symbol at a position

The search goes into the first symbol that contains the position, and so on (`innermostIn_eq_some_iff`). Siblings may
overlap; in a forest of reported symbols the first is the one that ends first.
-/

namespace CppScaffold

open List ScopedSymbol Position

namespace ScopedSymbol

variable {p : Position} {forest above : List Symbol} {s : ScopedSymbol} {t : Symbol}

/-- The symbols among which one stands that has the given symbols around it. -/
def siblingsIn (forest above : List Symbol) : List Symbol :=
  match above with
  | [] => forest
  | a :: _ => a.children

/-- What the search for the innermost symbol at a position comes to. -/
structure IsInnermost (forest : List Symbol) (p : Position) (s : ScopedSymbol) : Prop where
  contains : s.symbol.range.contains p
  /-- The search has gone through the symbols around it. -/
  entered : ∀ a ∈ s.ancestors, a.range.contains p ∧ a.selection.contains p = false
  /-- The symbol and each one around it is the first of its siblings that contains the position. -/
  first : ∀ t above, t :: above <:+ s.symbol :: s.ancestors →
    (siblingsIn forest above).find? (·.range.contains p) = some t
  /-- The search has not gone further. -/
  ends : s.symbol.children = [] ∨ s.symbol.selection.contains p ∨
    ∀ c ∈ s.symbol.children, c.range.contains p = false

/-! ## Equations of the search -/

lemma innermostIn_eq (p : Position) (above forest : List Symbol) :
    innermostIn p above forest = (forest.find? (·.range.contains p)).map (innermost p above) := by
  induction forest with
  | nil => rfl
  | cons t rest ih =>
    rw [innermostIn, find?_cons]
    cases t.range.contains p with
    | true => rfl
    | false => exact ih

lemma innermost_eq (p : Position) (above : List Symbol) (t : Symbol) : innermost p above t = if t.children.isEmpty ||
    t.selection.contains p then ⟨t, above⟩ else (innermostIn p (t :: above) t.children).getD ⟨t, above⟩ := by
  cases t
  rw [innermost]

lemma innermostIn_eq_none_iff : innermostIn p above forest = none ↔ ∀ t ∈ forest, t.range.contains p = false := by
  simp [innermostIn_eq]

lemma innermost_eq_self (h : t.children = [] ∨ t.selection.contains p ∨
    ∀ c ∈ t.children, c.range.contains p = false) : innermost p above t = ⟨t, above⟩ := by
  rw [innermost_eq]
  rcases h with h | h | h
  · simp [h]
  · simp [h]
  · rw [innermostIn_eq_none_iff.mpr h]
    exact ite_self _

lemma innermost_eq_of_find? {c : Symbol} (hname : t.selection.contains p = false)
    (hc : t.children.find? (·.range.contains p) = some c) : innermost p above t = innermost p (t :: above) c := by
  have hne : t.children.isEmpty = false := isEmpty_eq_false_iff_exists_mem.mpr ⟨c, mem_of_find?_eq_some hc⟩
  rw [innermost_eq, innermostIn_eq, hc, hne, hname]
  rfl

/-! ## The way down -/

lemma siblingsIn_concat (forest above : List Symbol) (a : Symbol) :
    siblingsIn forest (above ++ [a]) = siblingsIn a.children above := by
  cases above <;> rfl

/-- Through a first symbol that does not have its name at the position the search leads into its children. -/
lemma isInnermost_concat {a t : Symbol} (above : List Symbol) : IsInnermost forest p ⟨t, above ++ [a]⟩ ↔ forest.find?
    (·.range.contains p) = some a ∧ a.selection.contains p = false ∧ IsInnermost a.children p ⟨t, above⟩ := by
  constructor
  · rintro ⟨hcontains, hentered, hfirst, hends⟩
    refine ⟨hfirst a [] ⟨t :: above, rfl⟩, (hentered a (by simp)).2, hcontains,
      fun b hb => hentered b (mem_append_left _ hb), fun u rest hu => ?_, hends⟩
    rw [← siblingsIn_concat forest]
    obtain ⟨front, hfront⟩ := hu
    refine hfirst u (rest ++ [a]) ⟨front, ?_⟩
    rw [← cons_append, ← append_assoc, hfront]
    rfl
  · rintro ⟨ha, hname, hcontains, hentered, hfirst, hends⟩
    refine ⟨hcontains, fun b hb => ?_, fun u rest hu => ?_, hends⟩
    · rcases mem_append.mp hb with hb | hb
      · exact hentered b hb
      · obtain rfl := mem_singleton.mp hb
        have hb := find?_some ha
        exact ⟨hb, hname⟩
    · rw [← cons_append, suffix_concat_iff] at hu
      rcases hu with hu | ⟨rest', hu, hsuffix⟩
      · exact absurd hu (by simp)
      · cases rest' with
        | nil =>
          obtain ⟨rfl, rfl⟩ := cons.inj hu
          exact ha
        | cons u' rest' =>
          obtain ⟨rfl, hrest⟩ := cons.inj hu
          obtain rfl : rest = rest' ++ [a] := hrest
          rw [siblingsIn_concat]
          exact hfirst _ _ hsuffix

lemma isInnermost_self (ht : forest.find? (·.range.contains p) = some t) (hends : t.children = [] ∨
    t.selection.contains p ∨ ∀ c ∈ t.children, c.range.contains p = false) : IsInnermost forest p ⟨t, []⟩ := by
  have hcontains := find?_some ht
  refine ⟨hcontains, by simp, fun u rest hu => ?_, hends⟩
  rw [suffix_cons_iff] at hu
  rcases hu with hu | hu
  · obtain ⟨rfl, rfl⟩ := cons.inj hu
    exact ht
  · exact absurd hu (by simp)

/-- From a symbol the search comes to one that lies in it, or ends there. -/
lemma exists_innermost (base : List Symbol) (t : Symbol) {forest : List Symbol} (ht : forest.find? (·.range.contains
    p) = some t) : ∃ u above, innermost p base t = ⟨u, above ++ base⟩ ∧ IsInnermost forest p ⟨u, above⟩ := by
  by_cases hends : t.children = [] ∨ t.selection.contains p ∨ ∀ c ∈ t.children, c.range.contains p = false
  · exact ⟨t, [], innermost_eq_self hends, isInnermost_self ht hends⟩
  · rw [not_or, not_or, Bool.not_eq_true] at hends
    obtain ⟨-, hname, hchild⟩ := hends
    cases hc : t.children.find? (·.range.contains p) with
    | none => exact absurd (fun c hmem => by simpa using find?_eq_none.mp hc c hmem) hchild
    | some c =>
      have hlt : sizeOf c < sizeOf t := by
        have := sizeOf_lt_of_mem (mem_of_find?_eq_some hc)
        cases t
        simp only [Symbol.mk.sizeOf_spec] at this ⊢
        omega
      obtain ⟨u, above, hu, hinner⟩ := exists_innermost (t :: base) c hc
      refine ⟨u, above ++ [t], ?_, (isInnermost_concat above).mpr ⟨ht, hname, hinner⟩⟩
      rw [innermost_eq_of_find? hname hc, hu, append_assoc]
      rfl
termination_by sizeOf t

lemma IsInnermost.innermostIn_eq {above : List Symbol} (h : IsInnermost forest p ⟨t, above⟩) (base : List Symbol) :
    innermostIn p base forest = some ⟨t, above ++ base⟩ := by
  induction above using reverseRecOn generalizing forest base with
  | nil =>
    have ht : forest.find? (·.range.contains p) = some t := h.first t [] (suffix_refl _)
    rw [innermostIn_eq, ht, Option.map_some, innermost_eq_self h.ends]
    rfl
  | append_singleton above a ih =>
    obtain ⟨ha, hname, hinner⟩ := (isInnermost_concat above).mp h
    have hchild := ih hinner (a :: base)
    rw [innermostIn_eq] at hchild
    obtain ⟨c, hc, hcu⟩ := Option.map_eq_some_iff.mp hchild
    rw [innermostIn_eq, ha, Option.map_some, innermost_eq_of_find? hname hc, hcu, append_assoc]
    rfl

lemma innermostIn_eq_some_iff : innermostIn p [] forest = some s ↔ IsInnermost forest p s := by
  constructor
  · intro h
    rw [innermostIn_eq] at h
    obtain ⟨t, ht, rfl⟩ := Option.map_eq_some_iff.mp h
    obtain ⟨u, above, hu, hinner⟩ := exists_innermost [] t ht
    rwa [hu, append_nil]
  · intro h
    rw [h.innermostIn_eq [], append_nil]

end ScopedSymbol

/-! ## Siblings in order -/

namespace Range

variable {q r s : Range}

lemma listedBefore_iff : r.listedBefore s ↔ r.stop < s.stop ∨ r.stop = s.stop ∧ r.start ≤ s.start := by
  simp [listedBefore]

lemma listedBefore_trans (h : q.listedBefore r) (h' : r.listedBefore s) : q.listedBefore s := by
  rw [listedBefore_iff] at *
  rcases h with h | ⟨h, hstart⟩ <;> rcases h' with h' | ⟨h', hstart'⟩
  · exact .inl (lt_of_le_of_lt (le_of_lt h) h')
  · exact .inl (h' ▸ h)
  · exact .inl (h ▸ h')
  · exact .inr ⟨h.trans h', le_trans hstart hstart'⟩

lemma listedBefore_total (r s : Range) : (r.listedBefore s || s.listedBefore r) := by
  rw [Bool.or_eq_true, listedBefore_iff, listedBefore_iff]
  by_cases hlt : r.stop < s.stop
  · exact .inl (.inl hlt)
  · by_cases hgt : s.stop < r.stop
    · exact .inr (.inl hgt)
    · have heq := le_antisymm (not_lt_iff.mp hgt) (not_lt_iff.mp hlt)
      exact (le_total r.start s.start).imp (.inr ⟨heq, ·⟩) (.inr ⟨heq.symm, ·⟩)

lemma pairwise_listedBefore {α : Type} (f : α → Range) (l : List α) :
    (l.mergeSort fun a b => (f a).listedBefore (f b)).Pairwise fun a b => (f a).listedBefore (f b) := by
  apply pairwise_mergeSort
  · intro a b c
    exact listedBefore_trans
  · intro a b
    exact listedBefore_total _ _

end Range

namespace Symbol

lemma ofInfos_eq_map (infos : List SymbolInfo) : ofInfos infos = infos.map ofInfo := by
  induction infos with
  | nil => rfl
  | cons i rest ih => rw [ofInfos, ih, map_cons]

lemma range_ofInfo (i : SymbolInfo) : (ofInfo i).range = i.range := by
  cases i
  rw [ofInfo]

lemma children_ofInfo (i : SymbolInfo) : (ofInfo i).children = (i.children.map ofInfo).mergeSort listedBefore := by
  cases i
  rw [ofInfo, ofInfos_eq_map]

/-- The forest of a document of which the given symbols are reported. -/
def forestOf (reported : List SymbolInfo) : List Symbol :=
  ofInfos (reported.mergeSort fun a b => a.range.listedBefore b.range)

lemma pairwise_forestOf (reported : List SymbolInfo) : (forestOf reported).Pairwise (·.listedBefore ·) := by
  rw [forestOf, ofInfos_eq_map, pairwise_map]
  refine (Range.pairwise_listedBefore SymbolInfo.range reported).imp fun {a b} hab => ?_
  rwa [listedBefore, range_ofInfo, range_ofInfo]

end Symbol

namespace ScopedSymbol

variable {reported : List SymbolInfo}

/-- The search does not leave the symbols that were reported. -/
lemma IsInnermost.exists_ofInfo (h : IsInnermost (Symbol.forestOf reported) p s)
    (ht : t :: above <:+ s.symbol :: s.ancestors) : ∃ i, t = Symbol.ofInfo i := by
  have hmem := mem_of_find?_eq_some (h.first t above ht)
  induction above generalizing t with
  | nil =>
    rw [Symbol.forestOf, Symbol.ofInfos_eq_map] at hmem
    obtain ⟨i, -, rfl⟩ := mem_map.mp hmem
    exact ⟨i, rfl⟩
  | cons a above ih =>
    have ha := (suffix_cons t (a :: above)).trans ht
    obtain ⟨i, rfl⟩ := ih ha (mem_of_find?_eq_some (h.first a above ha))
    rw [siblingsIn, Symbol.children_ofInfo, mem_mergeSort] at hmem
    obtain ⟨j, -, rfl⟩ := mem_map.mp hmem
    exact ⟨j, rfl⟩

lemma IsInnermost.pairwise_siblingsIn (h : IsInnermost (Symbol.forestOf reported) p s) (habove : above <:+ s.ancestors) :
    (siblingsIn (Symbol.forestOf reported) above).Pairwise (·.listedBefore ·) := by
  cases above with
  | nil => exact Symbol.pairwise_forestOf reported
  | cons a above =>
    obtain ⟨i, rfl⟩ := h.exists_ofInfo (habove.trans (suffix_cons s.symbol s.ancestors))
    rw [siblingsIn, Symbol.children_ofInfo]
    exact Range.pairwise_listedBefore Symbol.range _

end ScopedSymbol

namespace OpenDocument

open Action CodeAction

/-- **The symbol at a position is the innermost one.** Nothing is found exactly if no symbol at the top contains the
position. What is found contains it, as do all symbols around it, each the first of its siblings to do so; and it has
no children, or its name stands at the position, or no child contains it. -/
theorem entityAt?_finds_innermost {w : Workspace} {s s' : ActionState} {d : OpenDocument} {forest : List Symbol}
    (hsymbols : d.symbols.execute w s = (.ok forest, s')) (p : Position) :
    ∃ found, (d.entityAt? p).execute w s = (.ok found, s') ∧
      (found = none ↔ ∀ t ∈ forest, t.range.contains p = false) ∧
      (∀ e, found = some e ↔ e.document = d ∧ e.node.IsInnermost forest p) ∧
      ∀ reported e, forest = Symbol.forestOf reported → found = some e → ∀ above, above <:+ e.node.ancestors →
        (ScopedSymbol.siblingsIn forest above).Pairwise (·.listedBefore ·) := by
  have hfound : ∀ e : Entity, (ScopedSymbol.innermostIn p [] forest).map (Entity.mk d) = some e ↔
      e.document = d ∧ e.node.IsInnermost forest p := by
    intro e
    rw [Option.map_eq_some_iff]
    constructor
    · rintro ⟨node, hnode, rfl⟩
      exact ⟨rfl, ScopedSymbol.innermostIn_eq_some_iff.mp hnode⟩
    · rintro ⟨rfl, hnode⟩
      exact ⟨e.node, ScopedSymbol.innermostIn_eq_some_iff.mpr hnode, rfl⟩
  refine ⟨_, ?_, ?_, hfound, ?_⟩
  · rw [entityAt?, execute_bind, hsymbols]
    rfl
  · rw [Option.map_eq_none_iff, ScopedSymbol.innermostIn_eq_none_iff]
  · rintro reported e rfl he above habove
    exact ((hfound e).mp he).2.pairwise_siblingsIn habove

/-- Of two siblings that overlap the one that ends first is entered, up to the name of its child. -/
theorem entityAt?_finds_innermost_overlapping :
    let at' (first last : Int) : Range := ⟨⟨0, first⟩, ⟨0, last⟩⟩
    let g : Symbol := ⟨['g'], [], [], .method, at' 3 6, at' 4 5, []⟩
    let a : Symbol := ⟨['A'], [], [], .classType, at' 0 8, at' 1 2, [g]⟩
    let b : Symbol := ⟨['B'], [], [], .classType, at' 2 9, at' 3 5, []⟩
    let d : OpenDocument := ⟨{ uri := [], text := [] }, 0⟩
    let w : Workspace := { source := ⟨fun _ => .error .sourceClosed, fun _ => .ok [], fun _ _ => .ok [], fun _ _ => .ok [],
      fun _ => .ok true⟩ }
    ∃ e s, (d.entityAt? ⟨0, 4⟩).execute w { loaded := [(0, [a, b])] } = (.ok (some e), s) ∧
      e.node.IsInnermost [a, b] ⟨0, 4⟩ := by
  intro at' g a b d w
  have hsymbols : d.symbols.execute w { loaded := [(0, [a, b])] } = (.ok [a, b], { loaded := [(0, [a, b])] }) := rfl
  obtain ⟨found, hrun, hnone, hsome, -⟩ := entityAt?_finds_innermost hsymbols ⟨0, 4⟩
  cases found with
  | none => exact absurd (hnone.mp rfl a mem_cons_self) (by decide)
  | some e => exact ⟨e, _, hrun, ((hsome e).mp rfl).2⟩

end OpenDocument

end CppScaffold
