import CppScaffold.Proofs.CacheRuns
import CppScaffold.Proofs.Innermost
import CppScaffold.Proofs.LoadedSymbols
import Mathlib.Data.List.Nodup

/-!
# The order in which symbols are reported

Siblings are put in order on every level, so the order in which they are reported does not matter, if no two have the
same range (`symbols_of_rearranged`).
-/

namespace CppScaffold

open List Symbol

/-- The second forest has the symbols of the first one, with siblings in any order on any level. -/
inductive Rearranged : List SymbolInfo → List SymbolInfo → Prop where
  | nil : Rearranged [] []
  | cons (i : SymbolInfo) {children rest rest' : List SymbolInfo} (hchildren : Rearranged i.children children)
      (hrest : Rearranged rest rest') : Rearranged (i :: rest) ({ i with children } :: rest')
  | swap (i j : SymbolInfo) (rest : List SymbolInfo) : Rearranged (i :: j :: rest) (j :: i :: rest)
  | trans {l m n : List SymbolInfo} (h : Rearranged l m) (h' : Rearranged m n) : Rearranged l n

/-- On every level siblings have different ranges. -/
inductive SiblingsDiffer : List SymbolInfo → Prop where
  | intro {infos : List SymbolInfo} (here : (infos.map (·.range)).Nodup)
      (below : ∀ i ∈ infos, SiblingsDiffer i.children) : SiblingsDiffer infos

/-! ## Forests of rearranged symbols -/

section Forests

variable {infos infos' : List SymbolInfo}

lemma Range.listedBefore_antisymm {r s : Range} (h : r.listedBefore s) (h' : s.listedBefore r) : r = s := by
  rw [listedBefore_iff] at h h'
  have hlt {p q : Position} (hpq : p < q) (hqp : q ≤ p) : False := Position.not_lt_iff.mpr hqp hpq
  rcases h with h | ⟨hstop, hstart⟩ <;> rcases h' with h' | ⟨hstop', hstart'⟩
  · exact (hlt h (Position.le_of_lt h')).elim
  · exact (hlt h (hstop' ▸ Position.le_refl _)).elim
  · exact (hlt h' (hstop ▸ Position.le_refl _)).elim
  · cases r
    cases s
    exact congrArg₂ Range.mk (Position.le_antisymm hstart hstart') hstop

lemma SiblingsDiffer.mergeSort_eq (h : SiblingsDiffer infos) (hperm : (infos.map ofInfo).Perm (infos'.map ofInfo)) :
    (infos.map ofInfo).mergeSort listedBefore = (infos'.map ofInfo).mergeSort listedBefore := by
  refine Perm.eq_of_pairwise (fun s t hs ht hst hts => ?_) (Range.pairwise_listedBefore range _)
    (Range.pairwise_listedBefore range _) ((mergeSort_perm ..).trans (hperm.trans (mergeSort_perm ..).symm))
  obtain ⟨i, hi, rfl⟩ := mem_map.mp (mem_mergeSort.mp hs)
  obtain ⟨j, hj, rfl⟩ := mem_map.mp (hperm.mem_iff.mpr (mem_mergeSort.mp ht))
  have hrange : i.range = j.range := by
    have := Range.listedBefore_antisymm hst hts
    rwa [range_ofInfo, range_ofInfo] at this
  obtain ⟨hnodup, -⟩ := h
  rw [inj_on_of_nodup_map hnodup hi hj hrange]

lemma Rearranged.perm (h : Rearranged infos infos') (hdiffer : SiblingsDiffer infos) :
    (infos.map Symbol.ofInfo).Perm (infos'.map Symbol.ofInfo) ∧ SiblingsDiffer infos' := by
  induction h with
  | nil => exact ⟨.nil, hdiffer⟩
  | @cons i children rest rest' _ _ ihchildren ihrest =>
    obtain ⟨hhere, hbelow⟩ := hdiffer
    obtain ⟨hnotMem, hnodup⟩ := nodup_cons.mp hhere
    obtain ⟨hdiffer, hbelow⟩ := forall_mem_cons.mp hbelow
    obtain ⟨hperm, hchildren⟩ := ihchildren hdiffer
    obtain ⟨hpermRest, hrest⟩ := ihrest ⟨hnodup, hbelow⟩
    have hsame : Symbol.ofInfo { i with children } = Symbol.ofInfo i := by
      have hsort := hdiffer.mergeSort_eq hperm
      cases i
      rw [Symbol.ofInfo, Symbol.ofInfo, Symbol.ofInfos_eq_map, Symbol.ofInfos_eq_map, hsort]
    have hranges : (rest.map (·.range)).Perm (rest'.map (·.range)) := by
      simpa [Function.comp_def, Symbol.range_ofInfo] using hpermRest.map Symbol.range
    obtain ⟨hhereRest, hbelowRest⟩ := hrest
    refine ⟨?_, ⟨?_, ?_⟩⟩
    · rw [map_cons, map_cons, hsame]
      exact hpermRest.cons _
    · exact nodup_cons.mpr ⟨fun hmem => hnotMem (hranges.mem_iff.mpr hmem), hhereRest⟩
    · exact forall_mem_cons.mpr ⟨hchildren, hbelowRest⟩
  | swap i j rest =>
    obtain ⟨hhere, hbelow⟩ := hdiffer
    have hswap := Perm.swap i j rest
    exact ⟨(hswap.map _).symm, ⟨(hswap.map _).nodup_iff.mpr hhere, fun k hk => hbelow k (hswap.mem_iff.mp hk)⟩⟩
  | trans _ _ ih ih' =>
    obtain ⟨hperm, hdiffer⟩ := ih hdiffer
    obtain ⟨hperm', hdiffer⟩ := ih' hdiffer
    exact ⟨hperm.trans hperm', hdiffer⟩

lemma Symbol.forestOf_eq (infos : List SymbolInfo) : forestOf infos = (infos.map ofInfo).mergeSort listedBefore := by
  rw [forestOf, ofInfos_eq_map]
  refine map_mergeSort fun i _ j _ => ?_
  rw [listedBefore, range_ofInfo, range_ofInfo]

lemma Rearranged.forestOf_eq (h : Rearranged infos infos') (hdiffer : SiblingsDiffer infos) :
    Symbol.forestOf infos' = Symbol.forestOf infos := by
  rw [Symbol.forestOf_eq, Symbol.forestOf_eq, hdiffer.mergeSort_eq (h.perm hdiffer).1]

end Forests

/-! ## Each symbol once -/

namespace SymbolInfo

mutual

/-- A reported symbol and the symbols in it, each with the symbols around it. -/
def scopedWithin (above : List SymbolInfo) : SymbolInfo → List (SymbolInfo × List SymbolInfo)
  | ⟨name, kind, range, selection, detail, children⟩ =>
    let i : SymbolInfo := ⟨name, kind, range, selection, detail, children⟩
    (i, above) :: scopedAll (i :: above) children

def scopedAll (above : List SymbolInfo) : List SymbolInfo → List (SymbolInfo × List SymbolInfo)
  | [] => []
  | i :: rest => scopedWithin above i ++ scopedAll above rest

end

def toScoped (i : SymbolInfo × List SymbolInfo) : ScopedSymbol := ⟨.ofInfo i.1, i.2.map .ofInfo⟩

end SymbolInfo

namespace ScopedSymbol

open SymbolInfo

lemma preorderAll_mergeSort_perm (above forest : List Symbol) (before : Symbol → Symbol → Bool) :
    (preorderAll above (forest.mergeSort before)).Perm (preorderAll above forest) := by
  have hflat (l : List Symbol) : preorderAll above l = l.flatMap (preorder above) := by
    induction l with
    | nil => rfl
    | cons t rest ih => rw [preorderAll, ih, flatMap_cons]
  rw [hflat, hflat]
  exact (mergeSort_perm ..).flatMap_right _

lemma preorder_eq (above : List Symbol) (t : Symbol) :
    preorder above t = ⟨t, above⟩ :: preorderAll (t :: above) t.children := by
  cases t
  rw [preorder]

mutual

theorem preorder_perm (above : List SymbolInfo) (i : SymbolInfo) :
    (preorder (above.map .ofInfo) (.ofInfo i)).Perm ((scopedWithin above i).map toScoped) := by
  cases i with
  | mk name kind range selection detail children =>
    rw [scopedWithin, map_cons, preorder_eq, children_ofInfo]
    exact .cons _ ((preorderAll_mergeSort_perm ..).trans (preorderAll_perm (_ :: above) children))

theorem preorderAll_perm (above infos : List SymbolInfo) :
    (preorderAll (above.map .ofInfo) (infos.map .ofInfo)).Perm ((scopedAll above infos).map toScoped) := by
  cases infos with
  | nil => exact .nil
  | cons i rest =>
    rw [map_cons, preorderAll, scopedAll, map_append]
    exact (preorder_perm above i).append (preorderAll_perm above rest)

end

end ScopedSymbol

/-! ## Symbols of an opened document -/

namespace SymbolCache

variable {c : SymbolCache Symbol} {uri text : Text} {infos : List SymbolInfo}

/-- Whether symbols can be saved. -/
def savable (c : SymbolCache Symbol) (uri : Text) : Outcome Unit :=
  match c.directory with
  | none => .ok ()
  | some d => if d.present then .ok () else (Uri.toPath uri).map fun _ => ()

lemma save_eq (c : SymbolCache Symbol) (uri digest : Text) (infos : List SymbolInfo) :
    ∃ c', c'.entries = c.entries ∧ c.save uri digest infos = (c.savable uri).map fun _ => c' := by
  cases hd : c.directory with
  | none => exact ⟨c, rfl, by simp only [save, savable, hd]; rfl⟩
  | some d =>
    cases hp : d.present with
    | true =>
      exact ⟨{ c with directory := some (d.write (fileName uri) (saved uri digest infos)) }, rfl, by
        simp only [save, savable, hd, hp, if_true]; rfl⟩
    | false =>
      refine ⟨c, rfl, ?_⟩
      simp only [save, savable, hd, hp, Bool.false_eq_true, if_false]
      cases Uri.toPath uri <;> rfl

/-- What is put into a cache is handed out, if it can be saved, and remembered. -/
lemma put_eq (c : SymbolCache Symbol) (uri text : Text) (infos : List SymbolInfo) :
    ∃ c', c.put uri text infos = ((c.savable uri).map fun _ => ofInfos infos, c') ∧
      c'.remembered? uri (Digest.ofText text) = some (ofInfos infos) := by
  obtain ⟨c', hentries, hsave⟩ :=
    (c.store uri (Digest.ofText text) (ofInfos infos)).save_eq uri (Digest.ofText text) infos
  have hlookup : ∀ c'' : SymbolCache Symbol, c''.entries = (c.store uri (Digest.ofText text) (ofInfos infos)).entries →
      c''.remembered? uri (Digest.ofText text) = some (ofInfos infos) := by
    intro c'' h
    rw [remembered?, h, lookup_store]
    simp
  rw [put]
  simp only [show (Cacheable.ofInfos infos : List Symbol) = ofInfos infos from rfl, hsave]
  rw [show (c.store uri (Digest.ofText text) (ofInfos infos)).savable uri = c.savable uri from rfl]
  cases c.savable uri with
  | ok u => exact ⟨c', rfl, hlookup _ hentries⟩
  | error e => exact ⟨_, rfl, hlookup _ rfl⟩

lemma savable_get (c : SymbolCache Symbol) (uri text : Text) : (c.get uri text).2.savable uri = c.savable uri := by
  have hdirectory : (c.get uri text).2.directory = c.directory := by
    rw [get]
    cases c.remembered? uri (Digest.ofText text) with
    | some symbols => rfl
    | none =>
      rcases c.load uri (Digest.ofText text) with e | none | records
      · rfl
      · rfl
      · simp only
        cases (Cacheable.ofRecords records : Outcome (List Symbol)) <;> rfl
  rw [savable, hdirectory, savable]

end SymbolCache

namespace OpenDocument

open Action CodeAction

variable {w : Workspace} {s : ActionState} {d : OpenDocument} {infos : List SymbolInfo}

/-- The answer of a cache in place of the source, by which the given symbols are reported. -/
def answerOf (c : SymbolCache Symbol) (d : OpenDocument) (forest : List Symbol) : Outcome (List Symbol) :=
  match (c.get d.uri d.text).1 with
  | .ok (some symbols) => .ok symbols
  | .ok none => (c.savable d.uri).map fun _ => forest
  | .error e => .error e

lemma execute_symbols_of_cache {c : SymbolCache Symbol} (hloaded : s.loaded.lookup d.opening = none)
    (hcache : s.cache = some c) (hreport : w.source.symbols d.uri = .ok infos) :
    ∃ s₁, d.symbols.execute w s = (answerOf c d (forestOf infos), s₁) ∧
      ((c.get d.uri d.text).1 = .ok none →
        ∃ c₁, s₁.cache = some c₁ ∧ c₁.remembered? d.uri (Digest.ofText d.text) = some (forestOf infos)) := by
  simp only [symbols, cachedSymbols, requestedSymbols, answerOf, execute_bind, execute_get, hloaded, hcache,
    execute_modify, execute_lift]
  rw [← c.savable_get d.uri d.text]
  rcases c.get d.uri d.text with ⟨e | none | symbols, c₁⟩
  · exact ⟨_, rfl, by simp⟩
  · obtain ⟨c₂, hput, hremembered⟩ := c₁.put_eq d.uri d.text (infos.mergeSort fun a b => a.range.listedBefore b.range)
    simp only [execute_bind, execute_get, execute_source, execute_lift, hreport, hput, execute_modify]
    cases c₁.savable d.uri <;> exact ⟨_, rfl, fun _ => ⟨c₂, rfl, hremembered⟩⟩
  · exact ⟨_, rfl, by simp⟩

/-- The symbols of the document are not known yet, and can be saved if there is a cache. -/
structure Unknown (d : OpenDocument) (s : ActionState) : Prop where
  loaded : s.loaded.lookup d.opening = none
  cached : ∀ c ∈ s.cache, (c.get d.uri d.text).1 = .ok none ∧ c.savable d.uri = .ok ()

/-- **The symbols of a document do not depend on the order in which they are reported** if siblings have different
ranges. With a cache or without one, also when the document is opened again, they are the forest of the reported
symbols, which has each of them once, with the symbols around it. -/
theorem symbols_of_rearranged {w w' : Workspace} {infos' : List SymbolInfo} (horder : Rearranged infos infos')
    (hdiffer : SiblingsDiffer infos) (hreport : w.source.symbols d.uri = .ok infos)
    (hreport' : w'.source.symbols d.uri = .ok infos') :
    (∀ s, (d.symbols.execute w' s).1 = (d.symbols.execute w s).1) ∧
    (∀ s, Unknown d s → ∃ s₁, d.symbols.execute w s = (.ok (Symbol.forestOf infos), s₁) ∧
      ∀ d' : OpenDocument, d'.uri = d.uri → d'.text = d.text → s₁.loaded.lookup d'.opening = none →
        (d'.symbols.execute w' s₁).1 = .ok (Symbol.forestOf infos)) ∧
    (ScopedSymbol.preorderAll [] (Symbol.forestOf infos)).Perm
      ((SymbolInfo.scopedAll [] infos).map SymbolInfo.toScoped) := by
  have hforest := horder.forestOf_eq hdiffer
  refine ⟨fun s => ?_, fun s hs => ?_, ?_⟩
  · cases hloaded : s.loaded.lookup d.opening with
    | some symbols => rw [execute_symbols_of_loaded hloaded, execute_symbols_of_loaded hloaded]
    | none =>
      cases hcache : s.cache with
      | none =>
        rw [execute_symbols hloaded hcache hreport, execute_symbols hloaded hcache hreport']
        exact congrArg Except.ok hforest
      | some c =>
        obtain ⟨s₁, hrun, -⟩ := execute_symbols_of_cache hloaded hcache hreport
        obtain ⟨s₂, hrun', -⟩ := execute_symbols_of_cache hloaded hcache hreport'
        rw [hrun, hrun', hforest]
  · cases hcache : s.cache with
    | none =>
      refine ⟨_, execute_symbols hs.loaded hcache hreport, fun d' huri _ hloaded => ?_⟩
      rw [execute_symbols hloaded hcache (huri ▸ hreport')]
      exact congrArg Except.ok hforest
    | some c =>
      obtain ⟨hget, hsavable⟩ := hs.cached c hcache
      obtain ⟨s₁, hrun, hstate⟩ := execute_symbols_of_cache hs.loaded hcache hreport
      obtain ⟨c₁, hc₁, hremembered⟩ := hstate hget
      have hanswer : answerOf c d (Symbol.forestOf infos) = .ok (Symbol.forestOf infos) := by
        rw [answerOf, hget, hsavable]
        rfl
      refine ⟨s₁, by rw [hrun, hanswer], fun d' huri htext hloaded => ?_⟩
      obtain ⟨s₂, hrun', -⟩ := execute_symbols_of_cache hloaded hc₁ (huri ▸ hreport')
      rw [hrun', answerOf, SymbolCache.get, huri, htext, hremembered]
  · rw [Symbol.forestOf_eq]
    exact (ScopedSymbol.preorderAll_mergeSort_perm ..).trans (ScopedSymbol.preorderAll_perm [] infos)

/-- A class is reported before or behind the function that follows it, and its members in either order. -/
theorem symbols_of_rearranged_members :
    let lines (first last : Int) : Range := ⟨⟨first, 0⟩, ⟨last, 0⟩⟩
    let member (name : Char) (r : Range) : SymbolInfo := ⟨[name], .method, r, r, [], []⟩
    let owner (children : List SymbolInfo) : SymbolInfo := ⟨['A'], .classType, lines 0 5, lines 0 0, [], children⟩
    let f := member 'f' (lines 1 2)
    let g := member 'g' (lines 3 4)
    let h := member 'h' (lines 6 7)
    let d : OpenDocument := ⟨{ uri := ['u'], text := [] }, 0⟩
    let w (infos : List SymbolInfo) : Workspace := { source := ⟨fun _ => .error .sourceClosed, fun _ => .ok infos,
      fun _ _ => .ok [], fun _ _ => .ok [], fun _ => .ok true⟩ }
    let s : ActionState := { cache := some {} }
    (d.symbols.execute (w [h, owner [g, f]]) s).1 = (d.symbols.execute (w [owner [f, g], h]) s).1 ∧
      ∃ s₁, d.symbols.execute (w [owner [f, g], h]) s = (.ok (Symbol.forestOf [owner [f, g], h]), s₁) := by
  intro lines member owner f g h d w s
  have horder : Rearranged [owner [f, g], h] [h, owner [g, f]] :=
    .trans (.cons (owner [f, g]) (.swap f g []) (.cons h .nil .nil)) (.swap (owner [g, f]) h [])
  have hleaf : SiblingsDiffer [] := ⟨nodup_nil, by simp⟩
  have hmembers : SiblingsDiffer [f, g] := ⟨by decide, by simpa [f, g, member] using hleaf⟩
  have hdiffer : SiblingsDiffer [owner [f, g], h] := ⟨by decide, by simpa [owner, h, member] using ⟨hmembers, hleaf⟩⟩
  have hreport (infos : List SymbolInfo) : (w infos).source.symbols d.uri = .ok infos := rfl
  obtain ⟨hsame, hunknown, -⟩ := symbols_of_rearranged horder hdiffer (hreport _) (hreport _)
  obtain ⟨s₁, hrun, -⟩ := hunknown s ⟨rfl, by rintro _ ⟨⟩; exact ⟨rfl, rfl⟩⟩
  exact ⟨hsame s, s₁, hrun⟩

end OpenDocument

end CppScaffold
