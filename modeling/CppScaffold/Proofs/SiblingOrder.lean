import CppScaffold.CodeAction.Definition
import CppScaffold.Proofs.Insertions
import CppScaffold.Proofs.LoadedSymbols
import CppScaffold.Proofs.Starts

/-!
# Definitions in the order of declarations

A place is looked for next to the counterparts of the siblings, in the target as it was before any insertion. Where the
counterparts stand in the order of the siblings, the places do too.
-/

namespace CppScaffold

open Text Action CodeAction List ScopedSymbol Position

namespace OpenDocument

variable {w : Workspace} {d target : OpenDocument} {known : List Symbol}

/-! ## The search depends on the target only -/

section Determined

variable {I : ActionState → Prop}

lemma determined_linked (uri : Text) (range : Range) (candidates : List ReportedLocation) :
    Determined I w (linked uri range candidates) :=
  .bind .source fun _ => .lift _

lemma determined_findDefinition (e : Entity) : Determined I w e.findDefinition :=
  .bind .source fun _ => .bind (.lift _) fun _ => determined_linked _ _ _

lemma determined_siblingLocation (ofDeclarations : Bool) (sibling : Entity) :
    Determined I w (siblingLocation ofDeclarations sibling) := by
  rw [siblingLocation]
  split_ifs
  · exact determined_findDefinition sibling
  · exact .pure none
  · exact .bind .source fun _ => .bind (.lift _) fun _ => determined_linked _ _ _
  · exact .pure none

variable (htarget : Answers I w target.symbols (.ok known)) (anchor : Entity)
include htarget

lemma determined_linkedSibling (ofDeclarations : Bool) (sibling : Entity) :
    Determined I w (d.linkedSibling anchor ofDeclarations target sibling) := by
  refine .bind (determined_siblingLocation ofDeclarations sibling) fun location => ?_
  cases location with
  | none => exact .pure none
  | some l =>
    refine .bind (.lift _) fun path => .bind (.lift _) fun path' => ?_
    split
    · exact .pure none
    · exact .bind (.bind ⟨_, htarget⟩ fun _ => .pure _) fun _ => .pure _

lemma determined_firstLinked (ofDeclarations : Bool) (siblings : List Entity) :
    Determined I w (d.firstLinked anchor ofDeclarations target siblings) := by
  induction siblings with
  | nil => exact .pure none
  | cons x rest ih =>
    refine .bind (determined_linkedSibling htarget anchor ofDeclarations x) fun found => ?_
    cases found with
    | none => exact ih
    | some e => exact .pure (some e)

lemma determined_siblingPlace (topLevel : List Symbol) (side : Option Side) :
    Determined I w (d.siblingPlace anchor target topLevel side) := by
  rw [siblingPlace]
  split
  · exact .pure none
  · refine .bind (determined_firstLinked htarget _ _ _) fun before => ?_
    cases before with
    | some e => exact .pure _
    | none =>
      refine .bind (determined_firstLinked htarget _ _ _) fun after => ?_
      cases after with
      | some e => exact .pure _
      | none => exact .pure none

end Determined

def withLoaded (target : OpenDocument) (known : List Symbol) : ActionState :=
  { loaded := [(target.opening, known)] }

lemma shows_withLoaded : target.Shows w known (target.withLoaded known) := shows_of_loaded (by simp [withLoaded])

variable {anchor x : Entity} {ofDeclarations : Bool}

lemma firstLinked_cons {rest : List Entity} {r : Option Entity}
    (h : Answers (target.Shows w known) w (d.firstLinked anchor ofDeclarations target (x :: rest)) (.ok r)) :
    ∃ found, Answers (target.Shows w known) w (d.linkedSibling anchor ofDeclarations target x) (.ok found) ∧
      match found with
      | some e => r = some e
      | none => Answers (target.Shows w known) w (d.firstLinked anchor ofDeclarations target rest) (.ok r) := by
  obtain ⟨s', h, -⟩ := h _ shows_withLoaded
  obtain ⟨found, s₁, hx, h⟩ := execute_bind_ok.mp h
  obtain ⟨hx, hs₁⟩ := (determined_linkedSibling answers_symbols _ _ _).of_execute shows_withLoaded hx
  refine ⟨found, hx, ?_⟩
  cases found with
  | none => exact ((determined_firstLinked answers_symbols _ _ _).of_execute hs₁ h).1
  | some e =>
    cases h
    rfl

lemma exists_linkedSibling {c : Entity} {siblings : List Entity}
    (h : Answers (target.Shows w known) w (d.firstLinked anchor ofDeclarations target siblings) (.ok (some c))) :
    ∃ x, Answers (target.Shows w known) w (d.linkedSibling anchor ofDeclarations target x) (.ok (some c)) := by
  induction siblings with
  | nil => cases h.eq (.pure none) shows_withLoaded
  | cons x rest ih =>
    obtain ⟨found, hx, hrest⟩ := firstLinked_cons h
    cases found with
    | some e =>
      cases hrest
      exact ⟨x, hx⟩
    | none => exact ih hrest

/-! ## Siblings -/

variable {topLevel : List Symbol}

lemma mem_siblingFunctions {scope : Entity} (h : x ∈ d.siblingFunctions scope topLevel) :
    x.document = d ∧ x.node.ancestors = scope.node.ancestors := by
  obtain ⟨hx, -⟩ := mem_filter.mp h
  obtain ⟨node, hnode, rfl⟩ := mem_map.mp hx
  refine ⟨rfl, ?_⟩
  cases hscope : scope.node.ancestors with
  | nil =>
    simp only [parent?, hscope, mem_map] at hnode
    obtain ⟨_, -, rfl⟩ := hnode
    rfl
  | cons p rest =>
    simp only [parent?, hscope, children, mem_map] at hnode
    obtain ⟨_, -, rfl⟩ := hnode
    rfl

lemma siblingFunctions_congr {y : Entity} (h : x.node.ancestors = y.node.ancestors) :
    d.siblingFunctions x topLevel = d.siblingFunctions y topLevel := by
  simp only [siblingFunctions, parent?, h]

/-- The counterpart of a function is the same beside each sibling if no scopes are written before their names. -/
lemma linkedSibling_congr {y : Entity} (hdocument : x.document = y.document)
    (hancestors : x.node.ancestors = y.node.ancestors) (hx : x.namedScopes = []) (hy : y.namedScopes = [])
    (ofDeclarations : Bool) (sibling : Entity) :
    d.linkedSibling x ofDeclarations target sibling = d.linkedSibling y ofDeclarations target sibling := by
  have hscopes : x.allScopes = y.allScopes := by
    simp only [Entity.allScopes, Entity.scopes, scopedScopes, hdocument, hancestors, hx, hy]
  have hneighbour : d.isNeighbour x target = d.isNeighbour y target := by
    funext counterpart
    simp only [isNeighbour, hscopes, hancestors]
  simp only [linkedSibling, hneighbour]

/-! ## The nearest counterparts

Seen from a function, the siblings before a place `m` are searched backwards and those from a place `n` on
forwards; which of the two includes the function itself depends on the side that is asked for. -/

/-- The position that the search leads to, if `cp` gives the counterparts of the siblings. -/
inductive Nearest (cp : Nat → Option Entity) (m n : Nat) : Position → Prop
  | after {k : Nat} {c : Entity} (hlt : k < m) (hnear : m ≤ k + siblingLimit) (hc : cp k = some c)
      (hbetween : ∀ l, k < l → l < m → cp l = none) : Nearest cp m n c.range.stop
  | before {k : Nat} {c : Entity} (hnone : ∀ l < m, m ≤ l + siblingLimit → cp l = none) (hle : n ≤ k)
      (hc : cp k = some c) (hbetween : ∀ l, n ≤ l → l < k → cp l = none) : Nearest cp m n c.leadingCommentStart

/-- The counterparts stand in the order of the siblings. -/
structure InOrder (cp : Nat → Option Entity) : Prop where
  comment_le_stop : ∀ k c, cp k = some c → c.leadingCommentStart ≤ c.range.stop
  stop_le_comment : ∀ k l c e, k < l → cp k = some c → cp l = some e → c.range.stop ≤ e.leadingCommentStart

variable {cp : Nat → Option Entity} {i j k m n m' n' : Nat} {c e : Entity} {p q : Position}

lemma InOrder.stop_le_stop (h : InOrder cp) (hle : k ≤ i) (hc : cp k = some c) (he : cp i = some e) :
    c.range.stop ≤ e.range.stop := by
  rcases Nat.lt_or_eq_of_le hle with hlt | rfl
  · exact le_trans (h.stop_le_comment k i c e hlt hc he) (h.comment_le_stop i e he)
  · cases hc.symm.trans he
    exact le_refl _

lemma InOrder.comment_le_comment (h : InOrder cp) (hle : k ≤ i) (hc : cp k = some c) (he : cp i = some e) :
    c.leadingCommentStart ≤ e.leadingCommentStart := by
  rcases Nat.lt_or_eq_of_le hle with hlt | rfl
  · exact le_trans (h.comment_le_stop k c hc) (h.stop_le_comment k i c e hlt hc he)
  · cases hc.symm.trans he
    exact le_refl _

/-- The position does not lie before the end of an earlier counterpart. -/
lemma Nearest.stop_le (h : Nearest cp m n p) (horder : InOrder cp) (hm : i ≤ m) (hn : i ≤ n) (hk : k < i)
    (he : cp k = some e) : e.range.stop ≤ p := by
  cases h with
  | @after k' c hlt _ hc hbetween =>
    refine horder.stop_le_stop (Nat.le_of_not_lt fun hlt' => ?_) he hc
    cases he.symm.trans (hbetween k hlt' (by omega))
  | @before k' c _ hle hc _ => exact horder.stop_le_comment k k' e c (by omega) he hc

/-- The position does not lie behind the start of the comment before a later counterpart. -/
lemma Nearest.le_comment (h : Nearest cp m n p) (horder : InOrder cp) (hm : m ≤ i + 1) (hn : n ≤ i + 1)
    (hk : i < k) (he : cp k = some e) : p ≤ e.leadingCommentStart := by
  cases h with
  | @after k' c hlt _ hc _ => exact horder.stop_le_comment k' k c e (by omega) hc he
  | @before k' c _ _ hc hbetween =>
    refine horder.comment_le_comment (Nat.le_of_not_lt fun hlt' => ?_) hc he
    cases he.symm.trans (hbetween k (by omega) hlt')

/-- Of two functions the earlier one is led to the earlier position. -/
lemma Nearest.le (h : Nearest cp m n p) (h' : Nearest cp m' n' q) (horder : InOrder cp) (hij : i < j)
    (hi : cp i = none) (hm : i ≤ m ∧ m ≤ i + 1) (hn : i ≤ n ∧ n ≤ i + 1) (hm' : j ≤ m' ∧ m' ≤ j + 1)
    (hn' : j ≤ n' ∧ n' ≤ j + 1) : p ≤ q := by
  cases h with
  | @after k c hlt _ hc _ =>
    have hki : k < j := by omega
    exact h'.stop_le horder hm'.1 hn'.1 hki hc
  | @before k c hnone hle hc hbetween =>
    cases h' with
    | @after k' c' hlt' hnear' hc' _ =>
      -- what the later one finds before it lies behind the earlier one, or both of them reach it
      have hi' : k' ≠ i := by
        rintro rfl
        cases hi.symm.trans hc'
      by_cases hk' : k' < m
      · cases hc'.symm.trans (hnone k' hk' (by omega))
      · refine le_trans (horder.comment_le_stop _ _ hc) (horder.stop_le_stop (Nat.le_of_not_lt fun hlt => ?_) hc hc')
        cases hc'.symm.trans (hbetween k' (by omega) hlt)
    | @before k' c' _ hle' hc' _ =>
      refine horder.comment_le_comment (Nat.le_of_not_lt fun hlt => ?_) hc hc'
      cases hc'.symm.trans (hbetween k' (by omega) hlt)

/-! ## Places beside siblings -/

/-- The counterpart of a function in a target with the given symbols, as it is found beside the function. -/
def counterpart? (d target : OpenDocument) (w : Workspace) (known : List Symbol) (ofDeclarations : Bool) (x : Entity) :
    Option Entity :=
  ((d.linkedSibling x ofDeclarations target x).execute w (target.withLoaded known)).1.toOption.join

lemma counterpart?_of_answers {r : Option Entity}
    (h : Answers (target.Shows w known) w (d.linkedSibling x ofDeclarations target x) (.ok r)) :
    d.counterpart? target w known ofDeclarations x = r := by
  rw [counterpart?, h.outcome shows_withLoaded]
  rfl

/-- The search for a place beside siblings leads to the given place whenever the target shows the given symbols. -/
def PlacedBeside (d target : OpenDocument) (w : Workspace) (topLevel known : List Symbol) (side : Option Side)
    (a : Entity) (p : Placement) : Prop :=
  Answers (target.Shows w known) w (d.siblingPlace a target topLevel side) (.ok (some p))

/-- The functions of a scope have names at different places without scopes, and counterparts in their own order. -/
structure OrderedSiblings (d target : OpenDocument) (w : Workspace) (known : List Symbol) (ofDeclarations : Bool)
    (siblings : List Entity) : Prop where
  selections : (siblings.map (·.selection)).Nodup
  unqualified : ∀ x ∈ siblings, x.namedScopes = []
  comment_le_stop : ∀ c ∈ siblings.filterMap (d.counterpart? target w known ofDeclarations),
    c.leadingCommentStart ≤ c.range.stop
  chain : (siblings.filterMap (d.counterpart? target w known ofDeclarations)).IsChain
    fun c e => c.range.stop ≤ e.leadingCommentStart

variable {ofDeclarations : Bool} {siblings : List Entity} {scope a b x : Entity} {side : Option Side}
  {place place' : Placement}

lemma OrderedSiblings.inOrder (h : OrderedSiblings d target w known ofDeclarations siblings) :
    InOrder fun k => siblings[k]?.bind (d.counterpart? target w known ofDeclarations) := by
  have hpairs := pairwise_filterMap.mp <| TextDocument.pairwise_of_isChain h.chain fun a b hb c hab hbc =>
    le_trans hab (le_trans (h.comment_le_stop b hb) hbc)
  constructor
  · intro k c hc
    obtain ⟨x, hx, hc⟩ := Option.bind_eq_some_iff.mp hc
    exact h.comment_le_stop c (mem_filterMap.mpr ⟨x, mem_of_getElem? hx, hc⟩)
  · intro k l c e hkl hc he
    obtain ⟨x, hx, hc⟩ := Option.bind_eq_some_iff.mp hc
    obtain ⟨y, hy, he⟩ := Option.bind_eq_some_iff.mp he
    obtain ⟨hk, rfl⟩ := List.getElem?_eq_some_iff.mp hx
    obtain ⟨hl, rfl⟩ := List.getElem?_eq_some_iff.mp hy
    exact pairwise_iff_getElem.mp hpairs k l hk hl hkl c hc e he

lemma findIdx?_selection (h : (siblings.map (·.selection)).Nodup) (ha : siblings[i]? = some a) :
    siblings.findIdx? (·.selection = a.selection) = some i := by
  obtain ⟨hi, rfl⟩ := List.getElem?_eq_some_iff.mp ha
  rw [findIdx?_eq_some_iff_getElem]
  refine ⟨hi, by simp, fun j hj => ?_⟩
  have hne := pairwise_iff_getElem.mp h j i (by simp; omega) (by simpa using hi) hj
  simpa using hne

def searchEnd (side : Option Side) (i : Nat) : Nat := if side = some .after then i + 1 else i

/-- Where the siblings that are searched forwards begin. -/
def searchStart (side : Option Side) (i : Nat) : Nat := if side = some .before then i else i + 1

lemma reverse_take_searchEnd (siblings : List Entity) (side : Option Side) (i : Nat) :
    (if side = some .after then siblings[i]?.toList else []) ++ (siblings.take i).reverse =
      (siblings.take (searchEnd side i)).reverse := by
  rw [searchEnd]
  split
  · rw [take_add_one, reverse_append]
    cases siblings[i]? <;> rfl
  · rfl

lemma drop_searchStart (siblings : List Entity) (side : Option Side) (i : Nat) :
    (if side = some .before then siblings[i]?.toList else []) ++ siblings.drop (i + 1) =
      siblings.drop (searchStart side i) := by
  rw [searchStart]
  split
  · rw [← drop_drop, ← head?_drop]
    cases siblings.drop i <;> rfl
  · rfl

/-- What is searched backwards, by places in the list of siblings. -/
lemma getElem?_backwards (siblings : List Entity) (h : j < siblingLimit) (hm : j < m) (hle : m ≤ siblings.length) :
    ((siblings.take m).reverse.take siblingLimit)[j]? = siblings[m - 1 - j]? := by
  rw [getElem?_take_of_lt h, getElem?_reverse (by simp; omega), length_take, Nat.min_eq_left hle,
    getElem?_take_of_lt (by omega)]

lemma getElem?_forwards (siblings : List Entity) (h : j < siblingLimit) :
    ((siblings.drop n).take siblingLimit)[j]? = siblings[n + j]? := by
  rw [getElem?_take_of_lt h, getElem?_drop]

lemma placedBeside_of_execute
    (h : ((d.siblingPlace a target topLevel side).execute w (target.withLoaded known)).1.toOption = some (some place)) :
    PlacedBeside d target w topLevel known side a place := by
  have hdetermined : Determined (target.Shows w known) w (d.siblingPlace a target topLevel side) :=
    determined_siblingPlace answers_symbols a topLevel side
  have hanswers := hdetermined.answers shows_withLoaded
  rwa [ok_of_toOption h] at hanswers

lemma PlacedBeside.firstLinked (h : PlacedBeside d target w topLevel known side a place)
    (hindex : (d.siblingFunctions a topLevel).findIdx? (·.selection = a.selection) = some i) :
    let siblings := d.siblingFunctions a topLevel
    let search := d.firstLinked a (a.isFunctionDeclaration || side.isSome) target
    let before := search ((siblings.take (searchEnd side i)).reverse.take siblingLimit)
    let after := search ((siblings.drop (searchStart side i)).take siblingLimit)
    (∃ c, Answers (target.Shows w known) w before (.ok (some c)) ∧ place.position = c.range.stop) ∨
      Answers (target.Shows w known) w before (.ok none) ∧
        ∃ c, Answers (target.Shows w known) w after (.ok (some c)) ∧ place.position = c.leadingCommentStart := by
  obtain ⟨s', h, -⟩ := h _ shows_withLoaded
  rw [siblingPlace] at h
  simp only [hindex, reverse_take_searchEnd, drop_searchStart, execute_bind_ok] at h
  obtain ⟨found, s₁, hrun, h⟩ := h
  obtain ⟨hbefore, hs₁⟩ := (determined_firstLinked answers_symbols _ _ _).of_execute shows_withLoaded hrun
  cases found with
  | some c =>
    cases h
    exact .inl ⟨c, hbefore, rfl⟩
  | none =>
    obtain ⟨found, s₂, hrun', h⟩ := execute_bind_ok.mp h
    obtain ⟨hafter, -⟩ := (determined_firstLinked answers_symbols _ _ _).of_execute hs₁ hrun'
    cases found with
    | none => cases h
    | some c =>
      simp only [execute_pure, Prod.mk.injEq, Except.ok.injEq, Option.some.injEq] at h
      exact .inr ⟨hbefore, c, hafter, by rw [← h.1]⟩

lemma ne_nil_of_linkedSibling {c : Entity}
    (h : Answers (target.Shows w known) w (d.linkedSibling anchor ofDeclarations target x) (.ok (some c))) :
    known ≠ [] := by
  rintro rfl
  obtain ⟨s', hrun, -⟩ := h _ shows_withLoaded
  obtain ⟨location, s₁, hlocation, hrun⟩ := execute_bind_ok.mp hrun
  have hshows : target.Shows w [] s₁ := ((determined_siblingLocation _ _).of_execute shows_withLoaded hlocation).2
  cases location with
  | none => cases hrun
  | some l =>
    simp only [execute_bind_ok] at hrun
    obtain ⟨path, _, hpath, path', _, hpath', hrun⟩ := hrun
    obtain ⟨-, rfl⟩ := Prod.mk.inj hpath
    obtain ⟨-, rfl⟩ := Prod.mk.inj hpath'
    split at hrun
    · cases hrun
    · obtain ⟨found, s₂, hfound, hrun⟩ := execute_bind_ok.mp hrun
      obtain ⟨symbols, hsymbols, rfl⟩ := entityAt?_ok hfound
      rw [Shows, hsymbols] at hshows
      cases hshows
      cases hrun

lemma PlacedBeside.ne_nil (h : PlacedBeside d target w topLevel known side a place) : known ≠ [] := by
  cases hindex : (d.siblingFunctions a topLevel).findIdx? (·.selection = a.selection) with
  | none =>
    rw [PlacedBeside, siblingPlace] at h
    simp only [hindex] at h
    cases h.eq (.pure none) shows_withLoaded
  | some i =>
    obtain ⟨c, hc, -⟩ | ⟨-, c, hc, -⟩ := h.firstLinked hindex
    all_goals
      obtain ⟨x, hx⟩ := exists_linkedSibling hc
      exact ne_nil_of_linkedSibling hx

/-- The siblings are linked to counterparts, seen from one of them. -/
def LinksTo (d target : OpenDocument) (w : Workspace) (known : List Symbol) (ofDeclarations : Bool) (a : Entity)
    (siblings : List Entity) : Prop :=
  ∀ x ∈ siblings, ∀ r, Answers (target.Shows w known) w (d.linkedSibling a ofDeclarations target x) (.ok r) →
    d.counterpart? target w known ofDeclarations x = r

lemma OrderedSiblings.linksTo (h : OrderedSiblings d target w known ofDeclarations (d.siblingFunctions a topLevel))
    (ha : a ∈ d.siblingFunctions a topLevel) :
    LinksTo d target w known ofDeclarations a (d.siblingFunctions a topLevel) := by
  intro x hx r hr
  refine counterpart?_of_answers ?_
  rwa [linkedSibling_congr ((mem_siblingFunctions hx).1.trans (mem_siblingFunctions ha).1.symm)
    (mem_siblingFunctions hx).2 (h.unqualified x hx) (h.unqualified a ha)]

lemma LinksTo.mono {siblings' : List Entity} (h : LinksTo d target w known ofDeclarations a siblings)
    (hsub : siblings' ⊆ siblings) : LinksTo d target w known ofDeclarations a siblings' :=
  fun x hx => h x (hsub hx)

lemma LinksTo.findSome?_eq (hlinks : LinksTo d target w known ofDeclarations a siblings) {r : Option Entity}
    (h : Answers (target.Shows w known) w (d.firstLinked a ofDeclarations target siblings) (.ok r)) :
    siblings.findSome? (d.counterpart? target w known ofDeclarations) = r := by
  induction siblings with
  | nil => exact Except.ok.inj (h.eq (.pure none) shows_withLoaded).symm
  | cons x rest ih =>
    obtain ⟨found, hx, hrest⟩ := firstLinked_cons h
    rw [findSome?_cons, hlinks x mem_cons_self found hx]
    cases found with
    | some e => exact hrest.symm
    | none => exact ih (hlinks.mono (subset_cons_self x rest)) hrest

lemma exists_getElem?_of_findSome? {f : Entity → Option Entity} (h : siblings.findSome? f = some c) :
    ∃ k < siblings.length, siblings[k]?.bind f = some c ∧ ∀ l < k, siblings[l]?.bind f = none := by
  obtain ⟨pre, x, post, rfl, hx, hpre⟩ := findSome?_eq_some_iff.mp h
  refine ⟨pre.length, by simp, by simpa using hx, fun l hl => ?_⟩
  rw [getElem?_append_left hl, getElem?_eq_getElem hl]
  exact hpre _ (getElem_mem hl)

lemma searchEnd_bounds (side : Option Side) (i : Nat) : i ≤ searchEnd side i ∧ searchEnd side i ≤ i + 1 := by
  rw [searchEnd]
  split <;> omega

lemma searchStart_bounds (side : Option Side) (i : Nat) : i ≤ searchStart side i ∧ searchStart side i ≤ i + 1 := by
  rw [searchStart]
  split <;> omega

section

variable (h : PlacedBeside d target w topLevel known side a place)
  (hkind : (a.isFunctionDeclaration || side.isSome) = ofDeclarations)
  (hordered : OrderedSiblings d target w known ofDeclarations (d.siblingFunctions scope topLevel))
  (ha : (d.siblingFunctions scope topLevel)[i]? = some a)
include h hkind hordered ha

lemma PlacedBeside.nearest :
    Nearest (fun k => (d.siblingFunctions scope topLevel)[k]?.bind (d.counterpart? target w known ofDeclarations))
      (searchEnd side i) (searchStart side i) place.position := by
  have hmem := mem_of_getElem? ha
  have hscope : d.siblingFunctions a topLevel = d.siblingFunctions scope topLevel :=
    siblingFunctions_congr (mem_siblingFunctions hmem).2
  rw [← hscope] at hordered ha hmem ⊢
  have hsearch := h.firstLinked (findIdx?_selection hordered.selections ha)
  have hlinks := hordered.linksTo hmem
  have hlength : searchEnd side i ≤ (d.siblingFunctions a topLevel).length :=
    Nat.le_trans (searchEnd_bounds side i).2 (List.getElem?_eq_some_iff.mp ha).1
  rw [hkind] at hsearch
  generalize d.siblingFunctions a topLevel = siblings at *
  generalize searchEnd side i = m at *
  generalize searchStart side i = n at *
  have hbackwards : LinksTo d target w known ofDeclarations a ((siblings.take m).reverse.take siblingLimit) :=
    hlinks.mono fun x hx => mem_of_mem_take (mem_reverse.mp (mem_of_mem_take hx))
  have hforwards : LinksTo d target w known ofDeclarations a ((siblings.drop n).take siblingLimit) :=
    hlinks.mono fun x hx => mem_of_mem_drop (mem_of_mem_take hx)
  rcases hsearch with ⟨c, hfound, hposition⟩ | ⟨hnone, c, hfound, hposition⟩
  · obtain ⟨k, hk, hc, hbetween⟩ := exists_getElem?_of_findSome? (hbackwards.findSome?_eq hfound)
    rw [hposition]
    simp only [length_take, length_reverse] at hk
    rw [getElem?_backwards siblings (by omega) (by omega) hlength] at hc
    refine .after (k := m - 1 - k) (by omega) (by omega) hc fun l hl hlm => ?_
    have hl' := hbetween (m - 1 - l) (by omega)
    rwa [getElem?_backwards siblings (by omega) (by omega) hlength, show m - 1 - (m - 1 - l) = l by omega] at hl'
  · obtain ⟨k, hk, hc, hbetween⟩ := exists_getElem?_of_findSome? (hforwards.findSome?_eq hfound)
    have hnone := findSome?_eq_none_iff.mp (hbackwards.findSome?_eq hnone)
    rw [hposition]
    simp only [length_take, length_drop] at hk
    rw [getElem?_forwards siblings (by omega)] at hc
    refine .before (k := n + k) (fun l hl hnear => ?_) (by omega) hc fun l hl hlk => ?_
    · have hl' := getElem?_backwards siblings (j := m - 1 - l) (by omega) (by omega) hlength
      rw [show m - 1 - (m - 1 - l) = l by omega] at hl'
      exact Option.bind_eq_none_iff.mpr fun x hx => hnone x (mem_of_getElem? (hl'.trans hx))
    · have hl' := hbetween (l - n) (by omega)
      rwa [getElem?_forwards siblings (by omega), show n + (l - n) = l by omega] at hl'

/-- The place for a function lies behind the counterparts of earlier siblings and before those of later ones. -/
lemma PlacedBeside.among_counterparts (hx : (d.siblingFunctions scope topLevel)[k]? = some x)
    (hc : d.counterpart? target w known ofDeclarations x = some c) :
    (k < i → c.range.stop ≤ place.position) ∧ (i < k → place.position ≤ c.leadingCommentStart) := by
  have hnearest := h.nearest hkind hordered ha
  have hend := searchEnd_bounds side i
  have hstart := searchStart_bounds side i
  have hk : (d.siblingFunctions scope topLevel)[k]?.bind (d.counterpart? target w known ofDeclarations) = some c := by
    rwa [hx]
  exact ⟨fun hlt => hnearest.stop_le hordered.inOrder hend.1 hstart.1 hlt hk,
    fun hlt => hnearest.le_comment hordered.inOrder hend.2 hstart.2 hlt hk⟩

/-- The places for two functions lie in their order if the earlier one has no counterpart. -/
lemma PlacedBeside.le {side' : Option Side} (h' : PlacedBeside d target w topLevel known side' b place')
    (hkind' : (b.isFunctionDeclaration || side'.isSome) = ofDeclarations)
    (hb : (d.siblingFunctions scope topLevel)[j]? = some b) (hij : i < j)
    (hnone : d.counterpart? target w known ofDeclarations a = none) : place.position ≤ place'.position := by
  refine (h.nearest hkind hordered ha).le (h'.nearest hkind' hordered hb) hordered.inOrder hij ?_
    (searchEnd_bounds side i) (searchStart_bounds side i) (searchEnd_bounds side' j) (searchStart_bounds side' j)
  rwa [ha]

end

end OpenDocument

/-! ## A run that adds definitions -/

namespace CodeAction

open OpenDocument

variable {w : Workspace} {d target : OpenDocument} {known topLevel : List Symbol}

section Determined

variable {I : ActionState → Prop}

lemma determined_headFor (e : Entity) (p : Position) (scopeString : Text) (mayBeInline : Bool) :
    Determined I w (e.headFor target p scopeString mayBeInline) := by
  unfold Entity.headFor
  extract_lets d start offset declaration masked nameEnd
  generalize findAfter? ['('] masked nameEnd = left
  generalize findAfter? [')'] masked nameEnd = right
  rcases left with _ | l <;> rcases right with _ | r
  · exact .pure []
  · exact .pure []
  · exact .pure []
  · exact .bind (.bind .settings fun _ => .bind (.lift _) fun _ => .lift _) fun inHeader => .pure _

variable (htarget : Answers I w target.symbols (.ok known))
include htarget

lemma determined_namesakes (e : Entity) : Determined I w (target.namesakes e) :=
  .bind (.bind ⟨_, htarget⟩ fun _ => .pure _) fun _ => .pure _

lemma determined_scopeString (e : Entity) (p : Position) (forFriend : Option Bool) :
    Determined I w (e.scopeString target p forFriend) := by
  refine .bind (.mapM (fun scope => ?_) _) fun _ => .pure _
  refine .bind (determined_namesakes htarget scope) fun found => ?_
  dsimp only
  split
  · exact .pure []
  · exact .pure _

lemma determined_skeleton (e : Entity) (place : Placement) (initializers : Option Json) :
    Determined I w (skeleton e target place initializers) := by
  refine .bind .settings fun s => .bind (.lift _) fun _ => ?_
  refine .bind ?_ fun head => .bind (.lift _) fun _ => .bind (.lift _) fun _ => .bind (.lift _) fun _ =>
    .bind .settings fun _ => .bind (.lift _) fun _ => .lift _
  rw [Entity.definitionHead]
  split
  · exact .bind (determined_scopeString htarget _ _ _) fun _ => determined_headFor _ _ _ _
  · exact .pure []

lemma determined_lastPlace : Determined I w target.lastPlace := by
  refine .bind ⟨_, htarget⟩ fun symbols => ?_
  split
  · exact .pure _
  · exact .pure _

lemma determined_namespaceEnd (scopes : List Entity) : Determined I w (target.namespaceEnd scopes) := by
  induction scopes with
  | nil => exact .pure none
  | cons scope rest ih =>
    rw [namespaceEnd]
    split
    · exact ih
    · refine .bind (determined_namesakes htarget scope) fun found => ?_
      split
      · exact ih
      · split
        · exact .pure _
        · exact .pure _

lemma determined_placeForCounterpart (hd : Answers I w d.symbols (.ok topLevel)) (e : Entity) :
    Determined I w (d.placeForCounterpart e target none none none) := by
  refine .bind ⟨_, htarget⟩ fun symbols => ?_
  split
  · exact .pure _
  · refine .bind ⟨_, hd⟩ fun topLevel => ?_
    split
    · exact determined_lastPlace htarget
    · refine .bind (determined_siblingPlace htarget _ _ _) fun found => ?_
      cases found with
      | some p => exact .pure p
      | none =>
        refine .bind (determined_namespaceEnd htarget _) fun found => ?_
        cases found with
        | some p => exact .pure p
        | none => exact determined_lastPlace htarget

/-- The definition of a function as it is put into the target. -/
def Defines (I : ActionState → Prop) (w : Workspace) (d target : OpenDocument) (x : Entity) (e : TextEdit) : Prop :=
  ∃ place text, Answers I w (d.placeForCounterpart x target none none none) (.ok place) ∧
    Answers I w (skeleton x target place none) (.ok text) ∧ e = ⟨⟨place.position, place.position⟩, text⟩

lemma foldlM_defineIn {s s' : ActionState} (hd : Answers I w d.symbols (.ok topLevel)) (hs : I s) {xs : List Entity}
    {edit edit' : WorkspaceEdit}
    (h : (xs.foldlM (fun edit e => defineIn e d target edit none) edit).execute w s = (.ok edit', s')) :
    ∃ edits, xs.Forall₂ (Defines I w d target) edits ∧ edit'.editsOf target.uri = edit.editsOf target.uri ++ edits := by
  induction xs generalizing s edit with
  | nil =>
    cases h
    exact ⟨[], .nil, by simp⟩
  | cons x xs ih =>
    simp only [foldlM_cons, defineIn, execute_bind_ok] at h
    obtain ⟨edit₁, s₁, ⟨place, s₂, hplace, text, s₃, htext, hx⟩, h⟩ := h
    cases hx
    obtain ⟨hplace, hs₂⟩ := (determined_placeForCounterpart htarget hd x).of_execute hs hplace
    obtain ⟨htext, hs₃⟩ := (determined_skeleton htarget x place none).of_execute hs₂ htext
    obtain ⟨edits, hedits, heq⟩ := ih hs₃ h
    refine ⟨_, .cons ⟨place, text, hplace, htext, rfl⟩ hedits, ?_⟩
    rw [heq, WorkspaceEdit.insert, WorkspaceEdit.editsOf_replace, append_assoc]
    rfl

end Determined

def functionsIn (d : OpenDocument) (topLevel : List Symbol) : List Entity :=
  ((preorderAll [] topLevel).map fun node => (⟨d, node⟩ : Entity)).filter (·.isFunction)

def Loaded (d : OpenDocument) (topLevel : List Symbol) (s : ActionState) : Prop :=
  s.loaded.lookup d.opening = some topLevel

lemma determined_liftExcept {α : Type} {I : ActionState → Prop} (x : Outcome α) :
    Determined I w (liftExcept x : CodeAction α) :=
  ⟨x, fun s hs => ⟨s, by cases x <;> rfl, hs⟩⟩

lemma determined_classAt (p : Position) : Determined (Loaded d topLevel) w (classAt d p) := by
  refine .bind (.bind ⟨_, fun s hs => ⟨s, execute_symbols_of_loaded hs, hs⟩⟩ fun _ => .pure _) fun found => ?_
  dsimp only
  split
  · exact .pure _
  · exact ⟨_, fun s hs => ⟨s, rfl, hs⟩⟩

lemma loaded_partnerUri (uri : Text) (s : ActionState) : ((partnerUri uri).execute w s).2.loaded = s.loaded := by
  have hread : (read : CodeAction Workspace).execute w s = (.ok w, s) := rfl
  simp only [partnerUri, execute_bind, hread]
  cases w.partners with
  | none => rfl
  | some search =>
    simp only [execute_bind, execute_lift, execute_get, execute_modify]
    cases Uri.toPath uri with
    | error e => rfl
    | ok path =>
      dsimp only
      cases (search s.pairs path).1 <;> rfl

lemma loaded_openOther (uri : Text) (s : ActionState) : ((d.openOther uri).execute w s).2.loaded = s.loaded := by
  rw [openOther]
  split
  · rfl
  · simp only [openDocument, execute_bind, execute_source, execute_lift]
    cases w.source.read uri <;> rfl

variable {p : Option Position} {s s' : ActionState}

/-- The declared functions are some of the functions of the document. -/
lemma declaredFunctions_ok {declared : List Entity}
    (h : (declaredFunctions d p).execute w s = (.ok declared, s')) :
    ∃ topLevel keep, d.Shows w topLevel s ∧ Loaded d topLevel s' ∧
      declared = (functionsIn d topLevel).filter keep ∧ ∀ x, keep x → x.isFunctionDeclaration := by
  simp only [declaredFunctions, OpenDocument.functions, OpenDocument.entities, execute_bind_ok] at h
  obtain ⟨_, s₁, ⟨_, _, ⟨topLevel, _, hsymbols, hentities⟩, hfunctions⟩, h⟩ := h
  cases hentities
  cases hfunctions
  have hshows := congrArg Prod.fst hsymbols
  have hloaded := loaded_of_symbols hsymbols
  cases p with
  | none =>
    cases h
    exact ⟨topLevel, _, hshows, hloaded, rfl, fun x hx => hx⟩
  | some p =>
    obtain ⟨c, s₂, hc, h⟩ := execute_bind_ok.mp h
    cases h
    have hs₂ := ((determined_classAt p).of_execute hloaded hc).2
    refine ⟨topLevel, fun x => _, hshows, hs₂, filter_filter, fun x hx => ?_⟩
    exact (Bool.and_eq_true_iff.mp hx).2

lemma undefinedFunctions_ok {names : Option Json} {found : List Entity}
    (h : (undefinedFunctions d p names).execute w s = (.ok found, s')) :
    ∃ topLevel keep, d.Shows w topLevel s ∧ Loaded d topLevel s' ∧ found = (functionsIn d topLevel).filter keep ∧
      ∀ x ∈ found, x.isFunctionDeclaration ∧ Answers (Loaded d topLevel) w x.findDefinition (.ok none) := by
  simp only [undefinedFunctions, execute_bind_ok] at h
  obtain ⟨declared, s₁, hdeclared, chosen, s₂, hchosen, h⟩ := h
  obtain ⟨topLevel, keep, hshows, hs₁, rfl, hkeep⟩ := declaredFunctions_ok hdeclared
  obtain ⟨hs₂, keep', rfl, -⟩ := filterM_ok hs₁ (fun x => determined_liftExcept _) hchosen
  obtain ⟨hs₃, keep'', rfl, hnone⟩ := filterM_ok hs₂
    (fun x => .bind (determined_findDefinition x) fun _ => .pure _) h
  refine ⟨topLevel, fun x => keep'' x && keep' x && keep x, hshows, hs₃, ?_, fun x hx => ?_⟩
  · rw [filter_filter, filter_filter]
  · obtain ⟨hx, hx''⟩ := mem_filter.mp hx
    have hx' := (mem_filter.mp (mem_filter.mp hx).1).2
    have hanswer := hnone x hx
    rw [hx''] at hanswer
    obtain ⟨_, hrun, -⟩ := hanswer _ hs₃
    obtain ⟨found, _, hfound, hrun⟩ := execute_bind_ok.mp hrun
    refine ⟨hkeep x hx', ?_⟩
    cases found with
    | none => exact ((determined_findDefinition x).of_execute hs₃ hfound).1
    | some l => cases hrun

/-- The target shows its symbols, and those of the document are loaded. -/
def Present (w : Workspace) (d target : OpenDocument) (topLevel known : List Symbol) (s : ActionState) : Prop :=
  target.Shows w known s ∧ Loaded d topLevel s

lemma Present.answers_target : Answers (Present w d target topLevel known) w target.symbols (.ok known) := by
  rintro s ⟨htarget, hd⟩
  obtain ⟨s', hrun, hloaded⟩ := htarget.execute_symbols
  have hkept := keeps_loaded_symbols (w := w) target hd
  rw [hrun] at hkept
  exact ⟨s', hrun, shows_of_loaded hloaded, hkept⟩

lemma Present.answers_own : Answers (Present w d target topLevel known) w d.symbols (.ok topLevel) :=
  fun s hs => ⟨s, execute_symbols_of_loaded hs.2, hs⟩

/-- A first definition cannot be written unless the target shows its symbols. -/
lemma shows_of_foldlM {xs : List Entity} {edit edit' : WorkspaceEdit} (hne : xs ≠ [])
    (h : (xs.foldlM (fun edit e => defineIn e d target edit none) edit).execute w s = (.ok edit', s')) :
    ∃ known, target.Shows w known s := by
  obtain ⟨x, xs, rfl⟩ := exists_cons_of_ne_nil hne
  simp only [foldlM_cons, defineIn, placeForCounterpart, execute_bind_ok] at h
  obtain ⟨_, _, ⟨_, _, ⟨known, _, hknown, -⟩, -⟩, -⟩ := h
  exact ⟨known, congrArg Prod.fst hknown⟩

/-- What adding definitions goes through: the functions asked for that are not defined, the document their definitions
go to, and the symbols that both documents show. -/
def Adds (w : Workspace) (s : ActionState) (uri : Text) (p : Option Position) (inCurrentFile : Bool)
    (names : Option Json) (d target : OpenDocument) (topLevel known : List Symbol) (undefined : List Entity) : Prop :=
  ∃ targetUri s₁ s₂ s₃ s₄, (openDocument uri).execute w s = (.ok d, s₁) ∧ d.Shows w topLevel s₁ ∧
    (undefinedFunctions d p names).execute w s₁ = (.ok undefined, s₂) ∧
    (definitionsUri uri inCurrentFile undefined).execute w s₂ = (.ok (some targetUri), s₃) ∧
    (d.openOther targetUri).execute w s₃ = (.ok target, s₄) ∧ Present w d target topLevel known s₄

lemma addDefinitions_ok {uri : Text} {inCurrentFile : Bool} {names : Option Json} {edit : WorkspaceEdit}
    (h : (addDefinitions uri p inCurrentFile names).execute w s = (.ok edit, s')) :
    ∃ d target topLevel known keep s₁,
      Adds w s uri p inCurrentFile names d target topLevel known ((functionsIn d topLevel).filter keep) ∧
      Present w d target topLevel known s₁ ∧ (∀ x ∈ (functionsIn d topLevel).filter keep,
        x.isFunctionDeclaration ∧ Answers (Loaded d topLevel) w x.findDefinition (.ok none)) ∧
      (((functionsIn d topLevel).filter keep).foldlM (fun edit e => defineIn e d target edit none) {}).execute w s₁ =
        (.ok edit, s') := by
  simp only [addDefinitions, execute_bind_ok] at h
  obtain ⟨d, s₁, hopen, found, s₂, hfound, h⟩ := h
  obtain ⟨topLevel, keep, hshown, hs₂, rfl, hundefined⟩ := undefinedFunctions_ok hfound
  split at h
  · cases h
  next hne =>
    obtain ⟨targetUri, s₃, htargetUri, h⟩ := execute_bind_ok.mp h
    cases targetUri with
    | none => cases h
    | some targetUri =>
      simp only [execute_bind_ok] at h
      obtain ⟨target, s₄, htarget, _, s₅, hpath, h⟩ := h
      obtain ⟨-, rfl⟩ := Prod.mk.inj hpath
      have hs₃ : s₃.loaded = s₂.loaded := by
        have hkept := htargetUri
        rw [definitionsUri] at hkept
        split at hkept
        · cases hkept
          rfl
        · have hloaded := loaded_partnerUri (w := w) uri s₂
          rwa [hkept] at hloaded
      have hs₄ : s₄.loaded = s₃.loaded := by
        have hloaded := loaded_openOther (w := w) (d := d) targetUri s₃
        rwa [htarget] at hloaded
      obtain ⟨known, hshows⟩ := shows_of_foldlM (by simpa using hne) h
      have hpresent : Present w d target topLevel known s₄ := ⟨hshows, by rwa [Loaded, hs₄, hs₃]⟩
      exact ⟨d, target, topLevel, known, keep, s₄, ⟨targetUri, s₁, s₂, s₃, s₄, hopen, hshown, hfound, htargetUri,
        htarget, hpresent⟩, hpresent, hundefined, h⟩

/-- A function gets the place beside its siblings if there is one. -/
lemma answers_placeForCounterpart {scope x : Entity} {p : Placement} (hs : Present w d target topLevel known s)
    (hx : x ∈ d.siblingFunctions scope topLevel) (h : PlacedBeside d target w topLevel known none x p) :
    Answers (Present w d target topLevel known) w (d.placeForCounterpart x target none none none) (.ok p) := by
  refine .bind Present.answers_target ?_
  rw [if_neg (by simpa using h.ne_nil)]
  refine .bind Present.answers_own ?_
  have hhere : ¬ (x.uri != d.uri || (x.node.ancestors.isEmpty && topLevel.isEmpty)) := by
    obtain ⟨hdocument, hancestors⟩ := mem_siblingFunctions hx
    rw [Entity.uri, hdocument, Bool.or_eq_true, Bool.and_eq_true, List.isEmpty_iff, List.isEmpty_iff]
    rintro (huri | ⟨hnone, rfl⟩)
    · simp at huri
    · rw [hnone] at hancestors
      simp [siblingFunctions, parent?, ← hancestors] at hx
  rw [if_neg hhere]
  have hplace : Answers (Present w d target topLevel known) w (d.siblingPlace x target topLevel none) (.ok (some p)) := by
    have hanswers := (determined_siblingPlace (d := d) Present.answers_target x topLevel none).answers hs
    rwa [h.outcome hs.1] at hanswers
  exact .bind hplace (.pure p)

end CodeAction

namespace ScopedSymbol

lemma map_sublist_preorderAll (ancestors : List Symbol) (forest : List Symbol) :
    (forest.map fun x => (⟨x, ancestors⟩ : ScopedSymbol)).Sublist (preorderAll ancestors forest) := by
  induction forest with
  | nil => exact .slnil
  | cons x rest ih =>
    obtain ⟨name, signature, detail, kind, range, selection, children⟩ := x
    exact .cons_cons _ (ih.trans (sublist_append_right _ _))

mutual

/-- The symbols beside one of a tree are listed in their order. -/
theorem children_sublist_preorder (ancestors : List Symbol) (root : Symbol) {node : ScopedSymbol}
    (h : node ∈ preorder ancestors root) :
    node.ancestors = ancestors ∨ ∃ p, node.parent? = some p ∧ p.children.Sublist (preorder ancestors root) := by
  obtain ⟨name, signature, detail, kind, range, selection, children⟩ := root
  rw [preorder] at h ⊢
  rcases mem_cons.mp h with rfl | h
  · exact .inl rfl
  · refine .inr ?_
    rcases children_sublist_preorderAll _ children h with heq | ⟨p, hp, hsub⟩
    · refine ⟨⟨⟨name, signature, detail, kind, range, selection, children⟩, ancestors⟩, by rw [parent?, heq], ?_⟩
      exact (map_sublist_preorderAll _ children).trans (sublist_cons_self _ _)
    · exact ⟨p, hp, hsub.trans (sublist_cons_self _ _)⟩

theorem children_sublist_preorderAll (ancestors : List Symbol) (forest : List Symbol) {node : ScopedSymbol}
    (h : node ∈ preorderAll ancestors forest) :
    node.ancestors = ancestors ∨ ∃ p, node.parent? = some p ∧ p.children.Sublist (preorderAll ancestors forest) := by
  cases forest with
  | nil => simp [preorderAll] at h
  | cons x rest =>
    rw [preorderAll] at h ⊢
    rcases mem_append.mp h with h | h
    · refine (children_sublist_preorder ancestors x h).imp_right fun ⟨p, hp, hsub⟩ => ?_
      exact ⟨p, hp, hsub.trans (sublist_append_left _ _)⟩
    · refine (children_sublist_preorderAll ancestors rest h).imp_right fun ⟨p, hp, hsub⟩ => ?_
      exact ⟨p, hp, hsub.trans (sublist_append_right _ _)⟩

end

end ScopedSymbol

namespace CodeAction

open OpenDocument TextDocument List

variable {w : Workspace} {d target : OpenDocument} {known topLevel : List Symbol}

variable {x : Entity}

/-- The functions beside one of a document are listed in their order among all its functions. -/
lemma siblingFunctions_sublist (hx : x ∈ functionsIn d topLevel) :
    (d.siblingFunctions x topLevel).Sublist (functionsIn d topLevel) := by
  obtain ⟨node, hnode, rfl⟩ := mem_map.mp (mem_filter.mp hx).1
  refine .filter _ (.map _ ?_)
  rcases children_sublist_preorderAll [] topLevel hnode with heq | ⟨p, hp, hsub⟩
  · rw [parent?, heq]
    exact map_sublist_preorderAll [] topLevel
  · rwa [hp]

lemma counterpart?_of_undefined {s : ActionState} (hs : Loaded d topLevel s)
    (h : Answers (Loaded d topLevel) w x.findDefinition (.ok none)) (hx : x.isFunctionDeclaration) :
    d.counterpart? target w known true x = none := by
  have hnone : Answers (target.Shows w known) w x.findDefinition (.ok none) := by
    obtain ⟨r, hr⟩ := determined_findDefinition (w := w) (I := fun _ => True) x
    have houtcome := (hr.outcome (s := s) trivial).symm.trans (h.outcome hs)
    have hanswers := (determined_findDefinition (w := w) (I := target.Shows w known) x).answers shows_withLoaded
    rwa [hr.outcome trivial, houtcome] at hanswers
  refine counterpart?_of_answers (.bind (x := none) ?_ (.pure none))
  rwa [siblingLocation, if_pos hx]

/-- Two declarations that were defined are listed in the order of the siblings. -/
lemma exists_getElem?_of_siblings {keep : Entity → Bool} {scope a b : Entity} {i j : Nat} (hij : i < j)
    (ha : (d.siblingFunctions scope topLevel)[i]? = some a) (hb : (d.siblingFunctions scope topLevel)[j]? = some b)
    (hakeep : a ∈ (functionsIn d topLevel).filter keep) (hbkeep : b ∈ (functionsIn d topLevel).filter keep) :
    ∃ k l : Nat, k < l ∧ ((functionsIn d topLevel).filter keep)[k]? = some a ∧
      ((functionsIn d topLevel).filter keep)[l]? = some b := by
  obtain ⟨hamem, hakeep⟩ := mem_filter.mp hakeep
  have hbkeep := (mem_filter.mp hbkeep).2
  have hpair : [a, b].Sublist (d.siblingFunctions a topLevel) := by
    rw [siblingFunctions_congr (mem_siblingFunctions (mem_of_getElem? ha)).2]
    generalize d.siblingFunctions scope topLevel = siblings at ha hb
    obtain ⟨hi, rfl⟩ := List.getElem?_eq_some_iff.mp ha
    obtain ⟨hj, rfl⟩ := List.getElem?_eq_some_iff.mp hb
    refine cons_sublist_iff.mpr ⟨siblings.take j, siblings.drop j, (take_append_drop j siblings).symm, ?_, ?_⟩
    · exact mem_take_iff_getElem.mpr ⟨i, by omega, rfl⟩
    · rw [singleton_sublist, drop_eq_getElem_cons hj]
      exact mem_cons_self
  have hsub := (hpair.trans (siblingFunctions_sublist hamem)).filter keep
  rw [filter_cons_of_pos hakeep, filter_cons_of_pos hbkeep] at hsub
  obtain ⟨front, back, heq, hafront, hbback⟩ := cons_sublist_iff.mp hsub
  obtain ⟨k, hka⟩ := getElem?_of_mem hafront
  obtain ⟨l, hl⟩ := getElem?_of_mem (singleton_sublist.mp hbback)
  have hk : k < front.length := (List.getElem?_eq_some_iff.mp hka).1
  refine ⟨k, front.length + l, by omega, ?_, ?_⟩
  · rw [heq, getElem?_append_left hk, hka]
  · rw [heq, getElem?_append_right (Nat.le_add_right _ _), Nat.add_sub_cancel_left, hl]

/-- The definition of a function that gets a place beside its siblings is put there. -/
lemma Defines.eq_insertion {s : ActionState} {scope : Entity} {p : Placement} {e : TextEdit}
    (h : Defines (Present w d target topLevel known) w d target x e) (hs : Present w d target topLevel known s)
    (hx : x ∈ d.siblingFunctions scope topLevel) (hp : d.PlacedBeside target w topLevel known none x p) :
    ∃ text, e = ⟨⟨p.position, p.position⟩, text⟩ := by
  obtain ⟨place, text, hplace, -, rfl⟩ := h
  cases hplace.eq (answers_placeForCounterpart hs hx hp) hs
  exact ⟨text, rfl⟩

lemma getElem?_of_forall₂ {α β : Type} {R : α → β → Prop} {xs : List α} {ys : List β} (h : xs.Forall₂ R ys)
    {k : Nat} {x : α} (hk : xs[k]? = some x) : ∃ y, ys[k]? = some y ∧ R x y := by
  obtain ⟨hx, rfl⟩ := List.getElem?_eq_some_iff.mp hk
  have hy : k < ys.length := by rwa [← h.length_eq]
  exact ⟨ys[k], getElem?_eq_getElem hy, h.get hx hy⟩

/-- Both definitions are there, and the one of the earlier sibling comes first. -/
def ComeInOrder (target : OpenDocument) (defined : List Entity) (edits : List TextEdit) (a b : Entity)
    (p q : Position) : Prop :=
  ∃ k l t u, defined[k]? = some a ∧ defined[l]? = some b ∧ edits[k]? = some ⟨⟨p, p⟩, t⟩ ∧
    edits[l]? = some ⟨⟨q, q⟩, u⟩ ∧ [k, l].Sublist ((target.orderedEdits edits).map (·.index))

/-- **Places beside siblings keep their order.** If the counterparts stand in the order of their functions, the place
for one lies between those of the earlier and the later ones, and the places for two that have none lie in their order.
So added definitions come out in the order of the declarations. -/
theorem definitions_keep_declaration_order :
    (∀ (w : Workspace) (d target : OpenDocument) (topLevel known : List Symbol) (scope : Entity) (ofDeclarations : Bool),
      d.OrderedSiblings target w known ofDeclarations (d.siblingFunctions scope topLevel) →
      ∀ (i : Nat) (a : Entity) (side : Option Side) (p : Placement),
        (d.siblingFunctions scope topLevel)[i]? = some a → (a.isFunctionDeclaration || side.isSome) = ofDeclarations →
        d.PlacedBeside target w topLevel known side a p →
        (∀ (k : Nat) (x c : Entity), (d.siblingFunctions scope topLevel)[k]? = some x →
          d.counterpart? target w known ofDeclarations x = some c →
          (k < i → c.range.stop ≤ p.position) ∧ (i < k → p.position ≤ c.leadingCommentStart)) ∧
        ∀ (j : Nat) (b : Entity) (side' : Option Side) (q : Placement), i < j →
          (d.siblingFunctions scope topLevel)[j]? = some b → (b.isFunctionDeclaration || side'.isSome) = ofDeclarations →
          d.counterpart? target w known ofDeclarations a = none → d.PlacedBeside target w topLevel known side' b q →
          p.position ≤ q.position) ∧
    ∀ (w : Workspace) (s s' : ActionState) (uri : Text) (at? : Option Position) (inCurrentFile : Bool)
      (names : Option Json) (edit : WorkspaceEdit),
      (addDefinitions uri at? inCurrentFile names).execute w s = (.ok edit, s') →
      ∃ (d target : OpenDocument) (topLevel known : List Symbol) (defined : List Entity) (edits : List TextEdit),
        Adds w s uri at? inCurrentFile names d target topLevel known defined ∧
        edits = edit.editsOf target.uri ∧ defined.Sublist (functionsIn d topLevel) ∧
        defined.Forall₂ (Defines (Present w d target topLevel known) w d target) edits ∧
        (edit.apply target.toTextDocument).text = substitute target.text 0 (target.orderedEdits edits) ∧
        ∀ scope, d.OrderedSiblings target w known true (d.siblingFunctions scope topLevel) →
          ∀ (i j : Nat) (a b : Entity) (p q : Placement), i < j →
            (d.siblingFunctions scope topLevel)[i]? = some a → (d.siblingFunctions scope topLevel)[j]? = some b →
            a ∈ defined → b ∈ defined → d.PlacedBeside target w topLevel known none a p →
            d.PlacedBeside target w topLevel known none b q →
            ComeInOrder target defined edits a b p.position q.position := by
  refine ⟨fun w d target topLevel known scope ofDeclarations hordered i a side p ha hkind hp => ⟨?_, ?_⟩, ?_⟩
  · intro k x c hx hc
    exact hp.among_counterparts hkind hordered ha hx hc
  · intro j b side' q hij hb hkind' hnone hq
    exact hp.le hkind hordered ha hq hkind' hb hij hnone
  · intro w s s' uri at? inCurrentFile names edit hrun
    obtain ⟨d, target, topLevel, known, keep, s₁, hadds, hs₁, hundefined, hfold⟩ := addDefinitions_ok hrun
    obtain ⟨edits, hdefines, hedits⟩ := foldlM_defineIn Present.answers_target Present.answers_own hs₁ hfold
    have hedits : edits = edit.editsOf target.uri := hedits.symm
    have hinsertions : ∀ e ∈ edits, e.range.stop = e.range.start := by
      intro e he
      obtain ⟨k, hk⟩ := List.getElem?_of_mem he
      obtain ⟨x, -, _, _, -, -, rfl⟩ := getElem?_of_forall₂ hdefines.flip hk
      rfl
    refine ⟨d, target, topLevel, known, _, edits, hadds, hedits, List.filter_sublist, hdefines, ?_, ?_⟩
    · rw [WorkspaceEdit.apply, ← hedits]
      exact target.applyEdits_eq_substitute (target.nonOverlapping_of_insertions hinsertions)
    · intro scope hordered i j a b p q hij ha hb hadefined hbdefined hp hq
      obtain ⟨k, l, hkl, hk, hl⟩ := exists_getElem?_of_siblings hij ha hb hadefined hbdefined
      obtain ⟨e, he, hdefinesA⟩ := getElem?_of_forall₂ hdefines hk
      obtain ⟨f, hf, hdefinesB⟩ := getElem?_of_forall₂ hdefines hl
      obtain ⟨t, rfl⟩ := hdefinesA.eq_insertion hs₁ (List.mem_of_getElem? ha) hp
      obtain ⟨u, rfl⟩ := hdefinesB.eq_insertion hs₁ (List.mem_of_getElem? hb) hq
      obtain ⟨hkindA, hnoneA⟩ := hundefined a hadefined
      obtain ⟨hkindB, -⟩ := hundefined b hbdefined
      have hle : p.position ≤ q.position := hp.le (by rw [hkindA]; rfl) hordered ha hq (by rw [hkindB]; rfl) hb hij
        (counterpart?_of_undefined hs₁.2 hnoneA hkindA)
      exact ⟨k, l, t, u, hk, hl, he, hf, target.insertions_in_order hkl he hf hle⟩

/-- Four declarations, of which the second and the last one are defined below. The definitions of the other two come out
in their order. -/
theorem places_around_two_definitions :
    let symbol (name : Char) (line stop : Int) : Symbol :=
      ⟨[name], [name], [], .function, ⟨⟨line, 0⟩, ⟨line, stop⟩⟩, ⟨⟨line, 5⟩, ⟨line, 6⟩⟩, []⟩
    let d : OpenDocument :=
      ⟨{ uri := "file:///p/a.cpp",
         text := ("void f();\nvoid g();\nvoid h();\nvoid k();\n" ++
          "void g() \x7b\x7d\n// last\nvoid k() \x7b\x7d\n").toList }, 0⟩
    let topLevel := [symbol 'f' 0 8, symbol 'g' 1 8, symbol 'h' 2 8, symbol 'k' 3 8, symbol 'g' 4 11, symbol 'k' 6 11]
    let link (line : Int) : List ReportedLocation := [.plain ⟨d.uri, ⟨⟨line, 5⟩, ⟨line, 6⟩⟩⟩]
    let w : Workspace :=
      { source := { SymbolSource.bare fun _ => .ok d.toTextDocument with
          definitions := fun _ p => .ok (if p.line = 1 then link 4 else if p.line = 3 then link 6 else []) } }
    let f : Entity := ⟨d, symbol 'f' 0 8, []⟩
    let h : Entity := ⟨d, symbol 'h' 2 8, []⟩
    d.OrderedSiblings d w topLevel true (d.siblingFunctions f topLevel) ∧
      (Position.mk 4 0 ≤ ⟨4, 11⟩) ∧ ∃ edit s' defined,
        (addDefinitions d.uri none true none).execute w { loaded := [(0, topLevel)] } = (.ok edit, s') ∧
        ComeInOrder d defined (edit.editsOf d.uri) f h ⟨4, 0⟩ ⟨4, 11⟩ := by
  intro symbol d topLevel link w f h
  let s₁ : ActionState := { openings := 1, loaded := [(0, topLevel)] }
  have hordered : d.OrderedSiblings d w topLevel true (d.siblingFunctions f topLevel) := by
    refine ⟨by decide +kernel, by decide +kernel, by decide +kernel, by decide +kernel⟩
  let p : Placement := { position := ⟨4, 0⟩, relativeTo := some ⟨⟨4, 0⟩, ⟨4, 11⟩⟩, before := true }
  let q : Placement := { position := ⟨4, 11⟩, relativeTo := some ⟨⟨4, 0⟩, ⟨4, 11⟩⟩, after := true }
  have hp : d.PlacedBeside d w topLevel topLevel none f p := placedBeside_of_execute (by decide +kernel)
  have hq : d.PlacedBeside d w topLevel topLevel none h q := placedBeside_of_execute (by decide +kernel)
  have hnone : (d.counterpart? d w topLevel true f).isNone = true := by decide +kernel
  have hplaces := (definitions_keep_declaration_order.1 w d d topLevel topLevel f true hordered 0 f none p rfl
    (by decide +kernel) hp).2
  have hle := hplaces 2 h none q (by decide) rfl (by decide +kernel) (Option.isNone_iff_eq_none.mp hnone) hq
  -- which functions are defined can be read off the lines of their names
  have hlines : ((undefinedFunctions d none none).execute w s₁).1.toOption.map (·.map (·.selection.start.line)) =
      some [0, 2] := by decide +kernel
  have hrun : ((addDefinitions d.uri none true none).execute w { loaded := [(0, topLevel)] }).1.toOption.isSome := by
    decide +kernel
  rcases hadd : (addDefinitions d.uri none true none).execute w { loaded := [(0, topLevel)] } with ⟨fault | edit, s'⟩
  · rw [hadd] at hrun
    cases hrun
  obtain ⟨d', target, topLevel', known, defined, edits, ⟨uri, s, s₂, s₃, s₄, hopen, hshown, hdefined, huri, htarget,
    hpresent⟩, rfl, hsub, -, -, horder⟩ := definitions_keep_declaration_order.2 w _ s' _ none true none edit hadd
  obtain ⟨hd, rfl⟩ := Prod.mk.inj (hopen.symm.trans (show _ = (Except.ok d, s₁) from rfl))
  obtain rfl := Except.ok.inj hd
  obtain rfl : topLevel' = topLevel := Except.ok.inj (hshown.symm.trans (show _ = Except.ok topLevel from rfl))
  cases huri
  cases htarget
  obtain rfl : known = topLevel := Except.ok.inj (hpresent.1.symm.trans (shows_of_loaded hpresent.2))
  rw [hdefined] at hlines
  have hlines : defined.map (·.selection.start.line) = [0, 2] := Option.some.inj hlines
  have hmem : ∀ x ∈ [f, h], x ∈ defined := by
    intro x hx
    have hline : x.selection.start.line ∈ defined.map (·.selection.start.line) := by
      rw [hlines]
      rcases mem_pair.mp hx with rfl | rfl <;> decide
    obtain ⟨y, hy, hyx⟩ := mem_map.mp hline
    have hyall : y ∈ topLevel.map fun symbol => (⟨d, symbol, []⟩ : Entity) := hsub.subset hy
    simp only [topLevel, map_cons, map_nil, mem_cons, not_mem_nil, or_false] at hyall
    rcases mem_pair.mp hx with rfl | rfl <;> rcases hyall with rfl | rfl | rfl | rfl | rfl | rfl
    all_goals first | exact hy | exact absurd hyx (by decide)
  exact ⟨hordered, hle, edit, s', defined, rfl, horder f hordered 0 2 f h p q (by decide) rfl rfl (hmem f (by simp))
    (hmem h (by simp)) hp hq⟩

end CodeAction

end CppScaffold
