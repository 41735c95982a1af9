import CppScaffold.CodeAction.Definition
import CppScaffold.Proofs.Starts
import Mathlib.Data.List.Perm.Subperm

/-!
# Lists of initializers

A list of initializers joins what is asked for by name with the constants and references that must be there anyway. It
differs from what a constructor may and must initialize if a static one comes into it, or one is missing because
something else of its name came first.
-/

namespace CppScaffold

open Text List Operand Json

namespace Initializers

/-- The names by which a part of a class can be asked for: a base class by its name or as it is written. -/
def requestNames : Operand → List Text
  | .base f => [f.name, f.text]
  | .member e => [e.name]

/-- The part of a class that a name denotes. -/
def denoted? (c : Entity) (name : Text) : Option Operand :=
  (lookup? (all c) name).bind ((all c)[·]?)

/-- The part is asked for by one of the names. -/
def Requested (c : Entity) (names : List Json) (o : Operand) : Prop := ∃ t, .str t ∈ names ∧ denoted? c t = some o

/-- The names that a value lists; one that counts as false lists none. -/
def listedNames (names : Option Json) : Outcome (List Json) :=
  match names.filter isTruthy with
  | some v => v.elements
  | none => pure []

/-! ## Parts that are asked for -/

variable {candidates : List Operand} {i : Nat} {places : List Nat} {m : Entity}

lemma mem_keys {name : Text} :
    (name, i) ∈ keys candidates ↔ ∃ o, candidates[i]? = some o ∧ name ∈ requestNames o := by
  simp only [keys, mem_flatMap, Prod.exists, mem_zipIdx_iff_getElem?]
  constructor
  · rintro ⟨o, j, hj, hmem⟩
    obtain ⟨hname, rfl⟩ : name ∈ requestNames o ∧ i = j := by
      cases o <;> simpa [requestNames, or_and_right] using hmem
    exact ⟨o, hj, hname⟩
  · rintro ⟨o, hi, hmem⟩
    exact ⟨o, i, hi, by cases o <;> simpa [requestNames] using hmem⟩

lemma lookup?_eq_some {name : Text} (h : lookup? candidates name = some i) :
    ∃ o, candidates[i]? = some o ∧ name ∈ requestNames o := by
  rw [lookup?, lookup_eq_some_iff] at h
  obtain ⟨l₁, l₂, hsplit, _⟩ := h
  exact mem_keys.mp (mem_reverse.mp (hsplit ▸ mem_append_right l₁ mem_cons_self))

/-- What a run through the requested names leaves: earlier places stay, each name has its place, no place is there
twice and all come from a name. -/
structure Found (candidates : List Operand) (names : List Json) (chosen places : List Nat) : Prop where
  kept : chosen ⊆ places
  nodup : places.Nodup
  named : ∀ n ∈ names, ∃ t i, n = .str t ∧ lookup? candidates t = some i ∧ i ∈ places
  origin : ∀ i ∈ places, i ∈ chosen ∨ ∃ t, .str t ∈ names ∧ lookup? candidates t = some i

lemma mem_extended {chosen : List Nat} {j : Nat} :
    j ∈ (if chosen.contains i then chosen else chosen ++ [i]) ↔ j ∈ chosen ∨ j = i := by
  split
  next h => exact (or_iff_left_of_imp (by rintro rfl; exact contains_iff_mem.mp h)).symm
  next => simp

lemma Found.cons {rest : List Json} {chosen : List Nat} {t : Text} (hi : lookup? candidates t = some i)
    (h : Found candidates rest (if chosen.contains i then chosen else chosen ++ [i]) places) :
    Found candidates (.str t :: rest) chosen places := by
  have hnew := h.kept (mem_extended.mpr (.inr rfl))
  refine ⟨fun j hj => h.kept (mem_extended.mpr (.inl hj)), h.nodup,
    forall_mem_cons.mpr ⟨⟨t, i, rfl, hi, hnew⟩, h.named⟩, fun j hj => ?_⟩
  rcases h.origin j hj with hj | ⟨u, hu, hlookup⟩
  · rcases mem_extended.mp hj with hold | rfl
    · exact .inl hold
    · exact .inr ⟨t, mem_cons_self, hi⟩
  · exact .inr ⟨u, mem_cons_of_mem _ hu, hlookup⟩

lemma found_of_requested {className : Text} {names : List Json} {chosen : List Nat} (hnodup : chosen.Nodup)
    (h : requested className candidates chosen names = .ok places) : Found candidates names chosen places := by
  induction names generalizing chosen with
  | nil =>
    obtain rfl := Except.ok.inj h
    exact ⟨List.Subset.refl _, hnodup, forall_mem_nil _, fun i hi => .inl hi⟩
  | cons n rest ih =>
    rw [requested] at h
    cases n with
    | str t =>
      cases hi : lookup? candidates t with
      | none =>
        simp only [hashable, str?, Option.bind_some, hi, bind, Except.bind] at h
        cases h
      | some i =>
        simp only [hashable, str?, Option.bind_some, hi, bind, Except.bind] at h
        refine (ih ?_ h).cons hi
        split
        next => exact hnodup
        next hcontains =>
          have hnot : i ∉ chosen := by simpa using hcontains
          exact nodup_append.mpr ⟨hnodup, pairwise_singleton _ i, fun a ha b hb =>
            ne_of_mem_of_not_mem ha (mem_singleton.mp hb ▸ hnot)⟩
    | _ => cases h

lemma filterMap_getElem?_range {α : Type} (l : List α) : (range l.length).filterMap (l[·]?) = l := by
  induction l with
  | nil => rfl
  | cons a l ih =>
    rw [length_cons, range_succ_eq_map, filterMap_cons, getElem?_cons_zero, filterMap_map]
    exact congrArg (a :: ·) ih

lemma filterMap_getElem?_subperm {α : Type} {l : List α} (h : places.Nodup) :
    (places.filterMap (l[·]?)).Subperm l := by
  have hin : places.filterMap (l[·]?) = (places.filter (· < l.length)).filterMap (l[·]?) := by
    rw [filterMap_filter]
    refine filterMap_congr fun i _ => ?_
    split
    next => rfl
    next hge => exact getElem?_eq_none (by simpa using hge)
  obtain ⟨k, hperm, hsub⟩ : (places.filter (· < l.length)).Subperm (range l.length) :=
    List.Nodup.subperm (h.filter _) fun i hi => by simpa using (mem_filter.mp hi).2
  have hsub := hsub.filterMap (l[·]?)
  rw [filterMap_getElem?_range] at hsub
  rw [hin]
  exact ⟨_, hperm.filterMap _, hsub⟩

/-! ## Members that must be initialized -/

/-- The members that are added to a list in which the given names occur: each unless its name is there. -/
def unlisted (names : List Text) : List Entity → List Entity
  | [] => []
  | m :: rest => if m.name ∈ names then unlisted names rest else m :: unlisted (names ++ [m.name]) rest

lemma addRequired_eq (chosen : List Operand) (members : List Entity) :
    addRequired chosen members = chosen ++ (unlisted (chosen.map (·.name)) members).map .member := by
  induction members generalizing chosen with
  | nil => rw [unlisted, map_nil, append_nil]; rfl
  | cons m rest ih =>
    have hany : chosen.any (·.name == m.name) ↔ m.name ∈ chosen.map (·.name) := by
      simp [any_eq_true]
    rw [addRequired, foldl_cons, ← addRequired, unlisted]
    by_cases hname : m.name ∈ chosen.map (·.name)
    · rw [if_pos (hany.mpr hname), if_pos hname, ih]
    · rw [if_neg (mt hany.mp hname), if_neg hname, ih, map_append, append_assoc]
      rfl

lemma unlisted_sublist (names : List Text) (members : List Entity) : (unlisted names members).Sublist members := by
  induction members generalizing names with
  | nil => exact .slnil
  | cons m rest ih =>
    rw [unlisted]
    split
    · exact (ih _).cons m
    · exact (ih _).cons_cons m

/-- A member is added if nothing of its name is there yet and no earlier member has its name. -/
lemma mem_unlisted {names : List Text} {members : List Entity} : m ∈ unlisted names members ↔
    ∃ before after, members = before ++ m :: after ∧ m.name ∉ names ∧ ∀ m' ∈ before, m'.name ≠ m.name := by
  induction members generalizing names with
  | nil => simp [unlisted]
  | cons x rest ih =>
    rw [unlisted, exists_split_cons (x := x) (P := fun before _ => m.name ∉ names ∧ ∀ m' ∈ before, m'.name ≠ m.name)]
    by_cases hx : x.name ∈ names
    · rw [if_pos hx, ih]
      constructor
      · rintro ⟨before, after, hsplit, hname, hbefore⟩
        exact .inr ⟨before, after, hsplit, hname, forall_mem_cons.mpr ⟨ne_of_mem_of_not_mem hx hname, hbefore⟩⟩
      · rintro (⟨rfl, hname, _⟩ | ⟨before, after, hsplit, hname, hbefore⟩)
        · exact absurd hx hname
        · exact ⟨before, after, hsplit, hname, (forall_mem_cons.mp hbefore).2⟩
    · rw [if_neg hx, mem_cons, ih]
      refine or_congr (iff_self_and.mpr ?_) ?_
      · rintro rfl
        exact ⟨hx, forall_mem_nil _⟩
      · simp only [mem_append, mem_singleton, not_or, forall_mem_cons, and_assoc, ne_eq, eq_comm (a := x.name)]

/-- Parts that are asked for and members with other names are different parts. -/
lemma subperm_append {chosen parts : List Operand} {added : List Entity} (hchosen : chosen.Subperm parts)
    (hadded : (added.map member).Subperm parts) (hnames : ∀ m ∈ added, m.name ∉ chosen.map (·.name)) :
    (chosen ++ added.map member).Subperm parts := by
  -- the two lists come from the two halves of the parts with respect to the names of the first
  have hfirst : chosen.filter (fun o => o.name ∈ chosen.map (·.name)) = chosen := by
    refine filter_eq_self.mpr fun o ho => ?_
    exact decide_eq_true (mem_map_of_mem ho)
  have hsecond : (added.map member).filter (fun o => !decide (o.name ∈ chosen.map (·.name))) =
      added.map .member := by
    refine filter_eq_self.mpr (forall_mem_map.mpr fun m hm => ?_)
    exact (Bool.not_eq_true' _).mpr (decide_eq_false (hnames m hm))
  have hhalves := (hchosen.filter fun o => o.name ∈ chosen.map (·.name)).append
    (hadded.filter fun o => !decide (o.name ∈ chosen.map (·.name)))
  rw [hfirst, hsecond] at hhalves
  exact hhalves.trans (filter_append_perm _ parts).subperm

/-! ## The list of a constructor -/

/-- What a constructor may and must initialize: parts of the objects of the class, each once, all that is asked for and
all constants and references, in the order of declarations. -/
structure Initializes (c : Entity) (names : List Json) (os : List Operand) : Prop where
  parts : os.Subperm (all c)
  requested : ∀ n ∈ names, ∃ t, n = .str t ∧ ∃ o ∈ os, t ∈ requestNames o
  required : ∀ m ∈ c.nonStaticMembers, m.isConst ∨ m.isReference → .member m ∈ os
  ordered : os.Pairwise fun a b => a.range.start ≤ b.range.start

/-- Something that has the name of a member comes into the list before it: a part that is asked for, or one of the given
members. -/
def Forestalled (c : Entity) (names : List Json) (before : List Entity) (m : Entity) : Prop :=
  (∃ o, Requested c names o ∧ o.name = m.name) ∨ ∃ m' ∈ before, m'.name = m.name

/-- The member variables of a class, static ones included. -/
def memberVariables (c : Entity) : List Entity := c.children.filter (·.isMemberVariable)

lemma membersToInitialize_sublist (c : Entity) : c.membersToInitialize.Sublist (memberVariables c) := by
  rw [Entity.membersToInitialize]
  split
  · refine monotone_filter_right _ fun m hm => ?_
    exact (Bool.and_eq_true_iff.mp hm).1
  · exact nil_sublist _

/-- The members that are added to what is asked for. -/
abbrev added (c : Entity) (chosen : List Operand) : List Entity := unlisted (chosen.map name) c.membersToInitialize

lemma resolveIn_ok {c : Entity} {names : List Json} {os : List Operand}
    (hdelegation : ∀ n ∈ names, n.str? ≠ some c.name) (h : resolveIn c names = .ok os) :
    ∃ chosen : List Operand, chosen.Subperm (all c) ∧ (∀ o, o ∈ chosen ↔ Requested c names o) ∧
      (∀ n ∈ names, ∃ t o, n = .str t ∧ denoted? c t = some o ∧ t ∈ requestNames o) ∧
      os = (chosen ++ (added c chosen).map member).mergeSort fun a b => a.range.start ≤ b.range.start := by
  have hother : names.any (·.str? == some c.name) = false := by
    simpa using hdelegation
  rw [resolveIn, hother, if_neg (by decide)] at h
  obtain ⟨places, hplaces, h⟩ := exists_ok_of_bind h
  obtain rfl := Except.ok.inj h
  have hfound := found_of_requested nodup_nil hplaces
  refine ⟨places.filterMap ((all c)[·]?), filterMap_getElem?_subperm hfound.nodup, fun o => ?_, fun n hn => ?_, ?_⟩
  · rw [mem_filterMap]
    constructor
    · rintro ⟨i, hi, hget⟩
      obtain ⟨t, ht, hlookup⟩ := (hfound.origin i hi).resolve_left not_mem_nil
      exact ⟨t, ht, by rw [denoted?, hlookup]; exact hget⟩
    · rintro ⟨t, ht, hdenoted⟩
      obtain ⟨_, i, ⟨⟩, hlookup, hi⟩ := hfound.named _ ht
      rw [denoted?, hlookup] at hdenoted
      exact ⟨i, hi, hdenoted⟩
  · obtain ⟨t, i, rfl, hlookup, _⟩ := hfound.named n hn
    obtain ⟨o, ho, hname⟩ := lookup?_eq_some hlookup
    exact ⟨t, o, rfl, by rw [denoted?, hlookup]; exact ho, hname⟩
  · rw [addRequired_eq]

lemma resolve_eq {declaration c : Entity} {names : Option Json} {given : List Json}
    (hconstructor : declaration.isConstructor) (hparent : declaration.parent? = some c) (hclass : c.isClass)
    (hgiven : listedNames names = .ok given) : resolve declaration names = resolveIn c given := by
  rw [resolve, hparent]
  simp only [hconstructor, hclass, Bool.not_true, Bool.or_self, Bool.false_eq_true, if_false]
  rw [listedNames] at hgiven
  cases hvalue : names.filter isTruthy with
  | none =>
    rw [hvalue] at hgiven
    obtain rfl := Except.ok.inj hgiven
    rfl
  | some v =>
    rw [hvalue] at hgiven
    dsimp only at hgiven ⊢
    rw [hgiven]
    rfl

lemma startsInOrder (os : List Operand) :
    (os.mergeSort fun a b => a.range.start ≤ b.range.start).Pairwise fun a b => a.range.start ≤ b.range.start := by
  have hsorted := @pairwise_mergeSort _ (fun a b : Operand => decide (a.range.start ≤ b.range.start))
    (fun a b c hab hbc => by
      rw [decide_eq_true_eq] at hab hbc ⊢
      exact Position.le_trans hab hbc)
    (fun a b => by
      rw [Bool.or_eq_true, decide_eq_true_eq, decide_eq_true_eq]
      by_cases hlt : a.range.start < b.range.start
      · exact .inl (Position.le_of_lt hlt)
      · exact .inr (Position.not_lt_iff.mp hlt)) os
  exact hsorted.imp fun h => of_decide_eq_true h

variable {c : Entity} {given : List Json} {chosen : List Operand}

lemma mem_added (hchosen : ∀ o, o ∈ chosen ↔ Requested c given o) : m ∈ added c chosen ↔
    ∃ before after, c.membersToInitialize = before ++ m :: after ∧ ¬ Forestalled c given before m := by
  rw [mem_unlisted]
  refine exists_congr fun before => exists_congr fun after => and_congr_right fun _ => ?_
  rw [Forestalled, not_or]
  refine and_congr (not_congr ?_) ?_
  · rw [mem_map]
    exact exists_congr fun o => and_congr_left fun _ => hchosen o
  · simp

lemma name_notMem_of_mem_added (hm : m ∈ added c chosen) : m.name ∉ chosen.map name := by
  obtain ⟨_, _, _, hname, _⟩ := mem_unlisted.mp hm
  exact hname

lemma member_mem_all (h : .member m ∈ Operand.all c) : m.isStatic = false := by
  rw [Operand.all, mem_append] at h
  rcases h with h | h
  · obtain ⟨f, _, hf⟩ := mem_map.mp h
    cases hf
  · obtain ⟨e, he, ⟨⟩⟩ := mem_map.mp h
    rw [Entity.nonStaticMembers] at he
    split at he
    · simpa using (Bool.and_eq_true_iff.mp (mem_filter.mp he).2).2
    · cases he

lemma nonStatic_sublist (c : Entity) : (c.membersToInitialize.filter (!·.isStatic)).Sublist c.nonStaticMembers := by
  rw [Entity.membersToInitialize, Entity.nonStaticMembers]
  split
  · rw [filter_filter]
    refine monotone_filter_right _ fun m hm => ?_
    simp only [Bool.and_eq_true] at hm ⊢
    exact ⟨hm.2.1, hm.1⟩
  · exact .slnil

/-- The list holds parts of objects only if and only if no static member is added. -/
lemma subperm_all_iff (hchosen : chosen.Subperm (all c)) :
    (chosen ++ (added c chosen).map member).Subperm (all c) ↔ ∀ m ∈ added c chosen, m.isStatic = false := by
  constructor
  · intro h m hm
    exact member_mem_all (h.subset (mem_append_right chosen (mem_map_of_mem hm)))
  · intro h
    refine subperm_append hchosen (List.Sublist.subperm ?_) fun m hm => ?_
    · have hfilter := (unlisted_sublist (chosen.map name) c.membersToInitialize).filter (!·.isStatic)
      rw [filter_eq_self.mpr fun m hm => by rw [h m hm]; rfl] at hfilter
      exact ((hfilter.trans (nonStatic_sublist c)).map _).trans (sublist_append_right ..)
    · exact name_notMem_of_mem_added hm

/-- In any case it holds parts of the class only, each at most once. -/
lemma subperm_parts (hchosen : chosen.Subperm (all c)) : (chosen ++ (added c chosen).map member).Subperm
    (c.baseClasses.map .base ++ (memberVariables c).map .member) := by
  have hall : (all c).Sublist (c.baseClasses.map .base ++ (memberVariables c).map .member) := by
    refine List.Sublist.append_left (List.Sublist.map _ ?_) _
    rw [Entity.nonStaticMembers]
    split
    · refine monotone_filter_right _ fun m hm => ?_
      exact (Bool.and_eq_true_iff.mp hm).1
    · exact nil_sublist _
  refine subperm_append (hchosen.trans hall.subperm) (List.Sublist.subperm ?_) fun m hm => ?_
  · exact (((unlisted_sublist _ _).trans (membersToInitialize_sublist c)).map _).trans (sublist_append_right ..)
  · exact name_notMem_of_mem_added hm

/-- The constants and references of a class that are not static are those members that every object has. -/
lemma mem_nonStaticMembers (hstatic : m.isStatic = false) :
    m ∈ c.membersToInitialize ↔ m ∈ c.nonStaticMembers ∧ (m.isConst ∨ m.isReference) := by
  rw [Entity.membersToInitialize, Entity.nonStaticMembers]
  split
  · simp [mem_filter, hstatic, and_assoc]
  · simp

/-- **The initializers of a constructor.** They are parts of the class, each at most once, with all that is asked for
and in the order of declarations. They are what the constructor may and must initialize if and only if every static
constant or reference is forestalled by something of its name, and every other one is asked for or not forestalled. -/
theorem initializes_iff {declaration : Entity} {names : Option Json} {os : List Operand}
    (hconstructor : declaration.isConstructor = true) (hparent : declaration.parent? = some c) (hclass : c.isClass = true)
    (hgiven : listedNames names = .ok given) (hdelegation : ∀ n ∈ given, n.str? ≠ some c.name)
    (h : resolve declaration names = .ok os) :
    (os.Subperm (c.baseClasses.map .base ++ (memberVariables c).map .member) ∧
      (∀ n ∈ given, ∃ t, n = .str t ∧ ∃ o ∈ os, t ∈ requestNames o) ∧
      os.Pairwise fun a b => a.range.start ≤ b.range.start) ∧
    (Initializes c given os ↔
      (∀ before m after, c.membersToInitialize = before ++ m :: after → m.isStatic = true →
        Forestalled c given before m) ∧
      ∀ m ∈ c.membersToInitialize, m.isStatic = false → Requested c given (.member m) ∨
        ∃ before after, c.membersToInitialize = before ++ m :: after ∧ ¬ Forestalled c given before m) := by
  rw [resolve_eq hconstructor hparent hclass hgiven] at h
  obtain ⟨chosen, hchosen, hmem, hnamed, hos⟩ := resolveIn_ok hdelegation h
  have hperm := List.mergeSort_perm (chosen ++ (added c chosen).map Operand.member)
    fun a b => a.range.start ≤ b.range.start
  rw [← hos] at hperm
  have hrequested : ∀ n ∈ given, ∃ t, n = .str t ∧ ∃ o ∈ os, t ∈ requestNames o := by
    intro n hn
    obtain ⟨t, o, rfl, hdenoted, hname⟩ := hnamed n hn
    exact ⟨t, rfl, o, hperm.mem_iff.mpr (List.mem_append_left _ ((hmem o).mpr ⟨t, hn, hdenoted⟩)), hname⟩
  have hordered : os.Pairwise fun a b => a.range.start ≤ b.range.start := hos ▸ startsInOrder _
  have hlisted : ∀ m, .member m ∈ os ↔ Requested c given (.member m) ∨
      ∃ before after, c.membersToInitialize = before ++ m :: after ∧ ¬ Forestalled c given before m := by
    intro m
    rw [hperm.mem_iff, List.mem_append, hmem, List.mem_map_of_injective (fun a b hab => Operand.member.inj hab),
      mem_added hmem]
  refine ⟨⟨hperm.subperm.trans (subperm_parts hchosen), hrequested, hordered⟩, ?_⟩
  have hparts : os.Subperm (Operand.all c) ↔ ∀ before m after, c.membersToInitialize = before ++ m :: after →
      m.isStatic = true → Forestalled c given before m := by
    rw [hperm.subperm_right, subperm_all_iff hchosen]
    constructor
    · intro hnone before m after hsplit hstatic
      by_contra hnot
      have := hnone m ((mem_added hmem).mpr ⟨before, after, hsplit, hnot⟩)
      rw [hstatic] at this
      cases this
    · intro hall m hm
      obtain ⟨before, after, hsplit, hnot⟩ := (mem_added hmem).mp hm
      by_contra hstatic
      exact hnot (hall before m after hsplit (by simpa using hstatic))
  constructor
  · intro hproper
    refine ⟨hparts.mp hproper.parts, fun m hm hstatic => ?_⟩
    obtain ⟨hm, hrequired⟩ := (mem_nonStaticMembers hstatic).mp hm
    exact (hlisted m).mp (hproper.required m hm hrequired)
  · rintro ⟨hstatic, hrest⟩
    refine ⟨hparts.mpr hstatic, hrequested, fun m hm hrequired => ?_, hordered⟩
    have hnot : m.isStatic = false := member_mem_all (List.mem_append_right _ (List.mem_map_of_mem hm))
    exact (hlisted m).mpr (hrest m ((mem_nonStaticMembers hnot).mpr ⟨hm, hrequired⟩) hnot)

/-- A class with a constructor, a constant, whose specifier has six letters, and a variable. -/
def limitedClass (specifier : String) : Entity where
  document := {
    uri := "file:///p/a.h"
    text := "class A \x7b\n    A();\n    " ++ specifier.toList ++
      " const int limit = 3;\n    int x;\n\x7d;\n"
    opening := 0 }
  node := ⟨⟨"A", "A", [], .classType, ⟨⟨0, 0⟩, ⟨4, 1⟩⟩, ⟨⟨0, 6⟩, ⟨0, 7⟩⟩,
    [⟨"A", "A", [], .constructor, ⟨⟨1, 4⟩, ⟨1, 7⟩⟩, ⟨⟨1, 4⟩, ⟨1, 5⟩⟩, []⟩,
      ⟨"limit", "limit", [], .field, ⟨⟨2, 4⟩, ⟨2, 30⟩⟩, ⟨⟨2, 21⟩, ⟨2, 26⟩⟩, []⟩,
      ⟨"x", "x", [], .field, ⟨⟨3, 4⟩, ⟨3, 9⟩⟩, ⟨⟨3, 8⟩, ⟨3, 9⟩⟩, []⟩]⟩, []⟩

def limitedConstructor (specifier : String) : Entity where
  document := (limitedClass specifier).document
  node := ⟨⟨"A", "A", [], .constructor, ⟨⟨1, 4⟩, ⟨1, 7⟩⟩, ⟨⟨1, 4⟩, ⟨1, 5⟩⟩, []⟩, [(limitedClass specifier).symbol]⟩

variable {specifier : String}

lemma exists_resolve_limited (hname : (limitedClass specifier).name = ['A'])
    (hdenoted : (denoted? (limitedClass specifier) ['x']).map name = some ['x']) :
    ∃ os, resolveIn (limitedClass specifier) [.str ['x']] = .ok os := by
  obtain ⟨o, ho, _⟩ := Option.map_eq_some_iff.mp hdenoted
  obtain ⟨i, hi, _⟩ := Option.bind_eq_some_iff.mp ho
  have hother : [str ['x']].any (·.str? == some (limitedClass specifier).name) = false := by
    rw [hname]
    decide
  have hplaces : requested (limitedClass specifier).name (all (limitedClass specifier)) [] [.str ['x']] =
      .ok [i] := by
    simp only [requested, hashable, str?, Option.bind_some, hi]
    rfl
  rw [resolveIn, hother, if_neg (by decide)]
  dsimp only
  rw [hplaces]
  exact ⟨_, rfl⟩

/-- Its constant is the only member that must be initialized, and nothing of its name comes before it. -/
lemma limit_not_forestalled (static : Bool)
    (hrequired : (limitedClass specifier).membersToInitialize.map (fun m => (m.isStatic, m.name)) =
      [(static, "limit".toList)])
    (hdenoted : (denoted? (limitedClass specifier) ['x']).map name = some ['x']) :
    ∃ m, (limitedClass specifier).membersToInitialize = [m] ∧ m.isStatic = static ∧
      ¬ Forestalled (limitedClass specifier) [.str ['x']] [] m := by
  obtain ⟨m, hm, hpair⟩ := map_eq_singleton_iff.mp hrequired
  obtain ⟨hstatic, hlimit⟩ := Prod.mk.inj hpair
  refine ⟨m, hm, hstatic, ?_⟩
  rintro (⟨o, ⟨t, ht, ho⟩, hsame⟩ | ⟨_, hnone, _⟩)
  · obtain rfl := str.inj (mem_singleton.mp ht)
    rw [ho, Option.map_some, Option.some.injEq, hsame, hlimit] at hdenoted
    exact absurd hdenoted (by decide)
  · cases hnone

lemma parent?_limitedConstructor (specifier : String) :
    (limitedConstructor specifier).parent? = some (limitedClass specifier) := rfl

lemma resolve_limitedConstructor (hconstructor : (limitedConstructor specifier).isConstructor)
    (hclass : (limitedClass specifier).isClass) :
    resolve (limitedConstructor specifier) (some (.arr [.str ['x']])) =
      resolveIn (limitedClass specifier) [.str ['x']] :=
  resolve_eq hconstructor (parent?_limitedConstructor specifier) hclass rfl

lemma delegation_limited (hname : (limitedClass specifier).name = ['A']) :
    ∀ n ∈ [str ['x']], n.str? ≠ some (limitedClass specifier).name := by
  intro n hn
  rw [mem_singleton.mp hn, hname]
  decide

/-- The constant of every object is initialized though only the variable is asked for. -/
theorem initializes_iff_ownConstant : ∃ os, resolve (limitedConstructor "signed") (some (.arr [.str ['x']])) = .ok os ∧
    Initializes (limitedClass "signed") [.str ['x']] os := by
  have hconstructor : (limitedConstructor "signed").isConstructor = true := by decide +kernel
  have hclass : (limitedClass "signed").isClass = true := by decide +kernel
  have hname : (limitedClass "signed").name = ['A'] := by decide +kernel
  have hdenoted : (denoted? (limitedClass "signed") ['x']).map Operand.name = some ['x'] := by decide +kernel
  obtain ⟨m, hrequired, hstatic, hfree⟩ := limit_not_forestalled false (by decide +kernel) hdenoted
  obtain ⟨os, hos⟩ := exists_resolve_limited hname hdenoted
  rw [← resolve_limitedConstructor hconstructor hclass] at hos
  have hparent := parent?_limitedConstructor "signed"
  refine ⟨os, hos,
    (initializes_iff hconstructor hparent hclass rfl (delegation_limited hname) hos).2.mpr ⟨?_, ?_⟩⟩
  · intro before m' after hsplit hstatic'
    have hm' : m' ∈ [m] := by
      rw [← hrequired, hsplit]
      exact List.mem_append_right before List.mem_cons_self
    rw [List.mem_singleton.mp hm', hstatic] at hstatic'
    cases hstatic'
  · intro m' hm' _
    rw [hrequired] at hm' ⊢
    obtain rfl := List.mem_singleton.mp hm'
    exact .inr ⟨[], [], rfl, hfree⟩

/-- A constant of the class, which no constructor may initialize, comes into the list as well. -/
theorem static_constant_initialized : ∃ os, resolve (limitedConstructor "static") (some (.arr [.str ['x']])) = .ok os ∧
    (∃ m, .member m ∈ os ∧ m.isStatic = true) ∧ ¬ Initializes (limitedClass "static") [.str ['x']] os := by
  have hname : (limitedClass "static").name = ['A'] := by decide +kernel
  have hdenoted : (denoted? (limitedClass "static") ['x']).map Operand.name = some ['x'] := by decide +kernel
  obtain ⟨m, hrequired, hstatic, hfree⟩ := limit_not_forestalled true (by decide +kernel) hdenoted
  obtain ⟨os, hos⟩ := exists_resolve_limited hname hdenoted
  obtain ⟨chosen, _, hmem, _, hsorted⟩ := resolveIn_ok (delegation_limited hname) hos
  have hlisted : .member m ∈ os := by
    rw [hsorted, List.mem_mergeSort]
    exact List.mem_append_right _ (List.mem_map_of_mem ((mem_added hmem).mpr ⟨[], [], hrequired, hfree⟩))
  rw [← resolve_limitedConstructor (by decide +kernel) (by decide +kernel)] at hos
  refine ⟨os, hos, ⟨m, hlisted, hstatic⟩, fun hproper => ?_⟩
  have hown := member_mem_all (hproper.parts.subset hlisted)
  rw [hstatic] at hown
  cases hown

end Initializers

end CppScaffold
