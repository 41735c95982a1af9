import CppScaffold.Path.Basic
import CppScaffold.Proofs.Trimming
import Mathlib.Tactic.MkIffOfInductiveProp

/-!
# Paths below a directory

In absolute normal form, a path that goes on from a directory has the segments of the directory and the further names
(`normalNames_descend`).
-/

namespace CppScaffold

open Text List

/-- A name that a file or directory can have in its directory. -/
@[mk_iff]
structure IsEntryName (n : Text) : Prop where
  ne_nil : n ≠ []
  notMem : '/' ∉ n
  ne_dot : n ≠ ['.']
  ne_dots : n ≠ ['.', '.']

instance : DecidablePred IsEntryName := fun n => decidable_of_iff _ (isEntryName_iff n).symm

abbrev EntryNames (names : List Text) : Prop := ∀ n ∈ names, IsEntryName n

namespace Path

variable {n p q : Text} {names segments done : List Text}

/-- The path that goes on from a directory with the given names. -/
def descend (directory : Text) (names : List Text) : Text := names.foldl join directory

/-- The absolute path with the given segments. -/
def rooted (names : List Text) : Text := '/' :: Text.join ['/'] names

/-- The segments of the absolute normal form of a path. -/
def normalNames (p : Text) : List Text :=
  normalSegments true [] (splitAtChar '/' (join workingDirectory (onDisk p)))

/-! ## A name at the end of a path -/

lemma isPrefixOf_slash_cons {c : Char} (hc : c ≠ '/') (p : Text) : ['/'].isPrefixOf (c :: p) = false := by
  simpa [isPrefixOf] using hc.symm

lemma isPrefixOf_slash (hn : IsEntryName n) : ['/'].isPrefixOf n = false := by
  cases n with
  | nil => rfl
  | cons c n => exact isPrefixOf_slash_cons (fun h => hn.notMem (h ▸ mem_cons_self)) n

/-- A name is put behind a slash, which is added if there is none yet. -/
lemma join_cases (hn : IsEntryName n) (p : Text) :
    (p = [] ∧ join p n = n) ∨ (∃ u, p = u ++ ['/'] ∧ join p n = u ++ '/' :: n) ∨
      (p ≠ [] ∧ join p n = p ++ '/' :: n) := by
  have hroot := isPrefixOf_slash hn
  by_cases hp : p = []
  · subst hp
    exact .inl ⟨rfl, by simp [join, hroot]⟩
  · cases hslash : ['/'].isSuffixOf p with
    | true =>
      obtain ⟨u, rfl⟩ := isSuffixOf_iff_suffix.mp hslash
      exact .inr (.inl ⟨u, rfl, by simp [join, hroot, hslash]⟩)
    | false => exact .inr (.inr ⟨hp, by simp [join, hroot, hslash, hp]⟩)

lemma fileName_eq_self (hn : '/' ∉ n) : fileName n = n := by
  rw [fileName, afterLast, takeWhile_eq_self_iff.mpr (by simpa using forall_mem_ne'.mpr hn), reverse_reverse]

lemma fileName_join (hn : IsEntryName n) (p : Text) : fileName (join p n) = n := by
  have hslash : ∀ u : Text, fileName (u ++ '/' :: n) = n := by
    intro u
    rw [fileName, afterLast, reverse_append, reverse_cons, append_assoc, singleton_append,
      takeWhile_append_cons (by simpa using forall_mem_ne'.mpr hn.notMem) (by decide), reverse_reverse]
  rcases join_cases hn p with ⟨-, h⟩ | ⟨u, -, h⟩ | ⟨-, h⟩
  · rw [h, fileName_eq_self hn.notMem]
  · rw [h, hslash]
  · rw [h, hslash]

lemma extension_join (hn : IsEntryName n) (p : Text) : (splitExtension (join p n)).2 = (splitExtension n).2 := by
  rw [splitExtension, splitExtension, fileName_join hn, fileName_eq_self hn.notMem]
  cases findLast? ['.'] n with
  | none => rfl
  | some i =>
    dsimp only
    split <;> rfl

/-! ## Normal forms -/

/-- What one more segment does to the segments kept so far, in reverse, of a path from the root. -/
def afterSegment (done : List Text) (s : Text) : List Text :=
  if s.isEmpty || s == ['.'] then done
  else if s == ['.', '.'] then if done.head? == some ['.', '.'] then s :: done else done.tail
  else s :: done

lemma normalSegments_eq_foldl (segments done : List Text) :
    normalSegments true done segments = (segments.foldl afterSegment done).reverse := by
  fun_induction normalSegments true done segments with
  | case1 done => rfl
  | case2 done s rest hs ih => rw [foldl_cons, afterSegment, if_pos hs, ih]
  | case3 s rest hs hdots ih =>
    rw [foldl_cons, afterSegment, if_neg hs, if_pos hdots]
    exact ih
  | case4 s rest hs hdots d ds ih =>
    rw [foldl_cons, afterSegment, if_neg hs, if_pos hdots, ih]
    by_cases hd : d = ['.', '.'] <;> simp [hd]
  | case5 done s rest hs hdots ih => rw [foldl_cons, afterSegment, if_neg hs, if_neg hdots, ih]

lemma afterSegment_name (hn : IsEntryName n) (done : List Text) : afterSegment done n = n :: done := by
  simp [afterSegment, hn.ne_nil, hn.ne_dot, hn.ne_dots]

/-- A path from the root keeps no steps back. -/
lemma entryNames_normalSegments (hsegments : ∀ m ∈ segments, '/' ∉ m) :
    EntryNames (normalSegments true [] segments) := by
  suffices hall : ∀ done, EntryNames done → EntryNames (segments.foldl afterSegment done) by
    intro m hm
    rw [normalSegments_eq_foldl, mem_reverse] at hm
    exact hall [] (forall_mem_nil _) m hm
  induction segments with
  | nil => exact fun done hdone => hdone
  | cons s rest ih =>
    obtain ⟨hs, hrest⟩ := forall_mem_cons.mp hsegments
    intro done hdone
    refine ih hrest _ ?_
    rw [afterSegment]
    split_ifs with hempty hdots hback
    · exact hdone
    · exact absurd rfl (hdone _ (mem_of_head? (beq_iff_eq.mp hback))).ne_dots
    · exact fun m hm => hdone m (mem_of_mem_tail hm)
    · rw [Bool.or_eq_true, not_or] at hempty
      exact forall_mem_cons.mpr ⟨⟨by simpa using hempty.1, hs, by simpa using hempty.2, by simpa using hdots⟩, hdone⟩

lemma notMem_of_mem_splitAtChar {sep : Char} {t : Text} (h : q ∈ splitAtChar sep t) : sep ∉ q := by
  induction t generalizing q with
  | nil =>
    obtain rfl := mem_singleton.mp h
    exact not_mem_nil
  | cons c t ih =>
    obtain ⟨piece, pieces, ht⟩ := exists_cons_of_ne_nil (splitAtChar_ne_nil sep t)
    rw [splitAtChar] at h
    split at h
    · rcases mem_cons.mp h with rfl | h
      · exact not_mem_nil
      · exact ih h
    next hc =>
      rw [ht] at h ih
      rcases mem_cons.mp h with rfl | h
      · rw [mem_cons, not_or]
        exact ⟨fun heq => hc (by simp [heq]), ih mem_cons_self⟩
      · exact ih (mem_cons_of_mem _ h)

lemma foldl_afterSegment_dropWhile (p : Text) (done : List Text) :
    (splitAtChar '/' (p.dropWhile (· == '/'))).foldl afterSegment done = (splitAtChar '/' p).foldl afterSegment done := by
  induction p with
  | nil => rfl
  | cons c p ih =>
    by_cases hc : c = '/'
    · subst hc
      rw [dropWhile_cons_of_pos rfl, ih]
      rfl
    · rw [dropWhile_cons_of_neg (by simpa using hc)]

/-- Further slashes at the start of a path do not matter. -/
lemma normalNames_eq (p : Text) :
    normalNames p = ((splitAtChar '/' (join workingDirectory p)).foldl afterSegment []).reverse := by
  rw [normalNames, normalSegments_eq_foldl, onDisk]
  split
  next h =>
    obtain ⟨q, rfl⟩ := isPrefixOf_iff_prefix.mp h
    have hself : join workingDirectory (['/', '/'] ++ q) = ['/', '/'] ++ q := rfl
    rw [hself, ← foldl_afterSegment_dropWhile (['/', '/'] ++ q)]
    rfl
  next => rfl

lemma exists_join_workingDirectory (hp : p ≠ []) : ∃ w, ∀ z, join workingDirectory (p ++ z) = w ++ (p ++ z) := by
  obtain ⟨c, p, rfl⟩ := exists_cons_of_ne_nil hp
  by_cases hc : c = '/'
  · subst hc
    exact ⟨[], fun z => rfl⟩
  · refine ⟨"/work/", fun z => ?_⟩
    rw [join, cons_append, isPrefixOf_slash_cons hc]
    rfl

/-- What is put behind a slash at the end of a path comes behind its segments. -/
lemma foldl_afterSegment_slash (hn : IsEntryName n) (u : Text) (done : List Text) :
    (splitAtChar '/' (u ++ '/' :: n)).foldl afterSegment done = n :: (splitAtChar '/' u).foldl afterSegment done := by
  rw [splitAtChar_append, splitAtChar_of_notMem hn.notMem, foldl_append, foldl_cons, foldl_nil, afterSegment_name hn]

lemma normalNames_join (hn : IsEntryName n) (p : Text) : normalNames (join p n) = normalNames p ++ [n] := by
  have hslash : ∀ u, (splitAtChar '/' (u ++ ['/'])).foldl afterSegment [] = (splitAtChar '/' u).foldl afterSegment [] := by
    intro u
    rw [splitAtChar_append, foldl_append]
    rfl
  rw [normalNames_eq, normalNames_eq, ← reverse_cons]
  refine congrArg reverse ?_
  rcases join_cases hn p with ⟨rfl, h⟩ | ⟨u, rfl, h⟩ | ⟨hp, h⟩
  · have hjoin : join workingDirectory n = "/work" ++ '/' :: n := by
      rw [join, isPrefixOf_slash hn]
      rfl
    rw [h, hjoin, foldl_afterSegment_slash hn]
    exact congrArg (n :: ·) (hslash "/work").symm
  · obtain ⟨w, hw⟩ := exists_join_workingDirectory (p := u ++ ['/']) (by simp)
    have hname := hw n
    have hself := hw []
    rw [append_nil, ← append_assoc] at hself
    rw [append_assoc, singleton_append, ← append_assoc] at hname
    rw [h, hname, hself, foldl_afterSegment_slash hn, hslash]
  · obtain ⟨w, hw⟩ := exists_join_workingDirectory hp
    have hself := hw []
    rw [append_nil] at hself
    rw [h, hw, hself, ← append_assoc, foldl_afterSegment_slash hn]

lemma normalNames_descend (hnames : EntryNames names) (p : Text) :
    normalNames (descend p names) = normalNames p ++ names := by
  induction names generalizing p with
  | nil => exact (append_nil _).symm
  | cons m names ih =>
    obtain ⟨hm, hnames⟩ := forall_mem_cons.mp hnames
    rw [descend, foldl_cons, ← descend, ih hnames, normalNames_join hm, append_assoc, singleton_append]

lemma rootOf_slash (h : p.head? ≠ some '/') : rootOf ('/' :: p) = ['/'] := by
  cases p with
  | nil => rfl
  | cons c p =>
    rw [rootOf.eq_def]
    split
    next heq => exact absurd (by rw [(cons.inj heq).2]; rfl) h
    next heq => exact absurd (by rw [(cons.inj heq).2]; rfl) h
    next => rfl
    next hne => exact absurd rfl (hne _)

lemma rootOf_workingDirectory (p : Text) : rootOf (join workingDirectory (onDisk p)) = ['/'] := by
  rw [onDisk]
  split
  next =>
    refine rootOf_slash fun h => ?_
    have hstop := head?_dropWhile_not (· == '/') p
    rw [h] at hstop
    cases hstop
  next hdouble =>
    cases p with
    | nil => rfl
    | cons c p =>
      by_cases hc : c = '/'
      · subst hc
        refine rootOf_slash fun h => hdouble ?_
        obtain ⟨q, rfl⟩ := head?_eq_some_iff.mp h
        rfl
      · rw [join, isPrefixOf_slash_cons hc]
        rfl

lemma splitAtChar_join (hne : names ≠ []) (hnames : ∀ m ∈ names, '/' ∉ m) :
    splitAtChar '/' (Text.join ['/'] names) = names := by
  induction names with
  | nil => exact absurd rfl hne
  | cons m names ih =>
    obtain ⟨hm, hnames⟩ := forall_mem_cons.mp hnames
    by_cases hlast : names = []
    · rw [hlast, join_singleton, splitAtChar_of_notMem hm]
    · rw [join_cons _ _ hlast, singleton_append, splitAtChar_append, splitAtChar_of_notMem hm, ih hlast hnames]
      rfl

lemma parts_slash (hnames : EntryNames names) : parts ('/' :: Text.join ['/'] names) = ['/'] :: names := by
  have hsegments : (splitAtChar '/' (Text.join ['/'] names)).filter (fun s => !s.isEmpty && s != ['.']) = names := by
    by_cases hne : names = []
    · subst hne
      rfl
    · rw [splitAtChar_join hne fun m hm => (hnames m hm).notMem]
      exact filter_eq_self.mpr fun m hm => by simp [(hnames m hm).ne_nil, (hnames m hm).ne_dot]
  have hroot : rootOf ('/' :: Text.join ['/'] names) = ['/'] := by
    refine rootOf_slash fun h => ?_
    cases names with
    | nil => cases h
    | cons m names =>
      have hm := hnames m mem_cons_self
      have hhead : (Text.join ['/'] (m :: names)).head? = m.head? := by
        by_cases hlast : names = []
        · rw [hlast, join_singleton]
        · rw [join_cons _ _ hlast, head?_append_of_ne_nil _ hm.ne_nil]
      rw [hhead] at h
      exact hm.notMem (mem_of_head? h)
  rw [parts, hroot, splitAtChar_cons_self, filter_cons_of_neg (by decide), hsegments]
  rfl

lemma entryNames_normalNames (p : Text) : EntryNames (normalNames p) :=
  entryNames_normalSegments fun _ hm => notMem_of_mem_splitAtChar hm

lemma located_eq (p : Text) : located p = rooted (normalNames p) := by
  rw [located, absolute, normalize, rootOf_workingDirectory]
  rfl

lemma parts_located (p : Text) : parts (located p) = ['/'] :: normalNames p := by
  rw [located_eq, rooted, parts_slash (entryNames_normalNames p)]

/-- What leads to a file below the root is read off its located path. -/
lemma partsBelow?_descend (hnames : EntryNames names) (root : Text) :
    partsBelow? (located root) (located (descend root names)) = some names := by
  rw [partsBelow?, parts_located, parts_located, normalNames_descend hnames]
  rw [← cons_append]
  simp

/-! ## Paths in normal form -/

lemma rooted_concat (names : List Text) (n : Text) :
    rooted (names ++ [n]) = names.flatMap ('/' :: ·) ++ '/' :: n := by
  induction names with
  | nil => exact congrArg ('/' :: ·) (join_singleton _ n)
  | cons m names ih =>
    rw [flatMap_cons, cons_append, append_assoc, ← ih, rooted, cons_append, join_cons _ _ (by simp)]
    rfl

lemma rooted_prefix (names more : List Text) : rooted names <+: rooted (names ++ more) := by
  rcases eq_nil_or_concat' names with rfl | ⟨names, m, rfl⟩
  · exact ⟨_, rfl⟩
  · rcases eq_nil_or_concat' more with rfl | ⟨more, n, rfl⟩
    · rw [append_nil]
    · rw [← append_assoc, rooted_concat, rooted_concat, flatMap_append, flatMap_append, flatMap_singleton, append_assoc]
      exact prefix_append ..

lemma getLast?_rooted (names : List Text) (hn : IsEntryName n) : (rooted (names ++ [n])).getLast? ≠ some '/' := by
  rw [rooted_concat, getLast?_append_cons, getLast?_cons_of_ne_nil hn.ne_nil]
  exact fun h => hn.notMem (mem_of_getLast? h)

lemma join_rooted (hnames : EntryNames names) (hn : IsEntryName n) :
    join (rooted names) n = rooted (names ++ [n]) := by
  rcases eq_nil_or_concat' names with rfl | ⟨names, m, rfl⟩
  · rw [join, isPrefixOf_slash hn, rooted_concat]
    rfl
  · have hm := hnames m (by simp)
    rw [rooted_concat (names ++ [m]), flatMap_append, flatMap_singleton, ← rooted_concat]
    rcases join_cases hn (rooted (names ++ [m])) with ⟨h, -⟩ | ⟨u, h, -⟩ | ⟨-, h⟩
    · cases h
    · exact absurd (by rw [h, getLast?_concat]) (getLast?_rooted names hm)
    · exact h

lemma descend_rooted {more : List Text} (hnames : EntryNames names) (hmore : EntryNames more) :
    descend (rooted names) more = rooted (names ++ more) := by
  induction more generalizing names with
  | nil => rw [append_nil, descend, foldl_nil]
  | cons n more ih =>
    obtain ⟨hn, hmore⟩ := forall_mem_cons.mp hmore
    rw [descend, foldl_cons, join_rooted hnames hn, ← descend, ih (forall_mem_append.mpr ⟨hnames, forall_mem_singleton.mpr hn⟩) hmore,
      append_assoc, singleton_append]

lemma normalNames_rooted (hnames : EntryNames names) : normalNames (rooted names) = names := by
  rw [← nil_append names, ← descend_rooted (forall_mem_nil _) hnames, normalNames_descend hnames]
  rfl

lemma directory_rooted (hnames : EntryNames names) : directory (rooted names) = rooted names.dropLast := by
  rcases eq_nil_or_concat' names with rfl | ⟨names, n, rfl⟩
  · rfl
  · obtain ⟨hnames, hn⟩ := forall_mem_append.mp hnames
    have hn := hn n (by simp)
    have hname : fileName (rooted (names ++ [n])) = n := by rw [← join_rooted hnames hn, fileName_join hn]
    have hhead : (rooted (names ++ [n])).take ((rooted (names ++ [n])).length - n.length) =
        names.flatMap ('/' :: ·) ++ ['/'] := by
      rw [rooted_concat, ← singleton_append, ← append_assoc]
      exact take_left' (by simp only [length_append, length_singleton]; omega)
    rw [directory, hname, hhead, dropLast_concat]
    rcases eq_nil_or_concat' names with rfl | ⟨names, m, rfl⟩
    · rfl
    · have hm := hnames m (by simp)
      have hslashes : (rooted (names ++ [m]) ++ ['/']).all (· == '/') = false := by
        obtain ⟨c, hc⟩ := exists_mem_of_ne_nil m hm.ne_nil
        refine all_eq_false.mpr ⟨c, by simp [rooted_concat, hc], ?_⟩
        rw [beq_iff_eq]
        exact fun h => hm.notMem (h ▸ hc)
      rw [flatMap_append, flatMap_singleton, ← rooted_concat]
      rw [hslashes, dropEndWhile_append (by simp), dropEndWhile_eq_self]
      · rfl
      · intro c hc
        rw [beq_eq_false_iff_ne]
        exact fun h => getLast?_rooted names hm (h ▸ hc)

end Path

end CppScaffold
