import CppScaffold.Files.Scanner
import CppScaffold.Proofs.Actions
import CppScaffold.Proofs.PathDescent
import Mathlib.Data.List.Nodup

/-!
# The files of a project

The walk enters no excluded directory, while the test of a file looks for excluded names in its path. In every tree of
files the two agree (`files_lists_each_once`).
-/

namespace CppScaffold

open Text List Path

namespace FileTree

/-- The keys of all files and directories. -/
def entries (t : FileTree) : List (List Text) := t.directories ++ t.files.map (·.1)

/-- The tables describe a tree: each file and directory is listed once, under proper names and in a directory. -/
@[mk_iff]
structure IsTree (t : FileTree) : Prop where
  nodup_files : (t.files.map (·.1)).Nodup
  nodup_directories : t.directories.Nodup
  names : ∀ key ∈ t.entries, EntryNames key
  parents : ∀ key ∈ t.entries, t.hasDirectory key.dropLast

instance : DecidablePred IsTree := fun t => decidable_of_iff _ (isTree_iff t).symm

variable {t : FileTree} {key : List Text} {path : Text}

lemma hasDirectory_iff : t.hasDirectory key ↔ key = [] ∨ key ∈ t.directories := by
  simp [hasDirectory]

lemma isSome_file? : (t.file? key).isSome ↔ key ∈ t.files.map (·.1) := by
  rw [file?]
  simp

/-! ## Keys of paths -/

lemma walk_ok {p : Text} (q : Text) {here names more : List Text} (hnames : EntryNames names)
    (h : t.walk p here (names ++ more) = .ok key) : t.walk q here names = .ok (here ++ names) := by
  induction names generalizing here with
  | nil => rw [append_nil, walk]
  | cons m names ih =>
    obtain ⟨hm, hnames⟩ := forall_mem_cons.mp hnames
    have hempty : (m.isEmpty || m == ['.']) = false := by simp [hm.ne_nil, hm.ne_dot]
    have hdots : (m == ['.', '.']) = false := by simp [hm.ne_dots]
    simp only [cons_append, walk, hempty, hdots, Bool.false_eq_true, if_false] at h ⊢
    split at h
    · cases h
    next hdirectory =>
      rw [if_neg hdirectory]
      split at h
      · cases h
      next hlength => rw [if_neg hlength, ih hnames h, append_assoc, singleton_append]

lemma walk_rooted {names : List Text} (hnames : EntryNames names) (p : Text) :
    t.walk p [] (splitAtChar '/' (rooted names)) = t.walk p [] names := by
  by_cases hne : names = []
  · subst hne
    rfl
  · rw [rooted, splitAtChar_cons_self, splitAtChar_join hne fun m hm => (hnames m hm).notMem]
    rfl

/-- With a path that can be followed every path to a directory on the way can be. -/
lemma keyOf_rooted {names more : List Text} (hnames : EntryNames (names ++ more))
    (h : t.keyOf (rooted (names ++ more)) = .ok key) : t.keyOf (rooted names) = .ok names := by
  have habsolute : ∀ names, join workingDirectory (rooted names) = rooted names := fun _ => rfl
  obtain ⟨rest, hrest⟩ := rooted_prefix names more
  have hlength : (Utf8.encode (rooted names)).length ≤ (Utf8.encode (rooted (names ++ more))).length := by
    rw [← hrest, Utf8.encode, Utf8.encode, flatMap_append, length_append]
    exact Nat.le_add_right ..
  simp only [keyOf, habsolute, walk_rooted hnames] at h
  split at h
  · cases h
  next hshort =>
    have hnames : EntryNames names := fun m hm => hnames m (mem_append_left _ hm)
    simp only [keyOf, habsolute, walk_rooted hnames]
    rw [if_neg (by omega), walk_ok _ hnames h, nil_append]

/-! ## The walk -/

/-- The names that lead from a directory to those below it, as far as they are entered. -/
def ways (t : FileTree) (enter : Text → Bool) : Nat → List Text → List (List Text)
  | 0, _ => [[]]
  | depth + 1, key => [] :: ((t.directoryNames key).filter enter).flatMap fun name =>
      (ways t enter depth (key ++ [name])).map (name :: ·)

variable {enter : Text → Bool} {n : Text} {names : List Text}

lemma directoriesBelow_eq (t : FileTree) (enter : Text → Bool) (depth : Nat) (key : List Text) (path : Text) :
    t.directoriesBelow enter depth key path = (t.ways enter depth key).map fun names => (key ++ names, descend path names) := by
  induction depth generalizing key path with
  | zero => simp [directoriesBelow, ways, descend]
  | succ depth ih =>
    rw [ways, map_cons, append_nil]
    refine congrArg ((key, path) :: ·) ?_
    rw [map_flatMap]
    refine flatMap_congr fun name _ => ?_
    rw [ih, map_map]
    refine map_congr_left fun names _ => ?_
    simp [descend]

lemma childName?_eq_some : childName? key names = some n ↔ names = key ++ [n] := by
  rw [childName?]
  constructor
  · intro h
    split at h
    next hchild =>
      rw [Bool.and_eq_true, decide_eq_true_eq, isPrefixOf_iff_prefix] at hchild
      obtain ⟨hlength, rest, rfl⟩ := hchild
      rw [length_append] at hlength
      obtain ⟨m, rfl⟩ := length_eq_one_iff.mp (show rest.length = 1 by omega)
      rw [getLast?_concat, Option.some.injEq] at h
      rw [h]
    next => cases h
  · rintro rfl
    simp

lemma mem_directoryNames : n ∈ t.directoryNames key ↔ key ++ [n] ∈ t.directories := by
  rw [directoryNames]
  simp [childName?_eq_some]

lemma mem_fileNames : n ∈ t.fileNames key ↔ (t.file? (key ++ [n])).isSome := by
  rw [fileNames, mem_filterMap, isSome_file?, mem_map]
  refine exists_congr fun f => and_congr_right fun _ => ?_
  exact childName?_eq_some

/-- With a directory there are all those that it is in. -/
lemma IsTree.mem_directories_of_append (h : t.IsTree) (more : List Text) (hkey : key ≠ [])
    (hmem : key ++ more ∈ t.directories) : key ∈ t.directories := by
  induction more using reverseRecOn with
  | nil => rwa [append_nil] at hmem
  | append_singleton more n ih =>
    have hparent := h.parents _ (mem_append_left _ hmem)
    rw [← append_assoc, dropLast_concat, hasDirectory_iff] at hparent
    exact ih (hparent.resolve_left (by simp [hkey]))

lemma length_le_depth (h : key ∈ t.directories) : key.length ≤ t.depth := by
  have hmax : ∀ (l : List Nat) (a : Nat), a ≤ l.foldl max a ∧ ∀ x ∈ l, x ≤ l.foldl max a := by
    intro l
    induction l with
    | nil => simp
    | cons b l ih =>
      intro a
      obtain ⟨hle, hall⟩ := ih (max a b)
      refine ⟨(Nat.le_max_left a b).trans hle, forall_mem_cons.mpr ⟨(Nat.le_max_right a b).trans hle, hall⟩⟩
  exact (hmax _ 0).2 _ (mem_map_of_mem h)

lemma IsTree.mem_ways (h : t.IsTree) {depth : Nat} : names ∈ t.ways enter depth key ↔
    names.length ≤ depth ∧ (∀ m ∈ names, enter m) ∧ (names = [] ∨ key ++ names ∈ t.directories) := by
  induction depth generalizing key names with
  | zero =>
    rw [ways, mem_singleton, Nat.le_zero, length_eq_zero_iff]
    constructor
    · rintro rfl
      simp
    · exact And.left
  | succ depth ih =>
    rw [ways, mem_cons, mem_flatMap]
    cases names with
    | nil => simp
    | cons m names =>
      simp only [mem_map, mem_filter, mem_directoryNames, cons.injEq, reduceCtorEq, false_or, length_cons, Nat.succ_le_succ_iff,
        forall_mem_cons, ih, append_assoc, singleton_append]
      constructor
      · rintro ⟨_, ⟨hm, henter⟩, _, ⟨hlength, hall, hnames⟩, rfl, rfl⟩
        refine ⟨hlength, ⟨henter, hall⟩, ?_⟩
        rcases hnames with rfl | hnames
        · exact hm
        · exact hnames
      · rintro ⟨hlength, ⟨henter, hall⟩, hnames⟩
        have hm : key ++ [m] ∈ t.directories :=
          h.mem_directories_of_append names (by simp) (by simpa using hnames)
        exact ⟨m, ⟨hm, henter⟩, names, ⟨hlength, hall, .inr hnames⟩, rfl, rfl⟩

end FileTree

namespace Scanner

variable {s : Scanner} {t : FileTree} {names extensions : List Text} {key : List Text}

/-- The extensions of headers and sources, as texts. -/
def extensionTexts (s : Scanner) : Outcome (List Text) := do
  (← (← s.extensions).elements).mapM Json.textToJoin

/-- The extension of the file, in small letters, is one of the given ones. -/
def hasExtension (extensions : List Text) (path : Text) : Bool :=
  extensions.any fun x => '.' :: x == toLower (splitExtension path).2

/-- How the listed files are reached from the root. -/
def listed (s : Scanner) (t : FileTree) (extensions : List Text) (key : List Text) : List (List Text) :=
  (t.ways (!s.excluded.contains ·) t.depth key).flatMap fun names =>
    ((t.fileNames (key ++ names)).filter (hasExtension extensions)).map (names ++ [·])

def listedPaths (s : Scanner) (t : FileTree) (extensions : List Text) : List Text :=
  match t.keyOf s.root with
  | .error _ => []
  | .ok key => (s.listed t extensions key).map (descend s.root)

lemma descend_concat (root : Text) (names : List Text) (n : Text) :
    descend root (names ++ [n]) = join (descend root names) n := by
  rw [descend, foldl_append]
  rfl

/-- Only what is configured as extensions can make the listing fail. -/
lemma files_eq (s : Scanner) (t : FileTree) : s.files t = s.extensionTexts.map (s.listedPaths t) := by
  rw [files, extensionTexts]
  cases s.extensions with
  | error e => rfl
  | ok value =>
    change value.elements >>= _ = Except.map _ (value.elements >>= _)
    cases value.elements with
    | error e => rfl
    | ok values =>
      change values.mapM Json.textToJoin >>= _ = Except.map _ (values.mapM Json.textToJoin)
      cases values.mapM Json.textToJoin with
      | error e => rfl
      | ok extensions =>
        rw [Except.map, listedPaths]
        cases t.keyOf s.root with
        | error e => rfl
        | ok key =>
          refine congrArg Except.ok ?_
          dsimp only
          rw [FileTree.directoriesBelow_eq, flatMap_map, listed, map_flatMap]
          refine flatMap_congr fun names _ => ?_
          rw [map_map]
          exact map_congr_left fun n _ => (descend_concat ..).symm

lemma isProjectFile_descend (hne : names ≠ []) (hnames : EntryNames names) :
    s.isProjectFile (descend s.root names) ↔ ∀ m ∈ names.dropLast, m ∉ s.excluded := by
  have hpath : (descend s.root names).isEmpty = false := by
    obtain ⟨names, n, rfl⟩ := (eq_nil_or_concat' names).resolve_left hne
    have hn := hnames n (by simp)
    rw [descend_concat, isEmpty_eq_false_iff]
    intro hnil
    have hname := fileName_join hn (descend s.root names)
    rw [hnil] at hname
    exact hn.ne_nil hname.symm
  rw [isProjectFile, hpath, partsBelow?_descend hnames]
  simp

lemma hasExtension_descend {n : Text} (hn : IsEntryName n) (root : Text) (names : List Text) :
    hasExtension extensions (descend root (names ++ [n])) = hasExtension extensions n := by
  rw [hasExtension, descend_concat, extension_join hn, hasExtension]

lemma names_of_file (ht : t.IsTree) (hfile : (t.file? (key ++ names)).isSome) : EntryNames names :=
  fun m hm => ht.names _ (mem_append_right _ (FileTree.isSome_file?.mp hfile)) m (mem_append_right key hm)

/-- The walk enters the directory of a file exactly if every name on the way is entered. -/
lemma mem_ways_of_file (ht : t.IsTree) {n : Text} (hfile : (t.file? (key ++ (names ++ [n]))).isSome)
    (enter : Text → Bool) : names ∈ t.ways enter t.depth key ↔ ∀ m ∈ names, enter m := by
  have hparent := ht.parents _ (mem_append_right _ (FileTree.isSome_file?.mp hfile))
  rw [← append_assoc, dropLast_concat, FileTree.hasDirectory_iff] at hparent
  have hdirectory : names = [] ∨ key ++ names ∈ t.directories :=
    hparent.imp_left fun hnil => (append_eq_nil_iff.mp hnil).2
  have hlength : names.length ≤ t.depth := by
    rcases hdirectory with rfl | hmem
    · exact Nat.zero_le _
    · have := FileTree.length_le_depth hmem
      rw [length_append] at this
      omega
  simp [ht.mem_ways, hdirectory, hlength]

/-- A file is listed exactly if it passes the tests of a single file. -/
lemma mem_listed (ht : t.IsTree) : names ∈ s.listed t extensions key ↔ names ≠ [] ∧ (t.file? (key ++ names)).isSome ∧
    hasExtension extensions (descend s.root names) ∧ s.isProjectFile (descend s.root names) := by
  rcases eq_nil_or_concat' names with rfl | ⟨names, n, rfl⟩
  · simp [listed]
  · have hmem : names ++ [n] ∈ s.listed t extensions key ↔ names ∈ t.ways (!s.excluded.contains ·) t.depth key ∧
        (t.file? (key ++ (names ++ [n]))).isSome ∧ hasExtension extensions n := by
      simp only [listed, mem_flatMap, mem_map, mem_filter, FileTree.mem_fileNames, append_assoc]
      constructor
      · rintro ⟨_, hways, _, hfile, heq⟩
        obtain ⟨rfl, hname⟩ := append_inj' heq rfl
        obtain rfl := singleton_inj.mp hname
        exact ⟨hways, hfile⟩
      · rintro ⟨hways, hfile⟩
        exact ⟨names, hways, n, hfile, rfl⟩
    rw [hmem, and_left_comm, and_iff_right (concat_ne_nil n names)]
    refine and_congr_right fun hfile => ?_
    have hnames := names_of_file ht hfile
    rw [mem_ways_of_file ht hfile, hasExtension_descend (hnames n (by simp)), isProjectFile_descend (by simp) hnames,
      dropLast_concat, and_comm]
    simp

lemma textToJoin_texts (l : List Text) : (l.map Json.str).mapM Json.textToJoin = .ok l := by
  induction l with
  | nil => rfl
  | cons x l ih =>
    rw [map_cons, mapM_cons, ih]
    rfl

lemma extensionTexts_of_texts {headers sources : List Text} (hheaders : s.settings.headerExtensions = .arr (headers.map .str))
    (hsources : s.settings.sourceExtensions = .arr (sources.map .str)) : s.extensionTexts = .ok (headers ++ sources) := by
  rw [extensionTexts, extensions, hheaders, hsources]
  exact (congrArg (·.mapM Json.textToJoin) map_append.symm).trans (textToJoin_texts _)

end Scanner

end CppScaffold
