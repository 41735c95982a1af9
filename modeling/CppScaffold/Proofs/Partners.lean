import CppScaffold.Proofs.PartnerRuns
import CppScaffold.Proofs.ProjectFiles

/-!
# Partners found in a tree

For names without wild cards the search finds listed files only, and misses only those in hidden directories
(`freshAnswer_sound_and_complete`).
-/

namespace CppScaffold

open Text List Path

/-- A name that stands for itself in a search. -/
structure IsPlainName (n : Text) : Prop extends IsEntryName n where
  plain : Pattern.isPattern n = false

/-- An extension that a search and the listing of files read as it is written. -/
@[mk_iff]
structure IsPlainExtension (e : Text) : Prop where
  ne_nil : e ≠ []
  notMem_dot : '.' ∉ e
  notMem_slash : '/' ∉ e
  plain : Pattern.isPattern e = false
  lower : toLower e = e
  lower_dot : toLower ('.' :: e) = '.' :: e

instance : DecidablePred IsPlainExtension := fun e => decidable_of_iff _ (isPlainExtension_iff e).symm

namespace Path

variable {m e base : Text}

lemma notMem_fileName (m : Text) : '/' ∉ fileName m := by
  intro h
  rw [fileName, afterLast, mem_reverse] at h
  simpa using mem_takeWhile_imp h

lemma splitExtension_eq (hbase : ∃ c ∈ base, c ≠ '.') (he : '.' ∉ e) (hslash : '/' ∉ base ++ '.' :: e) :
    splitExtension (base ++ '.' :: e) = (base, '.' :: e) := by
  have hlast : findLast? ['.'] (base ++ '.' :: e) = some base.length := by
    rw [findLast?_eq_some_iff (by simp), drop_left]
    refine ⟨⟨e, rfl⟩, fun j hj hdot => he ?_⟩
    obtain ⟨k, rfl⟩ := Nat.exists_eq_add_of_lt hj
    rw [Nat.add_assoc, ← drop_drop, drop_left, drop_succ_cons] at hdot
    exact mem_of_mem_drop (hdot.subset mem_cons_self)
  have hdots : base.all (· == '.') = false := by simpa using hbase
  simp [splitExtension, fileName_eq_self hslash, hlast, hdots]

lemma located_rooted {names : List Text} (hnames : EntryNames names) : located (rooted names) = rooted names := by
  rw [located_eq, normalNames_rooted hnames]

lemma located_located (p : Text) : located (located p) = located p := by
  rw [located_eq p, located_rooted (entryNames_normalNames p)]

lemma located_directory {p : Text} (h : located p = p) : located (directory p) = directory p := by
  have hnames := entryNames_normalNames p
  rw [← h, located_eq p, directory_rooted hnames, located_rooted fun n hn => hnames n (mem_of_mem_dropLast hn)]

/-- A name with an extension is its base name, a dot and the extension. -/
lemma fileName_eq (h : extension m ≠ []) :
    fileName m = baseName m ++ '.' :: extension m ∧ ∃ c ∈ baseName m, c ≠ '.' := by
  rw [extension, splitExtension] at h
  rw [baseName, extension, splitExtension, splitExtension, fileName_eq_self (notMem_fileName m)]
  cases hlast : findLast? ['.'] (fileName m) with
  | none => simp [hlast] at h
  | some i =>
    obtain ⟨⟨rest, hrest⟩, -⟩ := (findLast?_eq_some_iff (by simp)).mp hlast
    simp only [hlast] at h ⊢
    split at h
    · simp at h
    next hdots =>
      rw [if_neg hdots, if_neg hdots, Nat.sub_self, Nat.zero_add, ← hrest]
      refine ⟨?_, by simpa using hdots⟩
      rw [singleton_append, drop_succ_cons, drop_zero, ← singleton_append, hrest, take_append_drop]

end Path

namespace FileTree

variable {t : FileTree} {directory m n q : Text} {names path : List Text}

/-- Names of directories that a search enters. -/
def Shown (names : List Text) : Prop := EntryNames names ∧ ∀ n ∈ names, Pattern.isHidden n = false

/-- The directories that a search below one enters, itself among them. -/
def entered (t : FileTree) (directory : Text) : List Text :=
  match t.keyOf directory with
  | .error _ => []
  | .ok key =>
    if t.hasDirectory key then (t.directoriesBelow (!Pattern.isHidden ·) t.depth key directory).map (·.2) else []

lemma fittingAll_plain (hn : IsPlainName n) (deep : Bool) (directory : Text) :
    t.fittingAll deep [n] directory = if t.contains (join directory n) then [join directory n] else [] := by
  simp [fittingAll, fitting, hn.plain]

lemma fitting_stars (t : FileTree) (directory : Text) : t.fitting true false ['*', '*'] directory = t.entered directory := by
  simp only [fitting, entered, show Pattern.isPattern ['*', '*'] = true from rfl]
  cases t.keyOf directory with
  | error e => rfl
  | ok key => by_cases h : t.hasDirectory key <;> simp [h]

/-- Where a plain name is searched. -/
def searched (t : FileTree) (directory : Text) (recursive : Bool) : List Text :=
  if recursive then t.entered directory else [directory]

lemma mem_glob (hn : IsPlainName n) (recursive : Bool) :
    m ∈ t.glob directory n recursive ↔ ∃ q ∈ t.searched directory recursive, m = join q n ∧ t.contains m := by
  have hmem : ∀ q, m ∈ (if t.contains (join q n) then [join q n] else []) ↔ m = join q n ∧ t.contains m := by
    intro q
    split
    next h => simpa using fun heq => heq ▸ h
    next h => simpa using fun heq => heq ▸ Bool.eq_false_iff.mpr h
  have hsegments : (splitAtChar '/' n).dropLast.filter (!·.isEmpty) ++ [(splitAtChar '/' n).getLastD []] = [n] := by
    rw [splitAtChar_of_notMem hn.notMem]
    rfl
  rw [glob, searched]
  cases recursive with
  | false =>
    simp only [Bool.not_false, Bool.true_and, Bool.false_eq_true, if_false, mem_singleton, exists_eq_left]
    split
    next => exact hmem directory
    next => rw [mem_mergeSort, hsegments, fittingAll_plain hn, hmem]
  | true =>
    simp only [Bool.not_true, Bool.false_and, Bool.false_eq_true, if_false, if_true, mem_mergeSort, hsegments]
    rw [fittingAll, isEmpty_cons, fitting_stars, mem_flatMap]
    simp only [fittingAll_plain hn, hmem]

lemma file_of_isFile (hpath : EntryNames path) (h : t.isFile (rooted path)) :
    t.keyOf (rooted path) = .ok path ∧ (t.file? path).isSome := by
  rw [isFile, fileAt?] at h
  cases hkey : t.keyOf (rooted path) with
  | error e => simp [hkey] at h
  | ok key =>
    have hself : t.keyOf (rooted path) = .ok path :=
      keyOf_rooted (show EntryNames (path ++ []) by simpa using hpath) (by rwa [append_nil])
    rw [hkey] at hself
    cases hself
    simp only [hkey] at h
    exact ⟨rfl, h⟩

lemma exists_of_mem_entered (ht : t.IsTree) (h : q ∈ t.entered directory) :
    ∃ names, Shown names ∧ q = descend directory names := by
  rw [entered] at h
  cases hkey : t.keyOf directory with
  | error e => simp [hkey] at h
  | ok key =>
    simp only [hkey, directoriesBelow_eq] at h
    split at h
    · simp only [map_map, mem_map, Function.comp_apply, ht.mem_ways] at h
      obtain ⟨names, ⟨-, hshown, hin⟩, rfl⟩ := h
      refine ⟨names, ⟨fun n hn => ?_, by simpa using hshown⟩, rfl⟩
      have hdirectory := hin.resolve_left (ne_nil_of_mem hn)
      exact ht.names _ (mem_append_left _ hdirectory) n (mem_append_right key hn)
    · cases h

/-- A search comes to the directory of every file that no hidden name leads to. -/
lemma mem_entered_of_isFile (ht : t.IsTree) (hnames : Shown names)
    (hall : EntryNames (path ++ (names ++ [n]))) (hfile : t.isFile (rooted (path ++ (names ++ [n])))) :
    descend (rooted path) names ∈ t.entered (rooted path) := by
  obtain ⟨hkey, hfile⟩ := file_of_isFile hall hfile
  have htop : t.hasDirectory path := by
    have hparent := ht.parents _ (mem_append_right _ (isSome_file?.mp hfile))
    rw [← append_assoc, dropLast_concat, hasDirectory_iff, append_eq_nil_iff] at hparent
    rw [hasDirectory_iff, or_iff_not_imp_left]
    intro hne
    exact ht.mem_directories_of_append names hne (hparent.resolve_left fun h => hne h.1)
  rw [entered, keyOf_rooted hall hkey]
  simp only [htop, if_true, directoriesBelow_eq, map_map, mem_map, Function.comp_apply]
  refine ⟨names, (Scanner.mem_ways_of_file ht hfile _).mpr ?_, rfl⟩
  simpa using hnames.2

end FileTree

namespace Scanner

variable {s : Scanner} {t : FileTree} {path m : Text} {names : List Text}

lemma mem_search (hnames : ∀ n ∈ names, IsPlainName n) (top : Text) (recursive : Bool) :
    m ∈ s.search t top names recursive ↔
      ∃ n ∈ names, ∃ q ∈ t.searched top recursive, m = join q n ∧ t.isFile m ∧ s.isProjectFile m := by
  simp only [search, mem_flatMap, mem_filter, Bool.and_eq_true]
  refine exists_congr fun n => and_congr_right fun hn => ?_
  rw [FileTree.mem_glob (hnames n hn)]
  constructor
  · rintro ⟨⟨q, hq, heq, -⟩, hfile⟩
    exact ⟨q, hq, heq, hfile⟩
  · rintro ⟨q, hq, heq, hfile⟩
    exact ⟨⟨q, hq, heq, Bool.or_eq_true_iff.mpr (.inl hfile.1)⟩, hfile⟩

lemma closest_eq_none_iff {near : Text} {l : List Text} : closest near l = none ↔ l = [] := by
  cases l with
  | nil => exact iff_of_true rfl rfl
  | cons c rest =>
    rw [closest]
    cases closest near rest with
    | none => simp
    | some d => dsimp only; split <;> simp

lemma mem_of_closest {near : Text} {l : List Text} (h : closest near l = some m) : m ∈ l := by
  induction l generalizing m with
  | nil => cases h
  | cons c rest ih =>
    rw [closest] at h
    cases hrest : closest near rest with
    | none =>
      rw [hrest] at h
      exact mem_cons.mpr (.inl (Option.some.inj h).symm)
    | some d =>
      simp only [hrest] at h
      split at h
      · exact mem_cons_of_mem c (Option.some.inj h ▸ ih hrest)
      · exact mem_cons.mpr (.inl (Option.some.inj h).symm)

lemma findPartner_eq {others : List Text} (hothers : s.otherExtensions path = .ok (some others)) :
    let names := others.map (baseName path ++ '.' :: ·)
    s.findPartner t path = .ok ((s.search t (directory path) names false).head?.or
      ((closest (directory path) (s.search t (directory (directory path)) names true)).or
        (closest (directory path) (s.search t s.root names true)))) := by
  rw [findPartner, hothers]
  simp only [bind, Except.bind]
  split
  · next m hbeside => rw [hbeside]; rfl
  · next hbeside =>
    rw [hbeside]
    split <;> next hclosest => rw [hclosest]; rfl

/-! ## Matching files -/

variable {others headers sources : List Text}

lemma otherExtensions_eq (hheaders : s.settings.headerExtensions = .arr (headers.map .str))
    (hsources : s.settings.sourceExtensions = .arr (sources.map .str))
    (hplain : ∀ e ∈ headers ++ sources, IsPlainExtension e) (hkind : toLower (extension path) ∈ headers ++ sources) :
    s.otherExtensions path = .ok (some (if toLower (extension path) ∈ headers then sources else headers)) := by
  have hlower := (hplain _ hkind).lower
  have hlists : ∀ l : List Text, (Json.arr (l.map .str)).lists (toLower (extension path)) =
      .ok (decide (toLower (extension path) ∈ l)) := by
    intro l
    refine congrArg Except.ok ?_
    rw [any_map, Bool.eq_iff_iff, any_eq_true, decide_eq_true_eq]
    simp [Json.str?]
  have htexts : ∀ l : List Text, (Json.arr (l.map .str)).elements >>= (·.mapM Json.textToJoin) = .ok l :=
    fun l => textToJoin_texts l
  rw [otherExtensions, Settings.isHeaderExtension, Settings.isSourceExtension, hlower, hheaders, hsources, hlists, hlists]
  by_cases hheader : toLower (extension path) ∈ headers
  · simp only [hheader, decide_true, if_true]
    exact congrArg (Except.map some) (htexts sources)
  · have hsource := (mem_append.mp hkind).resolve_left hheader
    simp only [hheader, hsource, decide_true, decide_false, if_false]
    exact congrArg (Except.map some) (htexts headers)

/-- A file has the base name of another one and one of the given extensions. -/
def Matches (path : Text) (others : List Text) (m : Text) : Prop :=
  baseName m = baseName path ∧ extension m ∈ others

/-- The search from a file gets to another one: it is in the same directory, or no hidden directory is on the way to it
from the directory above or from the root. -/
def Reaches (s : Scanner) (t : FileTree) (path m : Text) : Prop :=
  t.isFile m ∧ (directory m = directory path ∨ ∃ top ∈ [directory (directory path), s.root],
    ∃ names, FileTree.Shown names ∧ directory m = descend top names)

variable {extensions segments : List Text} {e top : Text}

lemma isPlainName_append (he : IsPlainExtension e) (hextension : extension path ≠ [])
    (hbase : Pattern.isPattern (baseName path) = false) : IsPlainName (baseName path ++ '.' :: e) := by
  obtain ⟨hname, c, hc, -⟩ := fileName_eq hextension
  have hslash := notMem_fileName path
  rw [hname, mem_append, not_or] at hslash
  have hlength := length_pos_of_mem hc
  have hlong : ∀ l : Text, l.length ≤ 2 → baseName path ++ '.' :: e ≠ l := by
    rintro _ hl rfl
    have := length_pos_iff.mpr he.ne_nil
    rw [length_append, length_cons] at hl
    omega
  have hplain := he.plain
  rw [Pattern.isPattern] at hbase hplain
  refine ⟨⟨hlong _ (by simp), ?_, hlong _ (by simp), hlong _ (by simp)⟩, ?_⟩
  · simp [hslash.1, he.notMem_slash]
  · rw [Pattern.isPattern, any_append, any_cons, hbase, hplain]
    rfl

lemma matches_join (he : IsPlainExtension e) (hmem : e ∈ others) (hextension : extension path ≠ [])
    (hn : IsEntryName (baseName path ++ '.' :: e)) (q : Text) :
    Matches path others (join q (baseName path ++ '.' :: e)) := by
  have hsplit := splitExtension_eq (fileName_eq hextension).2 he.notMem_dot hn.notMem
  rw [Matches, baseName, fileName_join hn, extension, extension_join hn, hsplit]
  exact ⟨rfl, hmem⟩

section

variable (ht : t.IsTree) (hroot : located s.root = s.root)
include ht hroot

lemma exists_of_mem_listedPaths (h : m ∈ s.listedPaths t extensions) :
    ∃ names n, EntryNames (names ++ [n]) ∧ m = rooted (names ++ [n]) ∧ s.isProjectFile m := by
  rw [located_eq] at hroot
  rw [listedPaths] at h
  split at h
  · cases h
  · obtain ⟨names, hnames, rfl⟩ := mem_map.mp h
    obtain ⟨hne, hfile, -, hproject⟩ := (mem_listed ht).mp hnames
    have hall := names_of_file ht hfile
    obtain ⟨names, n, rfl⟩ := (eq_nil_or_concat' names).resolve_left hne
    refine ⟨normalNames s.root ++ names, n, ?_, ?_, hproject⟩
    · rw [append_assoc]
      exact forall_mem_append.mpr ⟨entryNames_normalNames _, hall⟩
    · rw [append_assoc, ← descend_rooted (entryNames_normalNames _) hall, hroot]

variable (hdirectory : t.isFile s.root = false)
include hdirectory

lemma mem_listedPaths (hsegments : EntryNames segments) (hfile : t.isFile (rooted segments))
    (hproject : s.isProjectFile (rooted segments)) (hextension : hasExtension extensions (rooted segments)) :
    rooted segments ∈ s.listedPaths t extensions := by
  rw [located_eq] at hroot
  have hbelow : normalNames s.root <+: segments := by
    have hparts := hproject
    rw [isProjectFile, partsBelow?, parts_located, parts_located, normalNames_rooted hsegments] at hparts
    by_contra hnot
    simp [hnot] at hparts
  obtain ⟨names, rfl⟩ := hbelow
  have hpath : descend s.root names = rooted (normalNames s.root ++ names) := by
    rw [← hroot, normalNames_rooted (entryNames_normalNames _)]
    exact descend_rooted (entryNames_normalNames _) fun n hn => hsegments n (mem_append_right _ hn)
  obtain ⟨hkey, hsome⟩ := FileTree.file_of_isFile hsegments hfile
  have hrootKey : t.keyOf s.root = .ok (normalNames s.root) := by
    rw [← hroot, normalNames_rooted (entryNames_normalNames _)]
    exact FileTree.keyOf_rooted hsegments hkey
  simp only [listedPaths, hrootKey, mem_map]
  refine ⟨names, (mem_listed ht).mpr ⟨?_, hsome, by rwa [hpath], by rwa [hpath]⟩, hpath⟩
  rintro rfl
  rw [append_nil, hroot, hdirectory] at hfile
  cases hfile

variable (hplain : ∀ e ∈ others, IsPlainExtension e) (hothers : others ⊆ extensions) (hextension : extension path ≠ [])
  (hbase : Pattern.isPattern (baseName path) = false)
include hplain hothers hextension hbase

/-- What a search below a directory finds are the listed files that match and that no hidden directory leads to. -/
lemma mem_search_iff (htop : located top = top) (recursive : Bool) :
    m ∈ s.search t top (others.map (baseName path ++ '.' :: ·)) recursive ↔
      m ∈ s.listedPaths t extensions ∧ Matches path others m ∧ t.isFile m ∧
        ∃ names, (recursive = false → names = []) ∧ FileTree.Shown names ∧ directory m = descend top names := by
  have hnames : ∀ n ∈ others.map (baseName path ++ '.' :: ·), IsPlainName n :=
    forall_mem_map.mpr fun e he => isPlainName_append (hplain e he) hextension hbase
  have hsegments := entryNames_normalNames top
  rw [located_eq] at htop
  rw [mem_search hnames]
  constructor
  · rintro ⟨n, hn, q, hq, rfl, hfile, hproject⟩
    obtain ⟨names, hrecursive, hshown, rfl⟩ : ∃ names, (recursive = false → names = []) ∧ FileTree.Shown names ∧
        q = descend top names := by
      cases recursive with
      | false => exact ⟨[], fun _ => rfl, by simp [FileTree.Shown, EntryNames], mem_singleton.mp hq⟩
      | true =>
        obtain ⟨names, hshown, rfl⟩ := FileTree.exists_of_mem_entered ht hq
        exact ⟨names, by simp, hshown, rfl⟩
    have hentry := (hnames n hn).toIsEntryName
    obtain ⟨e, he, rfl⟩ := mem_map.mp hn
    have hall : EntryNames (normalNames top ++ names) := forall_mem_append.mpr ⟨hsegments, hshown.1⟩
    have hlast := forall_mem_append.mpr ⟨hall, forall_mem_singleton.mpr hentry⟩
    have hway : descend top names = rooted (normalNames top ++ names) := by
      rw [← htop, descend_rooted hsegments hshown.1, normalNames_rooted hsegments]
    have hmatches := matches_join (hplain e he) he hextension hentry (descend top names)
    have hlisted : hasExtension extensions (join (descend top names) (baseName path ++ '.' :: e)) := by
      rw [hasExtension, extension_join hentry,
        splitExtension_eq (fileName_eq hextension).2 (hplain e he).notMem_dot hentry.notMem, (hplain e he).lower_dot]
      exact any_eq_true.mpr ⟨e, hothers he, beq_self_eq_true _⟩
    refine ⟨?_, hmatches, hfile, names, hrecursive, hshown, ?_⟩
    · rw [hway, join_rooted hall hentry] at hfile hproject hlisted ⊢
      exact mem_listedPaths ht hroot hdirectory hlast hfile hproject hlisted
    · rw [hway, join_rooted hall hentry, directory_rooted hlast, dropLast_concat]
  · rintro ⟨hm, ⟨hname, hkind⟩, hfile, names, hrecursive, hshown, hway⟩
    obtain ⟨before, n, hall, rfl, hproject⟩ := exists_of_mem_listedPaths ht hroot hm
    rw [directory_rooted hall, dropLast_concat] at hway
    obtain ⟨hbefore, hn⟩ := forall_mem_append.mp hall
    have hn := forall_mem_singleton.mp hn
    have hjoin := join_rooted hbefore hn
    have hlast : n = baseName path ++ '.' :: extension (rooted (before ++ [n])) := by
      rw [← hname, ← (fileName_eq (hplain _ hkind).ne_nil).1, ← hjoin, fileName_join hn]
    refine ⟨n, mem_map.mpr ⟨_, hkind, hlast.symm⟩, rooted before, ?_, hjoin.symm, hfile, hproject⟩
    cases recursive with
    | false =>
      rw [hway, hrecursive rfl]
      exact mem_singleton_self _
    | true =>
      have hsame : before = normalNames top ++ names := by
        rw [← normalNames_rooted hbefore, hway, normalNames_descend hshown.1]
      rw [hsame, append_assoc] at hall hfile
      rw [hway, FileTree.searched, if_pos rfl, ← htop]
      exact FileTree.mem_entered_of_isFile ht hshown hall hfile

/-- What the three parts of a search find are the listed files that match and are reached. -/
lemma mem_searches (hpath : located path = path) (m : Text) :
    let names := others.map (baseName path ++ '.' :: ·)
    (m ∈ s.search t (directory path) names false ∨ m ∈ s.search t (directory (directory path)) names true ∨
      m ∈ s.search t s.root names true) ↔
      m ∈ s.listedPaths t extensions ∧ Matches path others m ∧ s.Reaches t path m := by
  intro names
  have hparent := located_directory hpath
  have hfound := fun top => @mem_search_iff s t path m others extensions top ht hroot hdirectory hplain hothers hextension hbase
  rw [hfound _ hparent, hfound _ (located_directory hparent), hfound _ hroot, Reaches]
  simp only [← and_or_left, mem_cons, not_mem_nil, or_false, exists_eq_or_imp, exists_eq_left, forall_const,
    false_imp_iff, true_and, Bool.true_eq_false]
  refine and_congr_right fun _ => and_congr_right fun _ => and_congr_right fun _ => or_congr_left ?_
  simp [descend, FileTree.Shown, EntryNames]

end

/-- **The partner of a file is a listed file of the same base name and of the other kind; if there is none, no such file
is reached.** The base name has no wild cards, and the extensions are written as they are configured. -/
theorem freshAnswer_sound_and_complete (s : Scanner) {t : FileTree} (ht : t.IsTree) (hroot : located s.root = s.root)
    (hdirectory : t.isFile s.root = false) {headers sources : List Text}
    (hheaders : s.settings.headerExtensions = .arr (headers.map .str))
    (hsources : s.settings.sourceExtensions = .arr (sources.map .str))
    (hplain : ∀ e ∈ headers ++ sources, IsPlainExtension e) {path : Text}
    (hkind : toLower (extension (located path)) ∈ headers ++ sources)
    (hbase : Pattern.isPattern (baseName (located path)) = false) :
    let others := if toLower (extension (located path)) ∈ headers then sources else headers
    ∃ found l, s.freshAnswer t path = .ok found ∧ s.files t = .ok l ∧
      (∀ m, found = some m → m ∈ l ∧ Matches (located path) others m) ∧
      (found = none ↔ ∀ m ∈ l, Matches (located path) others m → ¬ s.Reaches t (located path) m) := by
  intro others
  have hsub : others ⊆ headers ++ sources := by
    by_cases hheader : toLower (extension (located path)) ∈ headers
    · simp [others, hheader]
    · simp [others, hheader]
  have hextension : extension (located path) ≠ [] := fun hnil => (hplain _ hkind).ne_nil (by rw [hnil]; rfl)
  have hfound := mem_searches ht hroot hdirectory (fun e he => hplain e (hsub he)) hsub hextension hbase
    (located_located path)
  refine ⟨_, _, (freshAnswer_eq s t path).trans (findPartner_eq (otherExtensions_eq hheaders hsources hplain hkind)),
    by rw [files_eq, extensionTexts_of_texts hheaders hsources]; rfl, fun m hm => ?_, ?_⟩
  · have hm := (hfound m).mp ?_
    · exact ⟨hm.1, hm.2.1⟩
    · rcases Option.or_eq_some_iff.mp hm with hm | ⟨-, hm⟩
      · exact .inl (mem_of_mem_head? hm)
      · rcases Option.or_eq_some_iff.mp hm with hm | ⟨-, hm⟩
        · exact .inr (.inl (mem_of_closest hm))
        · exact .inr (.inr (mem_of_closest hm))
  · rw [Option.or_eq_none_iff, Option.or_eq_none_iff, head?_eq_none_iff, closest_eq_none_iff, closest_eq_none_iff]
    simp only [eq_nil_iff_forall_not_mem, ← forall_and, ← not_or]
    refine forall_congr' fun m => (not_congr (hfound m)).trans ?_
    rw [not_and, not_and]

/-- A header, a source in a hidden directory and one below. -/
def hiddenSource : FileTree :=
  FileTree.ofContents [("/p/a.h", []), ("/p/.git/a.cpp", []), ("/p/q/a.cc", [])] []

theorem freshAnswer_below_header :
    let s : Scanner := ⟨"/p", .standard, []⟩
    ∃ l m, s.files hiddenSource = .ok l ∧ s.freshAnswer hiddenSource "/p/a.h" = .ok (some m) ∧ m ∈ l ∧
      baseName m = "a".toList ∧ extension m ∈ ["c".toList, "cpp".toList, "cc".toList, "cxx".toList, "c++".toList] := by
  intro s
  let headers : List Text := ["h", "hpp", "hh", "hxx", "h++"]
  let sources : List Text := ["c", "cpp", "cc", "cxx", "c++"]
  have hheaders : s.settings.headerExtensions = .arr (headers.map .str) := rfl
  have hsources : s.settings.sourceExtensions = .arr (sources.map .str) := rfl
  have hkind : toLower (extension (located "/p/a.h")) ∈ headers ++ sources := by decide +kernel
  obtain ⟨found, l, hfound, hfiles, hsound, -⟩ := freshAnswer_sound_and_complete s (t := hiddenSource) (by decide +kernel)
    (by decide +kernel) (by decide +kernel) hheaders hsources (by decide +kernel) hkind (by decide +kernel)
  have hanswer : s.freshAnswer hiddenSource "/p/a.h" = .ok (some "/p/q/a.cc") :=
    ok_of_toOption (by decide +kernel)
  have hm := hsound _ (Except.ok.inj (hfound.symm.trans hanswer))
  exact ⟨l, _, hfiles, hanswer, hm.1, hm.2.1, hm.2.2⟩

/-- A file with wild cards in its name is taken for the partner of a file of another name. -/
theorem partner_of_bracketed_name :
    let t : FileTree :=
      { files := [([['p'], "a[1].h"], ⟨[], 0⟩), ([['p'], "a1.cpp"], ⟨[], 0⟩)], directories := [[['p']]] }
    let s : Scanner := ⟨"/p", .standard, []⟩
    s.freshAnswer t "/p/a[1].h" = .ok (some "/p/a1.cpp") ∧
      baseName "/p/a1.cpp" ≠ baseName "/p/a[1].h" := by
  exact ⟨ok_of_toOption (by decide +kernel), by decide +kernel⟩

end Scanner

end CppScaffold
