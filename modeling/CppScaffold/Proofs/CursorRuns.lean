import CppScaffold.Cursor.Source
import CppScaffold.Proofs.FileWrites

/-!
# What a source of cursors remembers

A file that is asked about is parsed anew if its stamp has changed; a file in which a cursor stands is taken as
remembered. So an answer has other ranges exactly if it was looked up in a file that was written since.
-/

namespace CppScaffold

open Text List Path Action CursorRequest ParsedFile

/-! ## Writes -/

namespace FileTree

lemma mem_addDirectories {directories more : List (List Text)} {d : List Text} (h : d ∈ directories) :
    d ∈ addDirectories directories more := by
  induction more generalizing directories with
  | nil => exact h
  | cons e more ih =>
    rw [addDirectories, foldl_cons]
    refine ih ?_
    split
    · exact h
    · exact mem_append_left _ h

variable {t : FileTree} {key : List Text}

/-- A path that leads to a key leads there also if there are more directories. -/
lemma walk_mono {t' : FileTree} (hdir : ∀ key, t.hasDirectory key → t'.hasDirectory key) {path : Text}
    {here segments : List Text} (h : t.walk path here segments = .ok key) : t'.walk path here segments = .ok key := by
  induction segments generalizing here with
  | nil => exact h
  | cons s rest ih =>
    unfold walk at h ⊢
    by_cases hhere : t.hasDirectory here
    · rw [hhere] at h
      rw [hdir here hhere]
      split_ifs at h ⊢ <;> exact ih h
    · simp [hhere] at h

lemma hasDirectory_write (h : t.hasDirectory key) (path : Text) (content : Bytes) :
    (t.write path content).hasDirectory key := by
  unfold hasDirectory at h ⊢
  rw [Bool.or_eq_true, contains_iff_mem] at h ⊢
  exact h.imp_right mem_addDirectories

lemma keyOf_write {q : Text} (h : t.keyOf q = .ok key) (path : Text) (content : Bytes) :
    (t.write path content).keyOf q = .ok key := by
  unfold keyOf at h ⊢
  dsimp only at h ⊢
  split_ifs at h ⊢
  exact walk_mono (fun key hkey => hasDirectory_write hkey path content) h

/-- After a write there is either the new file under a key, or what was there before. -/
lemma file?_write {path : Text} {content : Bytes} {f : StoredFile}
    (h : (t.write path content).file? key = some f) : f.stamp = t.writes + 1 ∨ t.file? key = some f := by
  unfold write file? at h
  dsimp only at h
  rw [isSome_lookup, lookup_entered] at h
  split_ifs at h
  · obtain rfl := Option.some.inj h
    exact Or.inl rfl
  · exact Or.inr h

/-- A file that can be found can be found after a write, as it was or with a new stamp. -/
lemma find_write {q : Text} {f : StoredFile} (h : t.find q = .ok f) (path : Text) (content : Bytes) :
    ∃ f', (t.write path content).find q = .ok f' ∧ (f'.stamp = t.writes + 1 ∨ f' = f) := by
  obtain ⟨hnul, key, hkey, hfile⟩ := find_eq_ok_iff.mp h
  have hkey' := keyOf_write hkey path content
  obtain ⟨f', hfile'⟩ : ∃ f', (t.write path content).file? key = some f' := by
    unfold write file?
    dsimp only
    rw [isSome_lookup, lookup_entered]
    split_ifs
    · exact ⟨_, rfl⟩
    · exact ⟨f, hfile⟩
  refine ⟨f', find_eq_ok_iff.mpr ⟨hnul, key, hkey', hfile'⟩, (file?_write hfile').imp_right fun hold => ?_⟩
  exact Option.some.inj (hold.symm.trans hfile)

/-- No file has a stamp that is still to come. -/
def Stamped (t : FileTree) : Prop := ∀ key f, t.file? key = some f → f.stamp ≤ t.writes

lemma Stamped.write (h : t.Stamped) (path : Text) (content : Bytes) : (t.write path content).Stamped := by
  intro key f hf
  have hwrites : (t.write path content).writes = t.writes + 1 := rfl
  rcases file?_write hf with hnew | hold
  · omega
  · have := h key f hold
    omega

lemma Stamped.makeDirectory (h : t.Stamped) (path : Text) : (t.makeDirectory path).Stamped := h

lemma stamped_ofContents (files : List (Text × Bytes)) (directories : List Text) :
    (ofContents files directories).Stamped := by
  have hdirectories : ∀ {t : FileTree}, t.Stamped → (directories.foldl makeDirectory t).Stamped := by
    intro t ht
    induction directories generalizing t with
    | nil => exact ht
    | cons d directories ih => exact ih (ht.makeDirectory d)
  have hempty : ({} : FileTree).Stamped := by
    intro key f hf
    cases hf
  refine hdirectories ?_
  generalize ({} : FileTree) = t at hempty
  induction files generalizing t with
  | nil => exact hempty
  | cons file files ih => exact ih _ (hempty.write file.1 file.2)

end FileTree

/-! ## Requests -/

namespace CursorRequest

variable {α β : Type} {w : CursorWorld} {s : CursorState}

/-- The parsed file that is remembered under a path, if it has the stamp of the stored one. -/
def remembered? (s : CursorState) (path : Text) (stored : StoredFile) : Option ParsedFile :=
  (s.parsed.lookup path).filter fun f => stored.stamp == f.stamp

def afterParse (s : CursorState) (path : Text) (file : ParsedFile) : CursorState :=
  { s with
    parsed := (path, file) :: s.parsed.filter (·.1 != path)
    parseCount := s.parseCount + 1
    wasCalled := true }

/-- What becomes of a file that is to be parsed: it is missing, remembered, or handed to the parser. -/
lemma execute_parse (given : Text) :
    (parse given).execute w s = match w.files.find (located given) with
    | .error e => (.error e, s)
    | .ok stored =>
      match remembered? s (located given) stored with
      | some f => (.ok f, s)
      | none =>
        match w.trees.lookup (located given) with
        | none => (.error (.unparsable (located given)), { s with wasCalled := true })
        | some tree =>
          let file : ParsedFile := ⟨located given, tree, .ofBytes (located given) stored.content, stored.stamp⟩
          (.ok file, afterParse s (located given) file) := by
  unfold parse
  rw [execute_bind, execute_read]
  dsimp only
  cases w.files.find (located given) with
  | error e =>
    split
    next h => cases h
    · -- a directory is not found out before it is read
      simp [execute_bind]
    next h => rw [execute_bind, execute_throw, Except.error.inj h]
  | ok stored =>
    simp only [execute_bind, execute_pure, execute_get, Option.any_some, remembered?]
    cases (s.parsed.lookup (located given)).filter fun f => stored.stamp == f.stamp with
    | some f => rfl
    | none =>
      cases w.trees.lookup (located given) <;> rfl

lemma execute_locate (c : Cursor) :
    (locate c).execute w s = match c.file with
    | none => (.ok none, s)
    | some name =>
      match s.parsed.lookup (located name) with
      | some f => (.ok (some ⟨Uri.ofPath (located name), f.rangeOf c⟩), s)
      | none => (do
          let f ← parse (located name)
          return some ⟨Uri.ofPath (located name), f.rangeOf c⟩ : CursorRequest (Option Location)).execute w s := by
  unfold locate
  cases c.file with
  | none => rfl
  | some name =>
    rw [execute_bind, execute_get]
    dsimp only
    cases s.parsed.lookup (located name) <;> rfl

end CursorRequest

/-! ## Tables of what files hold -/

/-- The parsed file with the tables of what its file holds. -/
def ParsedFile.refreshed (t : FileTree) (f : ParsedFile) : ParsedFile :=
  match t.find f.path with
  | .ok stored => { f with text := .ofBytes f.path stored.content }
  | .error _ => f

/-- What the source would remember if all tables were those of what the files hold. -/
def CursorState.refreshed (t : FileTree) (s : CursorState) : CursorState :=
  { s with parsed := s.parsed.map fun (q, f) => (q, f.refreshed t) }

lemma ParsedFile.stamp_refreshed (t : FileTree) (f : ParsedFile) : (f.refreshed t).stamp = f.stamp := by
  unfold refreshed
  split <;> rfl

lemma CursorState.lookup_refreshed (t : FileTree) (s : CursorState) (q : Text) :
    (s.refreshed t).parsed.lookup q = (s.parsed.lookup q).map (ParsedFile.refreshed t) := by
  unfold refreshed
  induction s.parsed with
  | nil => rfl
  | cons entry rest ih =>
    obtain ⟨q', f⟩ := entry
    rw [map_cons, lookup_cons, lookup_cons]
    cases q == q'
    · exact ih
    · rfl

/-- A file remembered under a path is there, and the tables are those of its content if it still has its stamp. -/
structure Remembers (t : FileTree) (q : Text) (f : ParsedFile) : Prop where
  path_eq : f.path = q
  stamp_le : f.stamp ≤ t.writes
  text_eq : ∃ stored, t.find q = .ok stored ∧ (stored.stamp = f.stamp → f.text = .ofBytes q stored.content)

namespace Remembers

variable {t : FileTree} {q : Text} {f : ParsedFile}

lemma write (h : Remembers t q f) (path : Text) (content : Bytes) : Remembers (t.write path content) q f := by
  obtain ⟨stored, hfind, htext⟩ := h.text_eq
  obtain ⟨stored', hfind', hnew | rfl⟩ := FileTree.find_write hfind path content
  · -- the new stamp is later than that of any parsed file
    have hle := h.stamp_le
    exact ⟨h.path_eq, Nat.le_succ_of_le hle, stored', hfind', by omega⟩
  · exact ⟨h.path_eq, Nat.le_succ_of_le h.stamp_le, stored', hfind', htext⟩

variable {stored : StoredFile}

lemma refreshed_eq (h : Remembers t q f) (hfind : t.find q = .ok stored) :
    f.refreshed t = { f with text := .ofBytes q stored.content } := by
  unfold refreshed
  rw [h.path_eq, hfind]

lemma refreshed_eq_self (h : Remembers t q f) (hfind : t.find q = .ok stored)
    (hstamp : stored.stamp = f.stamp) : f.refreshed t = f := by
  obtain ⟨stored', hfind', htext⟩ := h.text_eq
  obtain rfl := Except.ok.inj (hfind.symm.trans hfind')
  rw [h.refreshed_eq hfind, ← htext hstamp]

lemma of_stored (hstamped : t.Stamped) (hfind : t.find q = .ok stored) (tree : CursorTree) :
    Remembers t q ⟨q, tree, .ofBytes q stored.content, stored.stamp⟩ := by
  obtain ⟨-, key, hkey, hstored⟩ := FileTree.find_eq_ok_iff.mp hfind
  exact ⟨rfl, hstamped key stored hstored, stored, hfind, fun _ => rfl⟩

end Remembers

/-- What holds of a source after any writes and requests. -/
structure Consistent (w : CursorWorld) (s : CursorState) : Prop where
  stamped : w.files.Stamped
  remembers : ∀ q f, s.parsed.lookup q = some f → Remembers w.files q f

namespace CursorRequest

variable {α β : Type} {w : CursorWorld} {s : CursorState} {k : α → CursorRequest β} {r : CursorRequest α}

/-- The request leaves a consistent source consistent. -/
def Keeps (w : CursorWorld) (r : CursorRequest α) : Prop := ∀ s, Consistent w s → Consistent w (r.execute w s).2

/-- The request answers from the tables of what the files hold: it would answer the same if all tables were
these. -/
def AnswersCurrently (w : CursorWorld) (s : CursorState) (r : CursorRequest α) : Prop :=
  r.execute w (s.refreshed w.files) = ((r.execute w s).1, (r.execute w s).2.refreshed w.files)

/-- The request never answers from other tables. -/
structure Sound (w : CursorWorld) (r : CursorRequest α) : Prop where
  keeps : Keeps w r
  current : ∀ s, Consistent w s → AnswersCurrently w s r

lemma Keeps.bind (hr : Keeps w r) (hk : ∀ a, Keeps w (k a)) : Keeps w (r >>= k) := by
  intro s hs
  have hnext := hr s hs
  rw [execute_bind]
  rcases hrun : r.execute w s with ⟨e | a, s'⟩
  · rwa [hrun] at hnext
  · rw [hrun] at hnext
    exact hk a s' hnext

lemma AnswersCurrently.bind (hr : AnswersCurrently w s r)
    (hk : ∀ a s', r.execute w s = (.ok a, s') → AnswersCurrently w s' (k a)) : AnswersCurrently w s (r >>= k) := by
  unfold AnswersCurrently at hr ⊢
  rw [execute_bind, execute_bind, hr]
  rcases hrun : r.execute w s with ⟨e | a, s'⟩
  · rfl
  · exact hk a s' hrun

lemma Sound.bind (hr : Sound w r) (hk : ∀ a, Sound w (k a)) : Sound w (r >>= k) := by
  refine ⟨hr.keeps.bind fun a => (hk a).keeps, fun s hs => (hr.current s hs).bind fun a s' hrun => ?_⟩
  have hnext := hr.keeps s hs
  rw [hrun] at hnext
  exact (hk a).current s' hnext

lemma sound_pure (a : α) : Sound w (pure a) := ⟨fun _ hs => hs, fun _ _ => rfl⟩

lemma remembered?_refreshed (t : FileTree) (s : CursorState) (path : Text) (stored : StoredFile) :
    remembered? (s.refreshed t) path stored = (remembered? s path stored).map (refreshed t) := by
  rw [remembered?, remembered?, CursorState.lookup_refreshed, Option.filter_map]
  simp only [Function.comp_def, stamp_refreshed]

lemma lookup_afterParse (s : CursorState) (path q : Text) (file : ParsedFile) :
    (afterParse s path file).parsed.lookup q = if q = path then some file else s.parsed.lookup q := by
  unfold afterParse
  rw [lookup_cons, lookup_filter_ne]
  by_cases hq : q = path
  · simp [hq]
  · have hne : (q == path) = false := beq_false_of_ne hq
    rw [hne, if_neg hq, if_neg hq]

lemma afterParse_refreshed (t : FileTree) (s : CursorState) (path : Text) (file : ParsedFile) :
    afterParse (s.refreshed t) path (file.refreshed t) = (afterParse s path file).refreshed t := by
  unfold afterParse CursorState.refreshed
  rw [filter_map]
  rfl

lemma sound_parse (given : Text) : Sound w (parse given) := by
  constructor
  · intro s hs
    rw [execute_parse]
    split
    next => exact hs
    next stored hfind =>
      split
      next => exact hs
      next =>
        split
        next => exact ⟨hs.stamped, hs.remembers⟩
        next tree _ =>
          refine ⟨hs.stamped, fun q f hf => ?_⟩
          rw [lookup_afterParse] at hf
          split_ifs at hf with hq
          · obtain rfl := Option.some.inj hf
            rw [hq]
            exact .of_stored hs.stamped hfind tree
          · exact hs.remembers q f hf
  · intro s hs
    unfold AnswersCurrently
    rw [execute_parse, execute_parse]
    cases hfind : w.files.find (located given) with
    | error e => rfl
    | ok stored =>
      dsimp only
      rw [remembered?_refreshed]
      cases hremembered : remembered? s (located given) stored with
      | some f =>
        -- an equal stamp means an unchanged file
        obtain ⟨hlookup, hstamp⟩ := Option.filter_eq_some_iff.mp hremembered
        have hcurrent := (hs.remembers _ f hlookup).refreshed_eq_self hfind (by simpa using hstamp)
        rw [Option.map_some, hcurrent]
      | none =>
        rw [Option.map_none]
        cases w.trees.lookup (located given) with
        | none => rfl
        | some tree =>
          have hcurrent := (Remembers.of_stored hs.stamped hfind tree).refreshed_eq_self hfind rfl
          rw [← afterParse_refreshed, hcurrent]

lemma sound_partner (path : Text) : Sound w (partner path) :=
  ⟨fun _ hs => ⟨hs.stamped, hs.remembers⟩, fun _ _ => rfl⟩

lemma sound_occurrencesIn (path usr : Text) (definitions : Bool) : Sound w (occurrencesIn path usr definitions) :=
  (sound_parse path).bind fun _ => sound_pure _

lemma sound_symbols (path : Text) : Sound w (symbols path) := (sound_parse path).bind fun _ => sound_pure _

lemma keeps_locate (c : Cursor) : Keeps w (locate c) := by
  intro s hs
  rw [execute_locate]
  cases c.file with
  | none => exact hs
  | some name =>
    dsimp only
    cases s.parsed.lookup (located name) with
    | some f => exact hs
    | none => exact ((sound_parse _).bind fun _ => sound_pure _).keeps s hs

/-- What a parsed file leaves behind: it is remembered with present tables, and no other file is touched. -/
lemma lookup_of_execute_parse {given : Text} {f : ParsedFile} {s' : CursorState} (hs : Consistent w s)
    (h : (parse given).execute w s = (.ok f, s')) :
    f.refreshed w.files = f ∧
      ∀ q, s'.parsed.lookup q = if q = located given then some f else s.parsed.lookup q := by
  rw [execute_parse] at h
  split at h
  next => cases h
  next stored hfind =>
    split at h
    next g hremembered =>
      cases h
      obtain ⟨hlookup, hstamp⟩ := Option.filter_eq_some_iff.mp hremembered
      refine ⟨(hs.remembers _ f hlookup).refreshed_eq_self hfind (by simpa using hstamp), fun q => ?_⟩
      by_cases hq : q = located given
      · rw [if_pos hq, hq, hlookup]
      · rw [if_neg hq]
    next =>
      split at h
      next => cases h
      next tree _ =>
        cases h
        exact ⟨(Remembers.of_stored hs.stamped hfind tree).refreshed_eq_self hfind rfl,
          fun q => lookup_afterParse s _ q _⟩

/-! ## Locations of cursors -/

/-- The file in which a cursor stands, if it is remembered, gives the cursor the range that present tables
give. -/
def Placed (t : FileTree) (s : CursorState) (c : Cursor) : Prop :=
  ∀ name f, c.file = some name → s.parsed.lookup (located name) = some f → f.rangeOf c = (f.refreshed t).rangeOf c

lemma locate_current {c : Cursor} (hs : Consistent w s) (h : Placed w.files s c) :
    AnswersCurrently w s (locate c) := by
  unfold AnswersCurrently
  rw [execute_locate, execute_locate]
  cases hfile : c.file with
  | none => rfl
  | some name =>
    dsimp only
    rw [CursorState.lookup_refreshed]
    cases hlookup : s.parsed.lookup (located name) with
    | some f =>
      rw [Option.map_some]
      dsimp only
      rw [← h name f hfile hlookup]
    | none => exact ((sound_parse _).bind fun _ => sound_pure _).current s hs

/-- A request that locates a cursor and begins its answer with that location. -/
lemma locate_bind_current_iff {k : Option Location → CursorRequest (List Location)} (hk : ∀ l, Sound w (k l))
    (hhead : ∀ l s ls, ((k (some l)).execute w s).1 = .ok ls → ls.head? = some l) (hs : Consistent w s) {c : Cursor}
    {ls : List Location} (hok : ((locate c >>= k).execute w s).1 = .ok ls) :
    ((locate c >>= k).execute w (s.refreshed w.files)).1 = .ok ls ↔ Placed w.files s c := by
  constructor
  · intro hrefreshed name f hfile hlookup
    have hlookup' := CursorState.lookup_refreshed w.files s (located name)
    rw [hlookup] at hlookup'
    rw [execute_bind, execute_locate, hfile] at hok hrefreshed
    dsimp only at hok hrefreshed
    rw [hlookup] at hok
    rw [hlookup'] at hrefreshed
    -- both answers begin with the location of the cursor
    have hsame := (hhead _ _ _ hok).symm.trans (hhead _ _ _ hrefreshed)
    exact (Location.mk.inj (Option.some.inj hsame)).2
  · intro h
    have hcurrent : AnswersCurrently w s (locate c >>= k) := by
      refine (locate_current hs h).bind fun l s' hrun => ?_
      have hnext := keeps_locate c s hs
      rw [hrun] at hnext
      exact (hk l).current s' hnext
    rwa [hcurrent]

end CursorRequest

/-- The definition of what stands at a position, if the file shows it. -/
def ParsedFile.definitionAt? (f : ParsedFile) (p : Position) : Option Cursor :=
  (f.referencedAt? p).bind fun c => c.definition.bind f.cursor?

/-- The first declaration of what stands at a position, if the file shows it and it is no definition. -/
def ParsedFile.declarationAt? (f : ParsedFile) (p : Position) : Option Cursor :=
  (f.referencedAt? p).bind fun c => (c.canonical.bind f.cursor?).filter (!·.isDefinition)

namespace CursorRequest

variable {w : CursorWorld} {s : CursorState}

/-- What is looked for in the partner of a file, besides what is known. -/
def elsewhere (path : Text) (c : Cursor) (own : List Location) (k : Text → CursorRequest (List Location)) :
    CursorRequest (List Location) := do
  match ← partner path with
  | some other => if c.usr.isEmpty then return own else k other
  | none => return own

/-- The declarations in the partner of a file behind those that are known. -/
def declarationsElsewhere (path : Text) (c : Cursor) (own : List Location) : CursorRequest (List Location) :=
  elsewhere path c own fun other => do
    let others ← occurrencesIn other c.usr false
    return others.foldl (fun ls l => if ls.contains l then ls else ls ++ [l]) own

/-- What is done with a parsed file to find definitions. -/
def definitionsFrom (path : Text) (p : Position) (f : ParsedFile) : CursorRequest (List Location) :=
  match f.referencedAt? p with
  | none => pure []
  | some c =>
    match c.definition.bind f.cursor? with
    | some d => locate d >>= fun l => pure l.toList
    | none => elsewhere path c [] (occurrencesIn · c.usr true)

/-- What is done with a parsed file to find declarations. -/
def declarationsFrom (path : Text) (p : Position) (f : ParsedFile) : CursorRequest (List Location) :=
  match f.referencedAt? p with
  | none => pure []
  | some c =>
    match (c.canonical.bind f.cursor?).filter (!·.isDefinition) with
    | some d => (·.toList) <$> locate d >>= declarationsElsewhere path c
    | none => declarationsElsewhere path c []

lemma definitions_eq (path : Text) (p : Position) : definitions path p = parse path >>= definitionsFrom path p := rfl

lemma declarations_eq (path : Text) (p : Position) : declarations path p = parse path >>= declarationsFrom path p := rfl

lemma sound_elsewhere (path : Text) (c : Cursor) (own : List Location) {k : Text → CursorRequest (List Location)}
    (hk : ∀ other, Sound w (k other)) : Sound w (elsewhere path c own k) := by
  refine (sound_partner path).bind fun other => ?_
  cases other with
  | none => exact sound_pure _
  | some other =>
    dsimp only
    split
    · exact sound_pure _
    · exact hk other

lemma sound_declarationsElsewhere (path : Text) (c : Cursor) (own : List Location) :
    Sound w (declarationsElsewhere path c own) :=
  sound_elsewhere path c own fun other => (sound_occurrencesIn other c.usr false).bind fun _ => sound_pure _

lemma head?_foldl_added (others own : List Location) (l : Location) :
    (others.foldl (fun ls l => if ls.contains l then ls else ls ++ [l]) (l :: own)).head? = some l := by
  induction others generalizing own with
  | nil => rfl
  | cons other others ih =>
    rw [foldl_cons]
    split
    · exact ih own
    · exact ih (own ++ [other])

variable {path : Text} {ls : List Location}

lemma head?_declarationsElsewhere {c : Cursor} {l : Location}
    (h : ((declarationsElsewhere path c [l]).execute w s).1 = .ok ls) : ls.head? = some l := by
  obtain ⟨_, h⟩ := exists_run_of_fst h
  obtain ⟨other, _, -, h⟩ := execute_bind_ok.mp h
  cases other with
  | none =>
    cases h
    rfl
  | some other =>
    dsimp only at h
    split at h
    · cases h
      rfl
    · obtain ⟨others, _, -, h⟩ := execute_bind_ok.mp h
      cases h
      exact head?_foldl_added others [] l

/-- A request that locates the given cursor and begins its answer with that location, or needs none. -/
inductive LooksUp (w : CursorWorld) : Option Cursor → CursorRequest (List Location) → Prop where
  | sound {r : CursorRequest (List Location)} (hr : Sound w r) : LooksUp w none r
  | locate (c : Cursor) {k : Option Location → CursorRequest (List Location)} (hk : ∀ l, Sound w (k l))
      (hhead : ∀ l s ls, ((k (some l)).execute w s).1 = .ok ls → ls.head? = some l) :
      LooksUp w (some c) (locate c >>= k)

lemma looksUp_definitionsFrom (path : Text) (p : Position) (f : ParsedFile) :
    LooksUp w (f.definitionAt? p) (definitionsFrom path p f) := by
  unfold definitionsFrom definitionAt?
  cases f.referencedAt? p with
  | none => exact .sound (sound_pure _)
  | some c =>
    rw [Option.bind_some]
    dsimp only
    cases c.definition.bind f.cursor? with
    | none => exact .sound (sound_elsewhere path c [] fun other => sound_occurrencesIn other c.usr true)
    | some d =>
      refine .locate d (fun _ => sound_pure _) fun l s ls h => ?_
      cases h
      rfl

lemma looksUp_declarationsFrom (path : Text) (p : Position) (f : ParsedFile) :
    LooksUp w (f.declarationAt? p) (declarationsFrom path p f) := by
  unfold declarationsFrom declarationAt?
  cases f.referencedAt? p with
  | none => exact .sound (sound_pure _)
  | some c =>
    rw [Option.bind_some]
    dsimp only
    cases (c.canonical.bind f.cursor?).filter (!·.isDefinition) with
    | none => exact .sound (sound_declarationsElsewhere path c [])
    | some d =>
      dsimp only
      rw [bind_map_left]
      exact .locate d (fun _ => sound_declarationsElsewhere path c _) fun _ _ _ => head?_declarationsElsewhere

variable {c? : Option Cursor} {r : CursorRequest (List Location)}

lemma LooksUp.keeps (h : LooksUp w c? r) : Keeps w r := by
  cases h with
  | sound hr => exact hr.keeps
  | locate c hk => exact (keeps_locate c).bind fun l => (hk l).keeps

lemma LooksUp.current_iff (h : LooksUp w c? r) (hs : Consistent w s) (hok : (r.execute w s).1 = .ok ls) :
    (r.execute w (s.refreshed w.files)).1 = .ok ls ↔ ∀ c, c? = some c → Placed w.files s c := by
  cases h with
  | sound hr =>
    rw [hr.current s hs]
    exact iff_of_true hok nofun
  | locate c hk hhead => simp [locate_bind_current_iff hk hhead hs hok]

end CursorRequest

/-! ## Runs -/

/-- A source and its files after any writes and requests. A write may change what the parser reports. -/
inductive Reached : CursorWorld → CursorState → Prop where
  | start {w : CursorWorld} (hstamped : w.files.Stamped) : Reached w {}
  | write {w : CursorWorld} {s : CursorState} (h : Reached w s) (path : Text) (content : Bytes)
      (trees : List (Text × CursorTree)) : Reached { w with files := w.files.write path content, trees } s
  | symbols {w : CursorWorld} {s : CursorState} (h : Reached w s) (path : Text) :
      Reached w ((symbols path).execute w s).2
  | definitions {w : CursorWorld} {s : CursorState} (h : Reached w s) (path : Text) (p : Position) :
      Reached w ((definitions path p).execute w s).2
  | declarations {w : CursorWorld} {s : CursorState} (h : Reached w s) (path : Text) (p : Position) :
      Reached w ((declarations path p).execute w s).2

lemma Consistent.write {w : CursorWorld} {s : CursorState} (h : Consistent w s) (path : Text) (content : Bytes)
    (trees : List (Text × CursorTree)) : Consistent { w with files := w.files.write path content, trees } s :=
  ⟨h.stamped.write path content, fun q f hf => (h.remembers q f hf).write path content⟩

lemma Reached.consistent {w : CursorWorld} {s : CursorState} (h : Reached w s) : Consistent w s := by
  induction h with
  | start hstamped => exact ⟨hstamped, nofun⟩
  | write _ path content trees ih => exact ih.write path content trees
  | symbols _ path ih => exact (sound_symbols path).keeps _ ih
  | definitions _ path p ih =>
    exact (sound_parse path).keeps.bind (fun f => (looksUp_definitionsFrom path p f).keeps) _ ih
  | declarations _ path p ih =>
    exact (sound_parse path).keeps.bind (fun f => (looksUp_declarationsFrom path p f).keeps) _ ih

namespace CursorRequest

variable {w : CursorWorld} {s : CursorState}

/-- A cursor found for a file stands in that file, in one that is not remembered, or in one whose remembered tables
give it its present range. -/
def PlacedCurrently (w : CursorWorld) (s : CursorState) (asked : Text) (c : Cursor) : Prop :=
  ∀ name f stored, c.file = some name → located name ≠ located asked →
    s.parsed.lookup (located name) = some f → w.files.find (located name) = .ok stored →
    f.rangeOf c = ⟨(ParsedText.ofBytes (located name) stored.content).positionAt c.start,
      (ParsedText.ofBytes (located name) stored.content).positionAt c.stop⟩

lemma placed_iff (hs : Consistent w s) {asked : Text} {f : ParsedFile} {s' : CursorState}
    (h : (parse asked).execute w s = (.ok f, s')) (c : Cursor) :
    Placed w.files s' c ↔ PlacedCurrently w s asked c := by
  obtain ⟨hcurrent, hlookup⟩ := lookup_of_execute_parse hs h
  constructor
  · intro hplaced name g stored hfile hne hg hfind
    have hsame := hplaced name g hfile (by rw [hlookup, if_neg hne, hg])
    rw [hsame, (hs.remembers _ g hg).refreshed_eq hfind]
    rfl
  · intro hplaced name g hfile hg
    rw [hlookup] at hg
    split_ifs at hg with hasked
    · obtain rfl := Option.some.inj hg
      rw [hcurrent]
    · obtain ⟨stored, hfind, -⟩ := (hs.remembers _ g hg).text_eq
      rw [hplaced name g stored hfile hasked hg hfind, (hs.remembers _ g hg).refreshed_eq hfind]
      rfl

/-- A parsed file answers by present tables exactly if these place the cursors it looks up. -/
lemma parse_bind_current_iff {asked : Text} {k : ParsedFile → CursorRequest (List Location)}
    {cursor? : ParsedFile → Option Cursor} (hk : ∀ f, LooksUp w (cursor? f) (k f)) (hs : Consistent w s)
    {ls : List Location} (hok : ((parse asked >>= k).execute w s).1 = .ok ls) :
    ((parse asked >>= k).execute w (s.refreshed w.files)).1 = .ok ls ↔
      ∀ f s' d, (parse asked).execute w s = (.ok f, s') → cursor? f = some d → PlacedCurrently w s asked d := by
  rw [execute_bind] at hok ⊢
  rw [(sound_parse asked).current s hs]
  have hnext := (sound_parse (w := w) asked).keeps s hs
  rcases hparse : (parse asked).execute w s with ⟨e | f, s'⟩
  · rw [hparse] at hok
    cases hok
  · rw [hparse] at hok hnext
    rw [(hk f).current_iff hnext hok]
    constructor
    · rintro h f' s'' d ⟨⟩ hd
      exact (placed_iff hs hparse d).mp (h d hd)
    · intro h d hd
      exact (placed_iff hs hparse d).mpr (h f s' d rfl hd)

/-- **A remembered file answers for what it held when it was parsed.** Symbols are answered as if every remembered file
were brought up to date. Definitions and declarations are so exactly if the cursor is not looked up in another
remembered file that gives it a former range. -/
theorem answers_current_iff (h : Reached w s) (asked : Text) (p : Position) :
    (∀ q f, s.parsed.lookup q = some f → ∃ stored, w.files.find q = .ok stored ∧
      (s.refreshed w.files).parsed.lookup q = some { f with text := .ofBytes q stored.content }) ∧
    ((symbols asked).execute w (s.refreshed w.files)).1 = ((symbols asked).execute w s).1 ∧
    (∀ ls, ((definitions asked p).execute w s).1 = .ok ls →
      (((definitions asked p).execute w (s.refreshed w.files)).1 = .ok ls ↔
        ∀ f s' d, (parse asked).execute w s = (.ok f, s') → f.definitionAt? p = some d → PlacedCurrently w s asked d)) ∧
    (∀ ls, ((declarations asked p).execute w s).1 = .ok ls →
      (((declarations asked p).execute w (s.refreshed w.files)).1 = .ok ls ↔
        ∀ f s' d, (parse asked).execute w s = (.ok f, s') → f.declarationAt? p = some d → PlacedCurrently w s asked d)) ∧
    ((∀ q f stored, s.parsed.lookup q = some f → w.files.find q = .ok stored → stored.stamp = f.stamp) →
      ∀ d, PlacedCurrently w s asked d) := by
  have hs := h.consistent
  refine ⟨fun q f hf => ?_, ?_, fun ls hok => ?_, fun ls hok => ?_, fun hstamps d => ?_⟩
  · obtain ⟨stored, hfind, -⟩ := (hs.remembers q f hf).text_eq
    refine ⟨stored, hfind, ?_⟩
    rw [CursorState.lookup_refreshed, hf, Option.map_some, (hs.remembers q f hf).refreshed_eq hfind]
  · rw [(sound_symbols asked).current s hs]
  · rw [definitions_eq] at hok ⊢
    exact parse_bind_current_iff (looksUp_definitionsFrom asked p) hs hok
  · rw [declarations_eq] at hok ⊢
    exact parse_bind_current_iff (looksUp_declarationsFrom asked p) hs hok
  · intro name f stored _ _ hf hfind
    have hremembers := hs.remembers _ f hf
    have hsame := hremembers.refreshed_eq_self hfind (hstamps _ f stored hf hfind)
    rw [hremembers.refreshed_eq hfind] at hsame
    rw [← hsame]
    rfl

/-! ## A header that was written since -/

namespace Outdated

/-- A source file with one name, which is defined at the second byte of the header. -/
def callTree : CursorTree :=
  { cursors := [{ kind := "TRANSLATION_UNIT" }, { kind := "CALL_EXPR", definition := some 2 },
      { kind := "FUNCTION_DECL", file := some "/p/a.h", start := 1, stop := 2, isDefinition := true }]
    byOffset := [(0, 1)] }

/-- A project of a header and a source file. -/
def project : CursorWorld :=
  { root := "/p"
    files := .ofContents [("/p/a.h", [120]), ("/p/a.cpp", [121])] []
    trees := [("/p/a.h", ⟨[], []⟩), ("/p/a.cpp", callTree)]
    scanner := ⟨"/p", .standard, []⟩ }

/-- What is remembered after the symbols of the header were asked for. -/
def afterSymbols : CursorState := ((symbols "/p/a.h").execute project {}).2

/-- The project after a line break was put before what the header held. -/
def written : CursorWorld :=
  { project with files := project.files.write "/p/a.h" [10, 120], trees := project.trees }

lemma reached_written : Reached written afterSymbols :=
  .write (.symbols (.start (FileTree.stamped_ofContents _ _)) _) _ _ _

lemma definitions_written :
    ((definitions "/p/a.cpp" ⟨0, 0⟩).execute written afterSymbols).1 =
        .ok [⟨"file:///p/a.h", ⟨⟨0, 1⟩, ⟨0, 1⟩⟩⟩] ∧
      ((definitions "/p/a.cpp" ⟨0, 0⟩).execute written (afterSymbols.refreshed written.files)).1 =
        .ok [⟨"file:///p/a.h", ⟨⟨1, 0⟩, ⟨1, 1⟩⟩⟩] :=
  ⟨ok_of_toOption (by decide +kernel), ok_of_toOption (by decide +kernel)⟩

end Outdated

open Outdated

/-- The definition in the header is not placed by what the header holds, whose symbols are. -/
theorem answers_current_iff_written : Reached written afterSymbols ∧
    ((symbols "/p/a.h").execute written (afterSymbols.refreshed written.files)).1 =
      ((symbols "/p/a.h").execute written afterSymbols).1 ∧
    ¬ ∀ f s' d, (parse "/p/a.cpp").execute written afterSymbols = (.ok f, s') → f.definitionAt? ⟨0, 0⟩ = some d →
      PlacedCurrently written afterSymbols "/p/a.cpp" d := by
  obtain ⟨-, hsymbols, -⟩ := answers_current_iff reached_written "/p/a.h" ⟨0, 0⟩
  obtain ⟨-, -, hdefinitions, -⟩ := answers_current_iff reached_written "/p/a.cpp" ⟨0, 0⟩
  refine ⟨reached_written, hsymbols, fun hplaced => ?_⟩
  have hsame := (hdefinitions _ definitions_written.1).mpr hplaced
  exact absurd (Except.ok.inj hsame) (by decide)

/-- A definition is reported with a range that its file no longer has. -/
theorem definitions_from_outdated_header : ∃ w s asked p ls, Reached w s ∧
    ((definitions asked p).execute w s).1 = .ok ls ∧
      ((definitions asked p).execute w (s.refreshed w.files)).1 ≠ .ok ls := by
  refine ⟨written, afterSymbols, "/p/a.cpp", ⟨0, 0⟩, [⟨"file:///p/a.h", ⟨⟨0, 1⟩, ⟨0, 1⟩⟩⟩],
    reached_written, definitions_written.1, fun hsame => ?_⟩
  exact absurd (Except.ok.inj hsame) (by decide)

end CursorRequest

end CppScaffold
