import CppScaffold.Proofs.Actions
import CppScaffold.Proofs.Edits
import CppScaffold.Proofs.Encoding
import CppScaffold.Tools.Server

/-!
# What applying an edit does to files

Edits put new texts between the pieces into which the bytes of a file are cut. The bytes around them stay exactly if
each belongs to the encoding of a character.
-/

namespace CppScaffold

open Text List Uri

namespace Utf8

open TextDocument

/-! ## Bytes around edits -/

/-- The parts from the given one on, with the encoded new texts in the place of those that are edited. -/
def spliceParts (parts : List Bytes) : Nat → List PlacedEdit → List Bytes
  | i, [] => parts.drop i
  | i, e :: rest => (parts.drop i).take (e.start - i) ++ encode e.newText :: spliceParts parts e.stop rest

/-- No edit replaces the character at the given place. -/
def Untouched (edits : List PlacedEdit) (k : Nat) : Prop := ∀ e ∈ edits, k < e.start ∨ e.stop ≤ k

lemma encode_append (t u : Text) : encode (t ++ u) = encode t ++ encode u :=
  flatMap_append

lemma encode_eq_flatten (t : Text) : encode t = (t.map encodeChar).flatten :=
  flatMap_def

lemma encode_substitute (t : Text) (i : Nat) (l : List PlacedEdit) :
    encode (substitute t i l) = (spliceParts (t.map encodeChar) i l).flatten := by
  induction l generalizing i with
  | nil => rw [substitute, spliceParts, encode_eq_flatten, map_drop]
  | cons e rest ih =>
    rw [substitute, spliceParts, encode_append, encode_append, ih, flatten_append, flatten_cons, between,
      encode_eq_flatten, map_take, map_drop, append_assoc]

/-- Two splits of the same bytes agree if no part of the first one is longer than that of the second. -/
lemma eq_of_flatten_eq {ws vs : List Bytes} (h : List.Forall₂ (fun w v => w.length ≤ v.length) ws vs)
    (hflatten : ws.flatten = vs.flatten) : ws = vs := by
  have hlength : ∀ {ws vs : List Bytes}, List.Forall₂ (fun w v => w.length ≤ v.length) ws vs →
      ws.flatten.length ≤ vs.flatten.length := by
    intro ws vs h
    induction h with
    | nil => exact Nat.le_refl _
    | cons hle _ ih =>
      rw [flatten_cons, flatten_cons, length_append, length_append]
      omega
  induction h with
  | nil => rfl
  | @cons w v ws vs hle htail ih =>
    rw [flatten_cons, flatten_cons] at hflatten
    have hsum := congrArg length hflatten
    rw [length_append, length_append] at hsum
    have hrest := hlength htail
    obtain ⟨rfl, hrest⟩ := append_inj hflatten (by omega)
    rw [ih hrest]

lemma forall₂_spliceParts {parts parts' : List Bytes}
    (h : List.Forall₂ (fun w v => w.length ≤ v.length) parts parts') (i : Nat) (l : List PlacedEdit) :
    List.Forall₂ (fun w v => w.length ≤ v.length) (spliceParts parts i l) (spliceParts parts' i l) := by
  induction l generalizing i with
  | nil => exact forall₂_drop i h
  | cons e rest ih =>
    exact rel_append (forall₂_take _ (forall₂_drop i h)) (.cons (Nat.le_refl _) (ih e.stop))

/-- The parts between edits are the same in two lists exactly if the lists agree wherever nothing is edited. -/
lemma spliceParts_eq_iff {parts parts' : List Bytes} (hlength : parts.length = parts'.length) {i : Nat}
    {l : List PlacedEdit} (hin : ∀ e ∈ l, i ≤ e.start ∧ e.start ≤ e.stop ∧ e.stop ≤ parts.length)
    (hl : l.Pairwise fun a b => a.stop ≤ b.start) :
    spliceParts parts i l = spliceParts parts' i l ↔ ∀ k, i ≤ k → Untouched l k → parts[k]? = parts'[k]? := by
  induction l generalizing i with
  | nil =>
    rw [spliceParts, spliceParts, List.ext_getElem?_iff]
    constructor
    · intro h k hk _
      have := h (k - i)
      rwa [getElem?_drop, getElem?_drop, Nat.add_sub_cancel' hk] at this
    · intro h k
      rw [getElem?_drop, getElem?_drop]
      exact h (i + k) (by omega) (by simp [Untouched])
  | cons e rest ih =>
    obtain ⟨hstart, hstop, hend⟩ := hin e (by simp)
    have hafter := pairwise_cons.mp hl
    have hrest := ih (i := e.stop) (fun f hf => ⟨hafter.1 f hf, (hin f (by simp [hf])).2⟩) hafter.2
    have hfront : (parts.drop i).take (e.start - i) = (parts'.drop i).take (e.start - i) ↔
        ∀ k, i ≤ k → k < e.start → parts[k]? = parts'[k]? := by
      rw [List.ext_getElem?_iff]
      constructor
      · intro h k hk hlt
        have := h (k - i)
        rwa [getElem?_take_of_lt (by omega), getElem?_take_of_lt (by omega), getElem?_drop,
          getElem?_drop, Nat.add_sub_cancel' hk] at this
      · intro h k
        by_cases hk : k < e.start - i
        · rw [getElem?_take_of_lt hk, getElem?_take_of_lt hk, getElem?_drop, getElem?_drop]
          exact h (i + k) (by omega) (by omega)
        · rw [getElem?_take_eq_none (by omega), getElem?_take_eq_none (by omega)]
    rw [spliceParts, spliceParts]
    constructor
    · intro h k hk hout
      obtain ⟨hleft, hright⟩ := append_inj h (by simp [hlength])
      rcases hout e (by simp) with hbefore | hbehind
      · exact hfront.mp hleft k hk hbefore
      · exact hrest.mp (List.cons.inj hright).2 k hbehind fun f hf => hout f (by simp [hf])
    · intro h
      have hleft := hfront.mpr fun k hk hlt => h k hk fun f hf => by
        rcases mem_cons.mp hf with rfl | hf
        · exact .inl hlt
        · have := hafter.1 f hf
          omega
      have hright := hrest.mpr fun k hk hout => h k (by omega) fun f hf => by
        rcases mem_cons.mp hf with rfl | hf
        · exact .inr hk
        · exact hout f hf
      rw [hleft, hright]

/-- The bytes around the edits of a document are kept, with the encoded new texts between them. -/
def KeepsBytes (d : TextDocument) (edits : List TextEdit) (before after : Bytes) : Prop :=
  after = (spliceParts (pieces before) 0 (d.orderedEdits edits)).flatten

/-- Each byte of the file around the edits of the document belongs to the encoding of its character. -/
def WellFormedAround (d : TextDocument) (edits : List TextEdit) (data : Bytes) : Prop :=
  ∀ k, Untouched (d.placeEdits edits) k → (pieces data)[k]? = d.text[k]?.map encodeChar

lemma forall₂_length_pieces (data : Bytes) :
    List.Forall₂ (fun w v => w.length ≤ v.length) (pieces data) ((decode data).map encodeChar) :=
  forall₂_map_right_iff.mpr ((forall₂_readAs_pieces data).imp fun _ _ => ReadAs.length_le)

/-- Edits that do not overlap keep the bytes around them exactly if these are well-formed. -/
lemma keepsBytes_iff {d : TextDocument} {data : Bytes} (hdata : d.text = decode data) {edits : List TextEdit}
    (h : d.NonOverlapping edits) :
    KeepsBytes d edits data (encode (d.applyEdits edits).text) ↔ WellFormedAround d edits data := by
  have hin : ∀ e ∈ d.orderedEdits edits, 0 ≤ e.start ∧ e.start ≤ e.stop ∧ e.stop ≤ (pieces data).length := by
    intro e he
    have hmem := (d.orderedEdits_perm edits).mem_iff.mp he
    refine ⟨Nat.zero_le _, h.start_le_stop e hmem, ?_⟩
    rw [length_pieces, ← hdata]
    exact d.stop_le_length hmem
  rw [KeepsBytes, WellFormedAround, d.applyEdits_eq_substitute h, encode_substitute, hdata]
  calc _ ↔ spliceParts (pieces data) 0 (d.orderedEdits edits) =
        spliceParts ((decode data).map encodeChar) 0 (d.orderedEdits edits) :=
        ⟨fun heq => eq_of_flatten_eq (forall₂_spliceParts (forall₂_length_pieces data) 0 _) heq.symm,
          fun heq => by rw [heq]⟩
    _ ↔ ∀ k, 0 ≤ k → Untouched (d.orderedEdits edits) k → (pieces data)[k]? = ((decode data).map encodeChar)[k]? :=
        spliceParts_eq_iff (by rw [length_map, length_pieces]) hin h.pairwise
    _ ↔ _ := by
        simp [Untouched, (d.orderedEdits_perm edits).mem_iff]

lemma wellFormedAround_of_decode? {d : TextDocument} {data : Bytes} (hdata : d.text = decode data)
    (h : (decode? data).isSome) (edits : List TextEdit) : WellFormedAround d edits data := by
  have hencode : encode (decode data) = data := by
    by_contra hne
    simp [decode?, hne] at h
  have hpieces : pieces data = (decode data).map encodeChar := by
    refine eq_of_flatten_eq (forall₂_length_pieces data) ?_
    rw [flatten_pieces, ← encode_eq_flatten, hencode]
  intro k _
  rw [hpieces, getElem?_map, hdata]

end Utf8

/-! ## Writing a file that is there -/

namespace FileTree

variable {t : FileTree} {path : Text}

lemma walk_congr {t' : FileTree} (hdir : t'.directories = t.directories)
    (hfile : ∀ key, (t'.file? key).isSome = (t.file? key).isSome) (path : Text) (here segments : List Text) :
    t'.walk path here segments = t.walk path here segments := by
  have hhas : ∀ key, t'.hasDirectory key = t.hasDirectory key := by
    intro key
    rw [hasDirectory, hasDirectory, hdir]
  induction segments generalizing here with
  | nil => rfl
  | cons s rest ih => simp only [walk, hhas, hfile, ih]

lemma keyOf_congr {t' : FileTree} (hdir : t'.directories = t.directories)
    (hfile : ∀ key, (t'.file? key).isSome = (t.file? key).isSome) (path : Text) : t'.keyOf path = t.keyOf path := by
  simp only [keyOf, walk_congr hdir hfile]

lemma hasDirectory_of_walk {here segments key : List Text} (h : t.walk path here segments = .ok key)
    (hhere : ∀ n < here.length, t.hasDirectory (here.take n)) : ∀ n < key.length, t.hasDirectory (key.take n) := by
  fun_induction walk t path here segments with
  | case1 here =>
    cases h
    exact hhere
  | case2 | case5 => cases h
  | case3 here s rest _ _ ih => exact ih h hhere
  | case4 here s rest _ _ _ ih =>
    refine ih h fun n hn => ?_
    rw [length_dropLast] at hn
    rw [dropLast_eq_take, take_take, Nat.min_eq_left (by omega)]
    exact hhere n (by omega)
  | case6 here s rest hdir _ _ _ ih =>
    refine ih h fun n hn => ?_
    rw [length_append] at hn
    rcases Nat.lt_succ_iff_lt_or_eq.mp hn with hlt | rfl
    · rw [take_append_of_le_length (by omega)]
      exact hhere n hlt
    · rw [take_left]
      simpa using hdir

lemma addDirectories_eq_self {directories more : List (List Text)} (h : ∀ d ∈ more, d ∈ directories) :
    addDirectories directories more = directories := by
  induction more with
  | nil => rfl
  | cons d more ih =>
    rw [addDirectories, foldl_cons, if_pos (by simpa using h d (by simp))]
    exact ih fun d' hd' => h d' (by simp [hd'])

lemma write_of_file {key : List Text} {f : StoredFile} (hkey : t.keyOf path = .ok key) (hfile : t.file? key = some f)
    (content : Bytes) : (t.write path content).directories = t.directories ∧
      ∀ k, (t.write path content).file? k = if k = key then some ⟨content, t.writes + 1⟩ else t.file? k := by
  have hwalk : ∀ n < key.length, t.hasDirectory (key.take n) := by
    rw [keyOf] at hkey
    split at hkey
    · cases hkey
    · exact hasDirectory_of_walk hkey (by simp)
  constructor
  · simp only [write, hkey]
    refine addDirectories_eq_self fun d hd => ?_
    obtain ⟨n, hn, rfl⟩ := mem_map.mp hd
    obtain ⟨m, hm, rfl⟩ : ∃ m, m + 1 < key.length ∧ n = m + 1 := by
      rw [range_eq_range', tail_range', mem_range'_1] at hn
      exact ⟨n - 1, by omega, by omega⟩
    have hdir := hwalk (m + 1) hm
    simpa [hasDirectory, take_eq_nil_iff, length_pos_iff.mp (Nat.zero_lt_of_lt hm)] using hdir
  · intro k
    have hsome : (t.file? key).isSome := by rw [hfile, Option.isSome_some]
    simp only [write, hkey, hsome, if_true]
    rw [file?, lookup_map_replaced]
    by_cases hk : k = key
    · subst hk
      rw [if_pos ⟨rfl, hsome⟩, if_pos rfl]
    · rw [if_neg (fun h => hk h.1), if_neg hk, file?]

lemma find_eq_ok_iff {f : StoredFile} : t.find path = .ok f ↔
    path.contains (Char.ofNat 0) = false ∧ ∃ key, t.keyOf path = .ok key ∧ t.file? key = some f := by
  rw [find]
  cases hnul : path.contains (Char.ofNat 0) with
  | true => simp
  | false =>
    cases hkey : t.keyOf path with
    | error e => simp
    | ok key =>
      have hat : t.fileAt? path = t.file? key := by rw [fileAt?, hkey]
      cases hfile : t.file? key with
      | none => simp [hat, hfile]
      | some g => simp [hat, hfile]

def documentIn (path : Text) (f : StoredFile) : TextDocument :=
  ⟨ofPath (Path.onDisk path), Utf8.decode f.content, 0⟩

/-- The address leads to a file. -/
def Opens (t : FileTree) (uri path : Text) (f : StoredFile) : Prop :=
  toPath uri = .ok path ∧ t.find path = .ok f

/-- Two addresses do not lead to the same file. -/
def Apart (t : FileTree) (uri uri' : Text) : Prop :=
  ∀ path path' key, toPath uri = .ok path → toPath uri' = .ok path' → t.keyOf path = .ok key →
    t.keyOf path' ≠ .ok key

end FileTree

def Backend.ReadsFiles (b : Backend) : Prop :=
  ∀ scanner files uri, (b.source scanner files).read uri = do files.readDocument (← toPath uri)

/-! ## Writing documents -/

namespace Call

open FileTree Utf8 Action

variable {b : Backend} {server : ServerState}

/-- The server after the document at an address was written. -/
def afterWrite (server : ServerState) (s : ProjectSession) (edit : WorkspaceEdit) (uri path : Text) (f : StoredFile) :
    ServerState :=
  { server with
    files := server.files.write path (Utf8.encode (edit.apply (documentIn path f)).text)
    session := some (s.invalidate uri) }

variable {s : ProjectSession} {path : Text} {f : StoredFile}

/-- Writing a document: its file gets the edited text, or there is no file and nothing changes. -/
lemma execute_writeDocument (hreads : b.ReadsFiles) (hsession : server.session = some s)
    (hopen : (s.isClosed && b.refusesWhenClosed) = false) (edit : WorkspaceEdit) (uri : Text) :
    (∃ path f, server.files.Opens uri path f ∧
      (writeDocument edit uri).execute b server = (.ok path, afterWrite server s edit uri path f)) ∨
    ((∀ path f, ¬ server.files.Opens uri path f) ∧ ∃ e, (writeDocument edit uri).execute b server = (.error e, server)) := by
  have hread : (s.source b server.files).read uri = (do server.files.readDocument (← toPath uri)) := by
    rw [ProjectSession.source, hopen]
    exact hreads ..
  simp only [writeDocument, execute_bind, execute_get, hsession, execute_read, execute_lift, hread]
  cases hpath : toPath uri with
  | error e => exact .inr ⟨fun path f h => by simp [Opens, hpath] at h, e, rfl⟩
  | ok path =>
    have hbind : (Except.ok path >>= fun p => server.files.readDocument p) =
        (server.files.find path).map (documentIn path) := by
      change server.files.readDocument path = _
      rw [readDocument, readBytes]
      cases server.files.find path <;> rfl
    simp only [hbind]
    cases hfind : server.files.find path with
    | error e => exact .inr ⟨fun path' f h => by simp_all [Opens], e, rfl⟩
    | ok f => exact .inl ⟨path, f, ⟨hpath, hfind⟩, rfl⟩

/-- Which files there are, and where paths lead, stays as it is. -/
structure SameLayout (t t' : FileTree) : Prop where
  keyOf_eq : ∀ path, t'.keyOf path = t.keyOf path
  isSome_eq : ∀ key, (t'.file? key).isSome = (t.file? key).isSome

lemma SameLayout.trans {t t' t'' : FileTree} (h : SameLayout t t') (h' : SameLayout t' t'') : SameLayout t t'' :=
  ⟨fun path => (h'.keyOf_eq path).trans (h.keyOf_eq path), fun key => (h'.isSome_eq key).trans (h.isSome_eq key)⟩

section

variable {key : List Text} (hkey : server.files.keyOf path = .ok key) (hfile : server.files.file? key = some f)
  (edit : WorkspaceEdit) (uri : Text)
include hkey hfile

lemma file?_afterWrite (k : List Text) : (afterWrite server s edit uri path f).files.file? k =
    if k = key then some ⟨encode (edit.apply (documentIn path f)).text, server.files.writes + 1⟩
    else server.files.file? k :=
  (write_of_file hkey hfile _).2 k

lemma sameLayout_afterWrite : SameLayout server.files (afterWrite server s edit uri path f).files := by
  have hsome : ∀ k, ((afterWrite server s edit uri path f).files.file? k).isSome = (server.files.file? k).isSome := by
    intro k
    rw [file?_afterWrite hkey hfile]
    split
    next h => rw [h, hfile, Option.isSome_some, Option.isSome_some]
    · rfl
  exact ⟨keyOf_congr (write_of_file hkey hfile _).1 hsome, hsome⟩

end

/-- A write leaves the documents in other files as they are. -/
lemma opens_afterWrite {uri uri' path' : Text} {f' : StoredFile}
    (hopens : server.files.Opens uri path f) (edit : WorkspaceEdit) (hapart : server.files.Apart uri uri')
    (hopens' : server.files.Opens uri' path' f') : (afterWrite server s edit uri path f).files.Opens uri' path' f' := by
  obtain ⟨_, key, hkey, hfile⟩ := find_eq_ok_iff.mp hopens.2
  obtain ⟨hnul', key', hkey', hfile'⟩ := find_eq_ok_iff.mp hopens'.2
  have hne : key' ≠ key := fun h => hapart path path' key hopens.1 hopens'.1 hkey (h ▸ hkey')
  refine ⟨hopens'.1, find_eq_ok_iff.mpr ⟨hnul', key', ?_, ?_⟩⟩
  · rw [(sameLayout_afterWrite hkey hfile edit uri).keyOf_eq, hkey']
  · rw [file?_afterWrite hkey hfile, if_neg hne, hfile']

/-- Writing the documents of an edit one after the other keeps the layout and every file to which no address leads; a
file to which one does gets the edited text, unless the run fails before. -/
lemma execute_mapM_writeDocument (hreads : b.ReadsFiles) (hsession : server.session = some s)
    (hopen : (s.isClosed && b.refusesWhenClosed) = false) (edit : WorkspaceEdit) {uris : List Text}
    (hapart : uris.Pairwise server.files.Apart) :
    ∃ r server', (uris.mapM (writeDocument edit)).execute b server = (r, server') ∧
      SameLayout server.files server'.files ∧
      ((∀ uri ∈ uris, ∃ path f, server.files.Opens uri path f) → ∃ written, r = .ok written) ∧
      (∀ key, (∀ uri ∈ uris, ∀ path, toPath uri = .ok path → server.files.keyOf path ≠ .ok key) →
        server'.files.file? key = server.files.file? key) ∧
      ∀ uri ∈ uris, ∀ path f, server.files.Opens uri path f → ∃ f', server'.files.find path = .ok f' ∧
        ((f' = f ∧ ∃ e, r = .error e) ∨ f'.content = encode (edit.apply (documentIn path f)).text) := by
  induction uris generalizing server s with
  | nil => exact ⟨.ok [], server, rfl, ⟨fun _ => rfl, fun _ => rfl⟩, fun _ => ⟨_, rfl⟩, fun _ _ => rfl, by simp⟩
  | cons uri uris ih =>
    obtain ⟨hfirst, hrest⟩ := pairwise_cons.mp hapart
    rw [mapM_cons, execute_bind]
    rcases execute_writeDocument hreads hsession hopen edit uri with ⟨path, f, hopens, hwrite⟩ | ⟨hnone, e, hwrite⟩
    · rw [hwrite]
      obtain ⟨hnul, key, hkey, hfile⟩ := find_eq_ok_iff.mp hopens.2
      have hlayout := sameLayout_afterWrite (s := s) hkey hfile edit uri
      have hstored := file?_afterWrite (s := s) hkey hfile edit uri
      have hstill : ∀ uri' ∈ uris, ∀ path' f', server.files.Opens uri' path' f' →
          (afterWrite server s edit uri path f).files.Opens uri' path' f' :=
        fun uri' huri' path' f' => opens_afterWrite hopens edit (hfirst uri' huri')
      have hapart' : uris.Pairwise (afterWrite server s edit uri path f).files.Apart :=
        hrest.imp fun h p p' k => by simpa only [hlayout.keyOf_eq] using h p p' k
      have hsession' : (afterWrite server s edit uri path f).session = some (s.invalidate uri) := rfl
      obtain ⟨r, server', hrun, hlayout', hall, hkeep, hdocuments⟩ := ih hsession' hopen hapart'
      refine ⟨r.map (path :: ·), server', ?_, hlayout.trans hlayout', fun hreadable => ?_, fun k hk => ?_,
        fun uri' huri' path' f' hopens' => ?_⟩
      · simp only [execute_bind, hrun]
        cases r <;> rfl
      · obtain ⟨written, rfl⟩ := hall fun uri' huri' => by
          obtain ⟨path', f', hopens'⟩ := hreadable uri' (by simp [huri'])
          exact ⟨path', f', hstill uri' huri' path' f' hopens'⟩
        exact ⟨_, rfl⟩
      · rw [hkeep k fun uri' huri' path' hpath' => by
          rw [hlayout.keyOf_eq]
          exact hk uri' (by simp [huri']) path' hpath']
        have hne : k ≠ key := fun h => hk uri (by simp) path hopens.1 (h ▸ hkey)
        rw [hstored, if_neg hne]
      · rcases mem_cons.mp huri' with rfl | huri'
        · obtain rfl : path' = path := Except.ok.inj (hopens'.1.symm.trans hopens.1)
          obtain rfl : f' = f := Except.ok.inj (hopens'.2.symm.trans hopens.2)
          refine ⟨⟨encode (edit.apply (documentIn path' f')).text, server.files.writes + 1⟩,
            find_eq_ok_iff.mpr ⟨hnul, key, ?_, ?_⟩, .inr rfl⟩
          · rw [hlayout'.keyOf_eq, hlayout.keyOf_eq, hkey]
          · rw [hkeep key fun uri'' huri'' path'' hpath'' => by
              rw [hlayout.keyOf_eq]
              exact hfirst uri'' huri'' _ path'' key hopens.1 hpath'' hkey, hstored, if_pos rfl]
        · obtain ⟨f'', hfind, hcases⟩ := hdocuments uri' huri' path' f' (hstill uri' huri' path' f' hopens')
          refine ⟨f'', hfind, hcases.imp_left ?_⟩
          rintro ⟨rfl, e, rfl⟩
          exact ⟨rfl, e, rfl⟩
    · rw [hwrite]
      refine ⟨.error e, server, rfl, ⟨fun _ => rfl, fun _ => rfl⟩, fun hall => ?_, fun _ _ => rfl,
        fun uri' huri' path f hopens => ?_⟩
      · obtain ⟨path, f, hopens⟩ := hall uri (by simp)
        exact absurd hopens (hnone path f)
      · exact ⟨f, hopens.2, .inl ⟨rfl, e, rfl⟩⟩

/-- **Applying an edit changes only what the edit says, as far as the files are well-formed.** All documents are
written if all can be read, and no other file changes. Where edits do not overlap, the bytes around them are kept
exactly if they are well-formed. -/
theorem apply_keeps_bytes_iff (hreads : b.ReadsFiles) {s : ProjectSession} (hsession : server.session = some s)
    (hopen : (s.isClosed && b.refusesWhenClosed) = false) (edit : WorkspaceEdit)
    (hapart : edit.uris.Pairwise server.files.Apart) : ∃ r server',
    (edit.uris.mapM (writeDocument edit)).execute b server = (r, server') ∧
    ((∀ uri ∈ edit.uris, ∃ path f, server.files.Opens uri path f) → ∃ written, r = .ok written) ∧
    (∀ path f, server.files.find path = .ok f →
      (∀ uri ∈ edit.uris, ∀ path', Uri.toPath uri = .ok path' → server.files.keyOf path' ≠ server.files.keyOf path) →
      server'.files.find path = .ok f) ∧
    ∀ uri ∈ edit.uris, ∀ path f, server.files.Opens uri path f →
      ∀ d edits, d = documentIn path f → edits = edit.editsOf d.uri → d.NonOverlapping edits →
      ((decode? f.content).isSome = true → WellFormedAround d edits f.content) ∧
      ∃ f', server'.files.find path = .ok f' ∧
        ((f' = f ∧ ∃ e, r = .error e) ∨
          (KeepsBytes d edits f.content f'.content ↔ WellFormedAround d edits f.content)) := by
  obtain ⟨r, server', hrun, hlayout, hall, hkeep, hdocuments⟩ :=
    execute_mapM_writeDocument hreads hsession hopen edit hapart
  refine ⟨r, server', hrun, hall, fun path f hfind hother => ?_,
    fun uri huri path f hopens d edits hd hedits happly => ?_⟩
  · obtain ⟨hnul, key, hkey, hfile⟩ := find_eq_ok_iff.mp hfind
    refine find_eq_ok_iff.mpr ⟨hnul, key, by rw [hlayout.keyOf_eq, hkey], ?_⟩
    rw [hkeep key fun uri huri path' hpath' => hkey ▸ hother uri huri path' hpath', hfile]
  · have htext : d.text = decode f.content := by rw [hd, documentIn]
    obtain ⟨f', hfind, hcases⟩ := hdocuments uri huri path f hopens
    refine ⟨fun hvalid => wellFormedAround_of_decode? htext hvalid edits, f', hfind,
      hcases.imp_right fun hcontent => ?_⟩
    rw [hcontent, ← hd, WorkspaceEdit.apply, ← hedits]
    exact keepsBytes_iff htext happly

/-- In the first of two files a byte that encodes nothing is replaced; in the second one another part is. -/
theorem apply_keeps_bytes_iff_broken :
    let b : Backend := { source := fun _ files => .bare fun uri => do files.readDocument (← Uri.toPath uri) }
    let files : FileTree :=
      { files := [([['p'], "a.h"], ⟨[0xff, 0x61, 0x0a, 0xc3, 0xa9], 0⟩),
          ([['p'], "b.h"], ⟨[0x61, 0xff], 0⟩)]
        directories := [[['p']]] }
    let session : ProjectSession :=
      { root := "/p", settingsPath := [], settings := .standard, scanner := ⟨"/p", .standard, []⟩
        state := {} }
    let replaceFirst : TextEdit := ⟨⟨⟨0, 0⟩, ⟨0, 1⟩⟩, ['ü']⟩
    let edit : WorkspaceEdit := ⟨[("file:///p/a.h", [replaceFirst]), ("file:///p/b.h", [replaceFirst])]⟩
    ∃ written server' fa fb,
      (edit.uris.mapM (writeDocument edit)).execute b { files, session := some session } = (.ok written, server') ∧
      server'.files.find "/p/a.h" = .ok fa ∧ fa.content = [0xc3, 0xbc, 0x61, 0x0a, 0xc3, 0xa9] ∧
      server'.files.find "/p/b.h" = .ok fb ∧
      ¬ KeepsBytes (documentIn "/p/b.h" ⟨[0x61, 0xff], 0⟩) [replaceFirst] [0x61, 0xff] fb.content := by
  intro b files session replaceFirst edit
  let fa : StoredFile := ⟨[0xff, 0x61, 0x0a, 0xc3, 0xa9], 0⟩
  let fb : StoredFile := ⟨[0x61, 0xff], 0⟩
  have hopensA : files.Opens "file:///p/a.h" "/p/a.h" fa := ⟨rfl, rfl⟩
  have hopensB : files.Opens "file:///p/b.h" "/p/b.h" fb := ⟨rfl, rfl⟩
  have hapart : edit.uris.Pairwise files.Apart := by
    refine List.pairwise_pair.mpr fun path path' key hpath hpath' hkey hkey' => ?_
    obtain rfl := Except.ok.inj (hopensA.1.symm.trans hpath)
    obtain rfl := Except.ok.inj (hopensB.1.symm.trans hpath')
    have hsame := hkey.trans hkey'.symm
    exact absurd (Except.ok.inj hsame) (by decide)
  let server : ServerState := { files, session := some session }
  have hsession : server.session = some session := rfl
  obtain ⟨r, server', hrun, hall, _, hdocuments⟩ := apply_keeps_bytes_iff (b := b) (fun _ _ _ => rfl) hsession rfl
    edit hapart
  obtain ⟨written, rfl⟩ := hall (by
    intro uri huri
    simp only [edit, WorkspaceEdit.uris, List.map_cons, List.map_nil, List.mem_cons, List.not_mem_nil, or_false] at huri
    rcases huri with rfl | rfl
    · exact ⟨_, _, hopensA⟩
    · exact ⟨_, _, hopensB⟩)
  have hplacedA : (documentIn "/p/a.h" fa).placeEdits [replaceFirst] = [⟨0, 1, 0, ['ü']⟩] := rfl
  have hplacedB : (documentIn "/p/b.h" fb).placeEdits [replaceFirst] = [⟨0, 1, 0, ['ü']⟩] := rfl
  obtain ⟨_, fa', hfindA, ⟨_, _, ⟨⟩⟩ | hiffA⟩ := hdocuments "file:///p/a.h"
    (by simp [edit, WorkspaceEdit.uris]) _ _ hopensA _ [replaceFirst] rfl rfl (TextDocument.nonOverlapping_iff _ |>.mpr ⟨by decide, by decide⟩)
  obtain ⟨_, fb', hfindB, ⟨_, _, ⟨⟩⟩ | hiffB⟩ := hdocuments "file:///p/b.h"
    (by simp [edit, WorkspaceEdit.uris]) _ _ hopensB _ [replaceFirst] rfl rfl (TextDocument.nonOverlapping_iff _ |>.mpr ⟨by decide, by decide⟩)
  refine ⟨written, server', fa', fb', hrun, hfindA, ?_, hfindB, fun hkeeps => ?_⟩
  · have hkeeps := hiffA.mpr fun k hk => by
      obtain ⟨k, rfl⟩ : ∃ j, k = j + 1 := by
        have hout : k < 0 ∨ 1 ≤ k := hk ⟨0, 1, 0, ['ü']⟩ (by rw [hplacedA]; simp)
        exact ⟨k - 1, by omega⟩
      have hsame : (pieces fa.content).drop 1 = ((documentIn "/p/a.h" fa).text.map encodeChar).drop 1 := by
        decide
      have hget := congrArg (·[k]?) hsame
      simpa using hget
    rw [hkeeps, TextDocument.orderedEdits, hplacedA, List.mergeSort_singleton]
    decide
  · have hlast := hiffB.mp hkeeps 1 (by rw [hplacedB]; simp [Untouched])
    exact absurd hlast (by decide)

end Call

end CppScaffold
