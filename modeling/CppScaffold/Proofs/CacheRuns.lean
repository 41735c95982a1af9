import CppScaffold.Proofs.Search
import CppScaffold.Symbol.Cache
import Mathlib.Data.List.Flatten

/-!
# What a cache answers

A cache keeps symbols in memory and in files, and either copy may be gone. `Agrees` says how they relate to the
commands so far; every command keeps it, so that the symbols put in last for a text are found whatever was cleared or
restarted.
-/

namespace CppScaffold

open Text List SymbolRecord Digest CacheDirectory

/-! ## Records of symbols -/

namespace SymbolRecord

mutual

/-- The record of a reported symbol, as it is read. -/
def ofInfo : SymbolInfo → SymbolRecord
  | ⟨name, kind, range, selection, detail, children⟩ =>
    ⟨.str name, kind, .ofRange range, .ofRange selection, .str detail, ofInfos children⟩

/-- The records of reported symbols, as they are read. -/
def ofInfos : List SymbolInfo → List SymbolRecord
  | [] => []
  | s :: rest => ofInfo s :: ofInfos rest

end

lemma kind_kept (k : SymbolKind) : SymbolKind.ofJson (.nat k.toNat) = .ok k := by
  cases k <;> rfl

/-- A detail is kept; the empty one counts as false, but is the empty text then. -/
lemma detail_kept (detail : Text) :
    (if (Json.str detail).isTruthy then Json.str detail else .str []) = .str detail := by
  cases detail <;> rfl

lemma toJson_eq (name : Text) (kind : SymbolKind) (range selection : Range) (detail : Text)
    (children : List SymbolInfo) :
    SymbolInfo.toJson ⟨name, kind, range, selection, detail, children⟩ =
      .object [("name", .str name), ("detail", .str detail), ("kind", .nat kind.toNat), ("range", range.toJson),
        ("selectionRange", selection.toJson), ("children", .arr (SymbolInfo.toJsonAll children))] := by
  rw [SymbolInfo.toJson]

mutual

theorem ofJsonWithin_toJson (info : SymbolInfo) (depth : Nat) (h : info.toJson.depth ≤ depth) :
    ofJsonWithin depth info.toJson = .ok (ofInfo info) := by
  obtain ⟨name, kind, range, selection, detail, children⟩ := info
  have hlt : Json.depthAll (SymbolInfo.toJsonAll children) <
      (SymbolInfo.toJson ⟨name, kind, range, selection, detail, children⟩).depth := by
    rw [toJson_eq]
    simp only [Json.object, map_cons, map_nil, Json.depth, Json.depthFields]
    omega
  obtain ⟨depth, rfl⟩ : ∃ n, depth = n + 1 := ⟨depth - 1, by omega⟩
  have hchildren := mapM_ofJsonWithin_toJsonAll children depth (by omega)
  calc ofJsonWithin (depth + 1) (SymbolInfo.toJson ⟨name, kind, range, selection, detail, children⟩)
      = (do
          let kind ← SymbolKind.ofJson (.nat kind.toNat)
          let nested ← (SymbolInfo.toJsonAll children).mapM (ofJsonWithin depth)
          return ⟨.str name, kind, .ofRange range, .ofRange selection,
            if (Json.str detail).isTruthy then .str detail else .str [], nested⟩) := by
        rw [toJson_eq]
        rfl
    _ = .ok (ofInfo ⟨name, kind, range, selection, detail, children⟩) := by
        rw [kind_kept, hchildren, detail_kept, ofInfo]
        rfl

theorem mapM_ofJsonWithin_toJsonAll (infos : List SymbolInfo) (depth : Nat)
    (h : Json.depthAll (SymbolInfo.toJsonAll infos) ≤ depth) :
    (SymbolInfo.toJsonAll infos).mapM (ofJsonWithin depth) = .ok (ofInfos infos) := by
  cases infos with
  | nil => rfl
  | cons info rest =>
    rw [SymbolInfo.toJsonAll, Json.depthAll] at h
    rw [SymbolInfo.toJsonAll, mapM_cons, ofJsonWithin_toJson info depth (by omega),
      mapM_ofJsonWithin_toJsonAll rest depth (by omega)]
    rfl

end

lemma mapM_ofJson_toJsonAll (infos : List SymbolInfo) :
    (SymbolInfo.toJsonAll infos).mapM ofJson = .ok (ofInfos infos) := by
  induction infos with
  | nil => rfl
  | cons info rest ih =>
    rw [SymbolInfo.toJsonAll, mapM_cons, ofJson, ofJsonWithin_toJson info _ (Nat.le_refl _), ih]
    rfl

mutual

theorem toInfo_ofInfo (info : SymbolInfo) : (ofInfo info).toInfo = .ok info := by
  obtain ⟨name, kind, range, selection, detail, children⟩ := info
  rw [ofInfo, toInfo, toInfos_ofInfos children]
  rfl

theorem toInfos_ofInfos (infos : List SymbolInfo) : toInfos (ofInfos infos) = .ok infos := by
  cases infos with
  | nil => rfl
  | cons info rest =>
    rw [ofInfos, toInfos, toInfo_ofInfo info, toInfos_ofInfos rest]
    rfl

end

end SymbolRecord

/-! ## Commands -/

/-- What is done with a cache over its life. -/
inductive CacheCommand where
  | put (uri text : Text) (infos : List SymbolInfo)
  | get (uri text : Text)
  | invalidate (uri : Text)
  | clear
  | restart

/-- What is known of each document: a text and the symbols that were put in for it. -/
abbrev Ledger := Text → Option (Text × List SymbolInfo)

namespace CacheCommand

def uris : CacheCommand → List Text
  | put uri _ _ | get uri _ | invalidate uri => [uri]
  | clear | restart => []

def texts : CacheCommand → List Text
  | put _ text _ | get _ text => [text]
  | invalidate _ | clear | restart => []

/-- Whether a command decides what is known of a document. -/
def concerns (uri : Text) : CacheCommand → Bool
  | put u _ _ | invalidate u => u == uri
  | get _ _ | clear | restart => false

def learn (known : Ledger) : CacheCommand → Ledger
  | put uri text infos => fun u => if u = uri then some (text, infos) else known u
  | invalidate uri => fun u => if u = uri then none else known u
  | get _ _ | clear | restart => known

lemma learn_put (known : Ledger) (uri text : Text) (infos : List SymbolInfo) (u : Text) :
    learn known (put uri text infos) u = if u = uri then some (text, infos) else known u := rfl

lemma learn_invalidate (known : Ledger) (uri u : Text) :
    learn known (invalidate uri) u = if u = uri then none else known u := rfl

variable {known : Ledger} {uri text : Text} {infos : List SymbolInfo}

lemma learn_eq_some_iff {x : CacheCommand} : learn known x uri = some (text, infos) ↔
    x = put uri text infos ∨ (x.concerns uri = false ∧ known uri = some (text, infos)) := by
  cases x with
  | put u t i =>
    by_cases hu : uri = u
    · subst hu
      simp [learn, concerns]
    · simp [learn, concerns, hu, Ne.symm hu]
  | invalidate u =>
    by_cases hu : uri = u
    · simp [learn, concerns, hu]
    · simp [learn, concerns, hu, Ne.symm hu]
  | get | clear | restart => simp [learn, concerns]

/-- What is known of a document was put in by the last command that concerns it. -/
lemma foldl_learn_eq_some_iff {commands : List CacheCommand} :
    commands.foldl learn known uri = some (text, infos) ↔
      (∃ earlier later, commands = earlier ++ put uri text infos :: later ∧ ∀ x ∈ later, x.concerns uri = false) ∨
      ((∀ x ∈ commands, x.concerns uri = false) ∧ known uri = some (text, infos)) := by
  induction commands generalizing known with
  | nil => simp
  | cons x rest ih =>
    rw [foldl_cons, ih, learn_eq_some_iff, forall_mem_cons,
      exists_split_cons (P := fun _ later => ∀ y ∈ later, concerns uri y = false)]
    constructor
    · rintro (h | ⟨hrest, rfl | ⟨hx, hknown⟩⟩)
      · exact .inl (.inr h)
      · exact .inl (.inl ⟨rfl, hrest⟩)
      · exact .inr ⟨⟨hx, hrest⟩, hknown⟩
    · rintro ((⟨rfl, hrest⟩ | h) | ⟨⟨hx, hrest⟩, hknown⟩)
      · exact .inr ⟨hrest, .inl rfl⟩
      · exact .inl h
      · exact .inr ⟨hrest, .inr ⟨hx, hknown⟩⟩

end CacheCommand

namespace SymbolCache

open CacheCommand

def step (c : SymbolCache Symbol) : CacheCommand → SymbolCache Symbol
  | .put uri text infos => (c.put uri text infos).2
  | .get uri text => (c.get uri text).2
  | .invalidate uri => c.invalidate uri
  | .clear => c.clear
  | .restart => c.restart

/-- The cache after some commands, from an empty directory on. -/
def run (path : Text) (commands : List CacheCommand) : SymbolCache Symbol :=
  commands.foldl step { directory := some { path } }

def savedValue (uri digest : Text) (infos : List SymbolInfo) : Json :=
  .object [("uri", .str uri), ("text_hash", .str digest), ("symbols", .arr (SymbolInfo.toJsonAll infos))]

/-- What is saved for a document is read as it was written. -/
def ReadsBack (uri text : Text) (infos : List SymbolInfo) : Prop :=
  Json.ofFileText (saved uri (ofText text) infos) = .ok (some (savedValue uri (ofText text) infos))

def TellsApart (texts : List Text) : Prop := ∀ t ∈ texts, ∀ u ∈ texts, ofText t = ofText u → t = u

/-! ## One command -/

lemma loadRecords_savedValue (uri digest digest' : Text) (infos : List SymbolInfo) :
    loadRecords digest (savedValue uri digest' infos) =
      .ok (if digest' = digest then some (ofInfos infos) else none) := by
  have hload : loadRecords digest (savedValue uri digest' infos) =
      if some digest' != some digest then .ok none
      else (SymbolInfo.toJsonAll infos).mapM ofJson >>= fun records => .ok (some records) := rfl
  rw [hload, mapM_ofJson_toJsonAll]
  by_cases h : digest' = digest
  · rw [h, bne_self_eq_false, if_pos rfl]
    rfl
  · rw [if_pos (by simpa using h), if_neg h]

lemma fileName_inj {uris : List Text} (h : TellsApart uris) {u v : Text} (hu : u ∈ uris) (hv : v ∈ uris) :
    fileName u = fileName v ↔ u = v := by
  rw [fileName, fileName, append_cancel_right_eq]
  exact ⟨h u hu v hv, fun heq => by rw [heq]⟩

lemma lookup_store (c : SymbolCache Symbol) (uri digest : Text) (symbols : List Symbol) (u : Text) :
    (c.store uri digest symbols).entries.lookup u = if u = uri then some ⟨digest, symbols⟩ else c.entries.lookup u := by
  rw [store, ← lookup_entered c.entries]

/-- Memory and files hold what is known of documents; the files are those of the given documents. -/
structure Agrees (uris texts : List Text) (c : SymbolCache Symbol) (known : Ledger) : Prop where
  /-- There is a directory, in which the file of a document holds what is known of it. -/
  files : ∃ d, c.directory = some d ∧ d.present ∧
    ∀ u ∈ uris, d.files.lookup (fileName u) = (known u).map fun p => saved u (ofText p.1) p.2
  memory : ∀ u e, c.entries.lookup u = some e →
    ∃ text infos, known u = some (text, infos) ∧ e = ⟨ofText text, Symbol.ofInfos infos⟩
  /-- What is known can be read from its file, and its text is one of the given texts. -/
  readable : ∀ u text infos, known u = some (text, infos) → text ∈ texts ∧ ReadsBack u text infos

section

variable {uris texts : List Text} {c : SymbolCache Symbol} {known : Ledger} {uri text : Text}

lemma Agrees.put (h : Agrees uris texts c known) (huris : TellsApart uris) {infos : List SymbolInfo}
    (huri : uri ∈ uris) (htext : text ∈ texts) (hread : ReadsBack uri text infos) :
    Agrees uris texts (c.put uri text infos).2 (learn known (.put uri text infos)) := by
  obtain ⟨d, hd, hpresent, hfiles⟩ := h.files
  have hput : (c.put uri text infos).2 = { c.store uri (ofText text) (Symbol.ofInfos infos) with
      directory := some (d.write (fileName uri) (saved uri (ofText text) infos)) } := by
    have hsave : (c.store uri (ofText text) (Symbol.ofInfos infos)).directory = some d := hd
    simp only [SymbolCache.put, save, Cacheable.ofInfos, hsave, hpresent, if_true]
    rfl
  rw [hput]
  refine ⟨⟨_, rfl, ?_, fun u hu => ?_⟩, fun u e he => ?_, fun u t i hknown => ?_⟩
  · rwa [write, if_pos hpresent]
  · rw [write, if_pos hpresent, List.lookup_cons, lookup_filter_ne, learn_put]
    by_cases heq : u = uri
    · simp [heq]
    · have hname : fileName u ≠ fileName uri := fun hname => heq ((fileName_inj huris hu huri).mp hname)
      rw [beq_eq_false_iff_ne.mpr hname, if_neg hname, if_neg heq, hfiles u hu]
  · rw [lookup_store] at he
    split at he
    next heq => exact ⟨text, infos, (learn_put ..).trans (if_pos heq), (Option.some.inj he).symm⟩
    next hne =>
      rw [learn_put, if_neg hne]
      exact h.memory u e he
  · rcases learn_eq_some_iff.mp hknown with heq | ⟨_, hknown⟩
    · cases heq
      exact ⟨htext, hread⟩
    · exact h.readable u t i hknown

lemma Agrees.invalidate (h : Agrees uris texts c known) (huris : TellsApart uris) (huri : uri ∈ uris) :
    Agrees uris texts (c.invalidate uri) (learn known (.invalidate uri)) := by
  obtain ⟨d, hd, hpresent, hfiles⟩ := h.files
  refine ⟨⟨d.erase (fileName uri), by rw [SymbolCache.invalidate, hd]; rfl, hpresent, fun u hu => ?_⟩, fun u e he => ?_,
    fun u t i hknown => ?_⟩
  · rw [erase, lookup_filter_ne, learn_invalidate]
    by_cases heq : u = uri
    · simp [heq]
    · rw [if_neg (fun hname => heq ((fileName_inj huris hu huri).mp hname)), if_neg heq, hfiles u hu]
  · rw [SymbolCache.invalidate, lookup_filter_ne] at he
    split at he
    · cases he
    next hne =>
      rw [learn_invalidate, if_neg hne]
      exact h.memory u e he
  · rcases learn_eq_some_iff.mp hknown with heq | ⟨_, hknown⟩
    · cases heq
    · exact h.readable u t i hknown

lemma Agrees.forget (h : Agrees uris texts c known) {c' : SymbolCache Symbol} (hdirectory : c'.directory = c.directory)
    (hentries : c'.entries = [] ∨ c'.entries = c.entries) : Agrees uris texts c' known := by
  refine ⟨hdirectory ▸ h.files, fun u e he => ?_, h.readable⟩
  rcases hentries with hentries | hentries <;> rw [hentries] at he
  · cases he
  · exact h.memory u e he

lemma Agrees.restart (h : Agrees uris texts c known) : Agrees uris texts c.restart known := by
  obtain ⟨d, hd, hpresent, _⟩ := h.files
  refine h.forget ?_ (.inl rfl)
  rw [SymbolCache.restart, hd, Option.map_some, if_pos hpresent]

def answer (known : Ledger) (uri text : Text) : Option (List Symbol) :=
  (known uri).bind fun p => if p.1 = text then some (Symbol.ofInfos p.2) else none

lemma answer_eq_some_iff {symbols : List Symbol} : answer known uri text = some symbols ↔
    ∃ infos, known uri = some (text, infos) ∧ symbols = Symbol.ofInfos infos := by
  rw [answer, Option.bind_eq_some_iff]
  constructor
  · rintro ⟨⟨t, infos⟩, hknown, hsome⟩
    obtain ⟨rfl, hsymbols⟩ := (Option.ite_none_right_eq_some ..).mp hsome
    exact ⟨infos, hknown, (Option.some.inj hsymbols).symm⟩
  · rintro ⟨infos, hknown, rfl⟩
    exact ⟨(text, infos), hknown, if_pos rfl⟩

lemma Agrees.load (h : Agrees uris texts c known) (huri : uri ∈ uris) (digest : Text) : c.load uri digest =
    .ok ((known uri).bind fun p => if ofText p.1 = digest then some (ofInfos p.2) else none) := by
  obtain ⟨d, hd, hpresent, hfiles⟩ := h.files
  have hread : c.directory.bind (·.read? (fileName uri)) = d.files.lookup (fileName uri) := by
    rw [hd, Option.bind_some, read?, if_pos hpresent]
  rw [SymbolCache.load, hread, hfiles uri huri]
  cases hknown : known uri with
  | none => rfl
  | some p =>
    have hback : Json.ofFileText (saved uri (ofText p.1) p.2) = _ := (h.readable uri p.1 p.2 hknown).2
    rw [Option.map_some]
    simp only [hback]
    exact loadRecords_savedValue ..

/-- The answer is the one that is known; if it comes from a file, it is remembered. -/
lemma Agrees.get (h : Agrees uris texts c known) (htexts : TellsApart texts) (huri : uri ∈ uris)
    (htext : text ∈ texts) :
    (c.get uri text).1 = .ok (answer known uri text) ∧ Agrees uris texts (c.get uri text).2 known := by
  -- The digest stands for the text wherever something is known.
  have hdigest : ∀ t infos, known uri = some (t, infos) → (ofText t = ofText text ↔ t = text) :=
    fun t infos hknown => ⟨htexts t (h.readable uri t infos hknown).1 text htext, fun heq => by rw [heq]⟩
  cases hmemory : c.remembered? uri (ofText text) with
  | some symbols =>
    have hget : c.get uri text = (.ok (some symbols), { c with hits := c.hits + 1 }) := by
      rw [SymbolCache.get, hmemory]
    rw [hget]
    refine ⟨?_, h.forget rfl (.inr rfl)⟩
    rw [remembered?] at hmemory
    split at hmemory
    next e he =>
      obtain ⟨t, infos, hknown, rfl⟩ := h.memory uri e he
      obtain ⟨hsame, hsymbols⟩ := (Option.ite_none_right_eq_some ..).mp hmemory
      obtain rfl := (hdigest t infos hknown).mp (eq_of_beq hsame)
      rw [answer_eq_some_iff.mpr ⟨infos, hknown, (Option.some.inj hsymbols).symm⟩]
    next => cases hmemory
  | none =>
    rw [SymbolCache.get, hmemory, h.load huri, answer]
    cases hknown : known uri with
    | none => exact ⟨rfl, h.forget rfl (.inr rfl)⟩
    | some p =>
      obtain ⟨t, infos⟩ := p
      by_cases heq : t = text
      · simp only [Option.bind_some, heq, if_true, Cacheable.ofRecords, toInfos_ofInfos]
        refine ⟨rfl, h.files, fun u e he => ?_, h.readable⟩
        change (SymbolCache.store _ _ _ _).entries.lookup u = some e at he
        rw [lookup_store] at he
        split at he
        next hu => exact ⟨text, infos, by rw [hu, hknown, heq], (Option.some.inj he).symm⟩
        next => exact h.memory u e he
      · simp only [Option.bind_some, heq, (hdigest t infos hknown).not.mpr heq, if_false]
        exact ⟨trivial, h.forget rfl (.inr rfl)⟩

/-! ## Whole runs -/

lemma Agrees.step (h : Agrees uris texts c known) (huris : TellsApart uris) (htexts : TellsApart texts)
    {x : CacheCommand} (hxu : ∀ u ∈ x.uris, u ∈ uris) (hxt : ∀ t ∈ x.texts, t ∈ texts)
    (hread : ∀ u t infos, x = .put u t infos → ReadsBack u t infos) :
    Agrees uris texts (c.step x) (learn known x) := by
  cases x with
  | put uri text infos =>
    exact h.put huris (hxu uri (mem_singleton.mpr rfl)) (hxt text (mem_singleton.mpr rfl)) (hread _ _ _ rfl)
  | get uri text =>
    exact (h.get htexts (hxu uri (mem_singleton.mpr rfl)) (hxt text (mem_singleton.mpr rfl))).2
  | invalidate uri => exact h.invalidate huris (hxu uri (mem_singleton.mpr rfl))
  | clear => exact h.forget rfl (.inl rfl)
  | restart => exact h.restart

lemma agrees_empty (uris texts : List Text) (path : Text) :
    Agrees uris texts { directory := some { path } } fun _ => none :=
  ⟨⟨{ path }, rfl, rfl, fun _ _ => rfl⟩, fun _ _ he => (nomatch he), fun _ _ _ hknown => (nomatch hknown)⟩

variable {commands : List CacheCommand}

lemma Agrees.foldl_step (h : Agrees uris texts c known) (huris : TellsApart uris) (htexts : TellsApart texts)
    (hcu : ∀ x ∈ commands, ∀ u ∈ x.uris, u ∈ uris) (hct : ∀ x ∈ commands, ∀ t ∈ x.texts, t ∈ texts)
    (hread : ∀ u t infos, .put u t infos ∈ commands → ReadsBack u t infos) :
    Agrees uris texts (commands.foldl SymbolCache.step c) (commands.foldl learn known) := by
  induction commands generalizing c known with
  | nil => exact h
  | cons x rest ih =>
    obtain ⟨hxu, hcu⟩ := forall_mem_cons.mp hcu
    obtain ⟨hxt, hct⟩ := forall_mem_cons.mp hct
    refine ih (h.step huris htexts hxu hxt ?_) hcu hct fun u t infos hput => hread u t infos (mem_cons_of_mem x hput)
    rintro u t infos rfl
    exact hread u t infos mem_cons_self

lemma get_run {path : Text} (huris : TellsApart (uri :: commands.flatMap CacheCommand.uris))
    (htexts : TellsApart (text :: commands.flatMap CacheCommand.texts))
    (hread : ∀ u t infos, .put u t infos ∈ commands → ReadsBack u t infos) :
    ((run path commands).get uri text).1 = .ok (answer (commands.foldl learn fun _ => none) uri text) := by
  have hagrees := (agrees_empty _ _ path).foldl_step huris htexts
    (fun x hx u hu => mem_cons_of_mem uri (mem_flatMap.mpr ⟨x, hx, hu⟩))
    (fun x hx t ht => mem_cons_of_mem text (mem_flatMap.mpr ⟨x, hx, ht⟩)) hread
  exact (hagrees.get htexts mem_cons_self mem_cons_self).1

end

lemma TellsApart.mono {texts texts' : List Text} (h : TellsApart texts) (hsub : ∀ t ∈ texts', t ∈ texts) :
    TellsApart texts' :=
  fun t ht u hu heq => h t (hsub t ht) u (hsub u hu) heq

/-- After every run of commands a cache with a directory answers with the symbols of the latest text that was put in
and not invalidated, and with nothing for any other text, as long as digests tell texts apart and files are read as
written. -/
theorem get_answers_latest_put (path uri text : Text) (commands : List CacheCommand)
    (huris : TellsApart (uri :: commands.flatMap CacheCommand.uris))
    (htexts : TellsApart (text :: commands.flatMap CacheCommand.texts))
    (hread : ∀ u t infos, .put u t infos ∈ commands → ReadsBack u t infos) :
    (∃ found, ((run path commands).get uri text).1 = .ok found ∧
      ∀ symbols, found = some symbols ↔ ∃ earlier later infos, commands = earlier ++ .put uri text infos :: later ∧
        (∀ x ∈ later, x.concerns uri = false) ∧ symbols = Symbol.ofInfos infos) ∧
    (∀ earlier x later, commands = earlier ++ x :: later → x = .clear ∨ x = .restart →
      ((run path (earlier ++ later)).get uri text).1 = ((run path commands).get uri text).1) ∧
    ∀ info : SymbolInfo, (SymbolRecord.ofJson info.toJson).bind SymbolRecord.toInfo = .ok info := by
  refine ⟨⟨_, get_run huris htexts hread, fun symbols => ?_⟩, ?_, fun info => ?_⟩
  · rw [answer_eq_some_iff]
    constructor
    · rintro ⟨infos, hknown, hsymbols⟩
      rcases foldl_learn_eq_some_iff.mp hknown with ⟨earlier, later, heq, hlater⟩ | ⟨_, hnone⟩
      · exact ⟨earlier, later, infos, heq, hlater, hsymbols⟩
      · cases hnone
    · rintro ⟨earlier, later, infos, heq, hlater, hsymbols⟩
      exact ⟨infos, foldl_learn_eq_some_iff.mpr (.inl ⟨earlier, later, heq, hlater⟩), hsymbols⟩
  · rintro earlier x later rfl hx
    have hsub : (earlier ++ later).Sublist (earlier ++ x :: later) := (List.sublist_cons_self x later).append_left earlier
    have hmono : ∀ (f : CacheCommand → List Text) (u : Text),
        u :: (earlier ++ later).flatMap f ⊆ u :: (earlier ++ x :: later).flatMap f :=
      fun f u => ((hsub.flatMap f).cons_cons u).subset
    rw [get_run (huris.mono (hmono _ uri)) (htexts.mono (hmono _ text))
      (fun u t infos h => hread u t infos (hsub.subset h)), get_run huris htexts hread]
    have hlearn : ∀ known, learn known x = known := by
      rcases hx with rfl | rfl <;> exact fun _ => rfl
    rw [List.foldl_append, List.foldl_append, List.foldl_cons, hlearn]
  · rw [SymbolRecord.ofJson, SymbolRecord.ofJsonWithin_toJson info _ (Nat.le_refl _)]
    exact SymbolRecord.toInfo_ofInfo info

/-- A run in which the symbols of an older text are replaced, then dropped from memory and read from their file. -/
def replacedAndRestarted : List CacheCommand :=
  [.put "a.h" "int x;" [], .put "a.h" "void f();"
    [⟨"f", .function, ⟨⟨0, 0⟩, ⟨0, 8⟩⟩, ⟨⟨0, 5⟩, ⟨0, 6⟩⟩, [], []⟩], .clear, .invalidate "b.h", .restart]

set_option maxRecDepth 20000 in
theorem get_answers_latest_put_restarted :
    TellsApart ("a.h" :: replacedAndRestarted.flatMap CacheCommand.uris) ∧
    TellsApart ("void f();" :: replacedAndRestarted.flatMap CacheCommand.texts) ∧
    (∀ u t infos, .put u t infos ∈ replacedAndRestarted → ReadsBack u t infos) ∧
    ((run "cache" replacedAndRestarted).get "a.h" "void f();").1 = .ok (some (Symbol.ofInfos
      [⟨"f", .function, ⟨⟨0, 0⟩, ⟨0, 8⟩⟩, ⟨⟨0, 5⟩, ⟨0, 6⟩⟩, [], []⟩])) := by
  have huris : TellsApart ("a.h" :: replacedAndRestarted.flatMap CacheCommand.uris) := by
    unfold TellsApart
    decide +kernel
  have htexts : TellsApart ("void f();" :: replacedAndRestarted.flatMap CacheCommand.texts) := by
    unfold TellsApart
    decide +kernel
  have hread : ∀ u t infos, .put u t infos ∈ replacedAndRestarted → ReadsBack u t infos := by
    intro u t infos hmem
    simp only [replacedAndRestarted, List.mem_cons, CacheCommand.put.injEq, reduceCtorEq, List.not_mem_nil,
      or_false] at hmem
    rcases hmem with ⟨rfl, rfl, rfl⟩ | ⟨rfl, rfl, rfl⟩ <;> rfl
  obtain ⟨⟨found, hget, hfound⟩, _⟩ := get_answers_latest_put "cache" "a.h" "void f();"
    replacedAndRestarted huris htexts hread
  refine ⟨huris, htexts, hread, hget.trans (congrArg Except.ok ((hfound _).mpr ?_))⟩
  exact ⟨[.put "a.h" "int x;" []], [.clear, .invalidate "b.h", .restart], _, rfl, by decide, rfl⟩

end SymbolCache

end CppScaffold
