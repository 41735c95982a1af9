import CppScaffold.Proofs.FileWrites
import Mathlib.Algebra.Ring.Nat

/-!
# Project directories that cannot be entered

Setting the project directory ends the work in the former one first. If it then fails, a later answer shows this unless
nothing was begun or to be ended.
-/

namespace CppScaffold

open Text Action List ProjectSession Json ServerState

/-! ## Written strings

The escapes of characters are a prefix code, so that a text written as a string can be told from what follows. -/

namespace Json

variable {w n : Nat} {x y : Text}

lemma hex_succ (hw : 0 < w) (n : Nat) : hex (w + 1) n = hex w (n / 16) ++ [Nat.digitChar (n % 16)] := by
  by_cases hn : n < 16
  · obtain ⟨w, rfl⟩ : ∃ k, w = k + 1 := ⟨w - 1, by omega⟩
    have hzero : n / 16 = 0 ∧ n % 16 = n := by omega
    simp [hex, Nat.toDigits_of_lt_base hn, hzero, replicate_succ']
  · rw [hex, Nat.toDigits_of_base_le (by decide) (Nat.le_of_not_lt hn), hex]
    simp [Nat.add_sub_add_right]

lemma length_hex (hw : 0 < w) (hn : n < 16 ^ w) : (hex w n).length = w := by
  have hdigits := (Nat.length_toDigits_le_iff (by decide) hw).mpr hn
  simp only [hex, length_append, length_replicate]
  omega

lemma digitChar_inj : ∀ a < 16, ∀ b < 16, Nat.digitChar a = Nat.digitChar b → a = b := by decide

/-- The digits of numbers of one width tell the numbers apart. -/
lemma hex_inj {m : Nat} (hw : 0 < w) (hm : m < 16 ^ w) (hn : n < 16 ^ w) (h : hex w m = hex w n) :
    m = n := by
  induction w, hw using Nat.le_induction generalizing m n with
  | base =>
    rw [pow_one] at hm hn
    simp only [hex, Nat.toDigits_of_lt_base hm, Nat.toDigits_of_lt_base hn, length_singleton, Nat.sub_self,
      replicate_zero, nil_append, cons.injEq, and_true] at h
    exact digitChar_inj m hm n hn h
  | succ w hw ih =>
    rw [hex_succ hw, hex_succ hw] at h
    obtain ⟨hrest, hlast⟩ := append_inj' h rfl
    have hdiv : m / 16 = n / 16 := ih (by omega) (by omega) hrest
    have hmod := digitChar_inj (m % 16) (by omega) (n % 16) (by omega) (head_eq_of_cons_eq hlast)
    omega

lemma unicodeEscape_append_inj {m : Nat} (hm : m < 65536) (hn : n < 65536)
    (h : unicodeEscape m ++ x = unicodeEscape n ++ y) : m = n ∧ x = y := by
  simp only [unicodeEscape, cons_append, cons.injEq, true_and] at h
  have hlength : (hex 4 m).length = (hex 4 n).length := by
    rw [length_hex (by decide) hm, length_hex (by decide) hn]
  obtain ⟨hhex, hrest⟩ := append_inj h hlength
  exact ⟨hex_inj (by decide) hm hn hhex, hrest⟩

/-- The character for which a letter stands behind a backslash. -/
def unescaped (k : Char) : Char :=
  if k = 'n' then '\n' else if k = 'r' then '\r' else if k = 't' then '\t'
  else if k = 'b' then Char.ofNat 8 else if k = 'f' then Char.ofNat 12 else k

/-- The four forms of an escape: a letter behind a backslash, the character itself, one number or a pair of
numbers. -/
lemma escapeChar_cases (c : Char) :
    (∃ k, escapeChar c = ['\\', k] ∧ k ≠ 'u' ∧ unescaped k = c) ∨ (escapeChar c = [c] ∧ c ≠ '\\' ∧ c ≠ '"') ∨
    (escapeChar c = unicodeEscape c.toNat ∧ c.toNat < 0x10000) ∨
    (0x10000 ≤ c.toNat ∧ escapeChar c = unicodeEscape (0xd800 + (c.toNat - 0x10000) / 1024) ++
      unicodeEscape (0xdc00 + (c.toNat - 0x10000) % 1024)) := by
  have hnat : ∀ n : Nat, c.toNat = n → c = Char.ofNat n := fun n h => by rw [← h, Char.ofNat_toNat]
  unfold escapeChar
  split
  next hquote =>
    refine .inl ⟨c, rfl, ?_⟩
    rcases Bool.or_eq_true_iff.mp hquote with h | h <;> rw [eq_of_beq h] <;> decide
  next hquote =>
    rw [Bool.or_eq_true_iff, beq_iff_eq, beq_iff_eq, not_or] at hquote
    split
    next h => exact .inl ⟨'n', rfl, by decide, (eq_of_beq h).symm⟩
    split
    next h => exact .inl ⟨'r', rfl, by decide, (eq_of_beq h).symm⟩
    split
    next h => exact .inl ⟨'t', rfl, by decide, (eq_of_beq h).symm⟩
    split
    next h => exact .inl ⟨'b', rfl, by decide, (hnat 8 (eq_of_beq h)).symm⟩
    split
    next h => exact .inl ⟨'f', rfl, by decide, (hnat 12 (eq_of_beq h)).symm⟩
    dsimp only
    split
    · exact .inr (.inl ⟨rfl, hquote.2, hquote.1⟩)
    split
    next h => exact .inr (.inr (.inl ⟨rfl, h⟩))
    next h => exact .inr (.inr (.inr ⟨Nat.le_of_not_lt h, rfl⟩))

lemma toNat_cases (c : Char) : c.toNat < 0xd800 ∨ 0xdfff < c.toNat ∧ c.toNat < 0x110000 := c.valid

/-- The escape of a character ends where it can be told from that of any other character. -/
lemma escapeChar_append_inj {c d : Char} (h : escapeChar c ++ x = escapeChar d ++ y) : c = d ∧ x = y := by
  have hc := toNat_cases c
  have hd := toNat_cases d
  rcases escapeChar_cases c with ⟨k, hck, hku, rfl⟩ | ⟨hcc, hcb, -⟩ | ⟨hcu, hcn⟩ | ⟨hcn, hcu⟩
  · rcases escapeChar_cases d with ⟨l, hdl, -, rfl⟩ | ⟨hdd, hdb, -⟩ | ⟨hdu, -⟩ | ⟨-, hdu⟩
    all_goals grind [unicodeEscape]
  · rcases escapeChar_cases d with ⟨l, hdl, -, rfl⟩ | ⟨hdd, -, -⟩ | ⟨hdu, -⟩ | ⟨-, hdu⟩
    all_goals grind [unicodeEscape]
  · rcases escapeChar_cases d with ⟨l, hdl, hlu, rfl⟩ | ⟨hdd, hdb, -⟩ | ⟨hdu, hdn⟩ | ⟨hdn, hdu⟩
    · grind [unicodeEscape]
    · grind [unicodeEscape]
    · rw [hcu, hdu] at h
      obtain ⟨hsame, hrest⟩ := unicodeEscape_append_inj hcn hdn h
      exact ⟨Char.toNat_inj.mp hsame, hrest⟩
    · -- The first number of a pair is no character.
      rw [hcu, hdu, append_assoc] at h
      obtain ⟨hsame, -⟩ := unicodeEscape_append_inj hcn (by omega) h
      omega
  · rcases escapeChar_cases d with ⟨l, hdl, hlu, rfl⟩ | ⟨hdd, hdb, -⟩ | ⟨hdu, hdn⟩ | ⟨hdn, hdu⟩
    · grind [unicodeEscape]
    · grind [unicodeEscape]
    · rw [hcu, hdu, append_assoc] at h
      obtain ⟨hsame, -⟩ := unicodeEscape_append_inj (by omega) hdn h
      omega
    · rw [hcu, hdu, append_assoc, append_assoc] at h
      obtain ⟨hhigh, h⟩ := unicodeEscape_append_inj (by omega) (by omega) h
      obtain ⟨hlow, hrest⟩ := unicodeEscape_append_inj (by omega) (by omega) h
      exact ⟨Char.toNat_inj.mp (by omega), hrest⟩

lemma quote_ne_escapeChar (c : Char) (u v : Text) : '"' :: u ≠ escapeChar c ++ v := by
  rcases escapeChar_cases c with ⟨k, hc, -⟩ | ⟨hc, -, hne⟩ | ⟨hc, -⟩ | ⟨-, hc⟩
  all_goals grind [unicodeEscape]

lemma renderString_append_inj {s t : Text} (h : renderString s ++ x = renderString t ++ y) : s = t ∧ x = y := by
  simp only [renderString, cons_append, cons.injEq, true_and, append_assoc] at h
  induction s generalizing t with
  | nil =>
    cases t with
    | nil => simpa using h
    | cons d t => exact absurd h (by simpa using quote_ne_escapeChar d x _)
  | cons c s ih =>
    cases t with
    | nil => exact absurd h.symm (by simpa using quote_ne_escapeChar c y _)
    | cons d t =>
      simp only [flatMap_cons, append_assoc] at h
      obtain ⟨rfl, hrest⟩ := escapeChar_append_inj h
      obtain ⟨rfl, hxy⟩ := ih hrest
      exact ⟨rfl, hxy⟩

lemma pretty_object_cons (name : String) (v : Json) (fields : List (String × Json)) :
    ∃ rest, (object ((name, v) :: fields)).pretty =
      '{' :: newLine 2 ++ (renderString name.toList ++ (": " ++ (prettyAt 2 v ++ rest))) := by
  simp only [object, map_cons, pretty, prettyAt, prettyFields, join]
  generalize prettyFields (0 + 2) _ = written
  cases written with
  | nil => exact ⟨newLine 0 ++ ['}'], by simp⟩
  | cons f fs => exact ⟨',' :: newLine 2 ++ intercalate (',' :: newLine 2) (f :: fs) ++ newLine 0 ++ ['}'], by simp⟩

end Json

/-! ## How a change fails -/

def ServerState.answers (b : Backend) : ServerState → List (Text × Json) → List Text
  | _, [] => []
  | server, (name, arguments) :: rest =>
    (server.call b name arguments).1 :: answers b (server.call b name arguments).2 rest

/-- A source of symbols refuses to answer once it was closed, and never gives that reason before. -/
structure Backend.RefusesOnceClosed (b : Backend) : Prop where
  refuses : b.refusesWhenClosed
  notBefore : ∀ scanner files uri fault, (b.source scanner files).symbols uri = .error fault →
    fault.message ≠ Fault.sourceClosed.message

namespace Call

variable {b : Backend} {server server' : ServerState} {arguments : Json} {answer path : Text}

/-- The arguments name a directory, which is then entered. -/
def Enters (server : ServerState) (arguments : Json) (path : Text) : Prop :=
  arguments.field "project_path" = .ok (.str path) ∧ server.files.isDirectory path ∧ path ≠ []

lemma eq_str_of_directoryPath {given : Json} (h : directoryPath given = .ok path) (hne : path ≠ []) :
    given = .str path := by
  cases given with
  | str t => rw [show t = path by simpa [directoryPath] using h]
  | bool => simp [directoryPath, hne.symm] at h
  | int i =>
    rw [directoryPath] at h
    cases hi : openFileNumber i with
    | error e => simp [hi, bind, Except.bind] at h
    | ok => simp [hi, bind, Except.bind, pure, Except.pure, hne.symm] at h
  | _ => simp [directoryPath] at h

/-- A directory is entered, or the server stays as it is. -/
lemma execute_setProjectDirectory (b : Backend) (server : ServerState) (arguments : Json) : (∃ path, Enters server
    arguments path ∧ (setProjectDirectory arguments).execute b server = (enterProject path).execute b server) ∨ ((∀
    path, ¬ Enters server arguments path) ∧ ((setProjectDirectory arguments).execute b server).2 = server) := by
  simp only [setProjectDirectory, execute_bind, execute_lift]
  cases hfield : arguments.field "project_path" with
  | error e => exact .inr ⟨fun path h => by simp [Enters, hfield] at h, rfl⟩
  | ok given =>
    cases hpath : directoryPath given with
    | error e =>
      refine .inr ⟨fun path h => ?_, by simp only [hpath]⟩
      obtain rfl : given = .str path := by simpa [Enters, hfield] using h.1
      simp [directoryPath] at hpath
    | ok path =>
      simp only [execute_get, hpath]
      by_cases hdir : (!server.files.isDirectory path || path.isEmpty)
      · rw [if_pos hdir]
        refine .inr ⟨fun path' h => ?_, rfl⟩
        obtain rfl : given = .str path' := by simpa [Enters, hfield] using h.1
        obtain rfl : path' = path := by simpa [directoryPath] using hpath
        simp [h.2.1, h.2.2] at hdir
      · rw [if_neg hdir]
        obtain ⟨hdir, hne⟩ : server.files.isDirectory path ∧ path ≠ [] := by simpa using hdir
        exact .inl ⟨path, ⟨by rw [hfield, eq_str_of_directoryPath hpath hne], hdir, hne⟩, rfl⟩

/-! ## What later calls show -/

lemma call_eq (name : Text) (arguments : Json) : server.call b name arguments =
    match (ofTool name arguments).execute b server with
    | (.ok answer, server) => (answer, server)
    | (.error fault, server) => ("Error: " ++ fault.message, server) := by
  change (match ((ofTool name arguments).execute b server).1 with
    | .ok answer => (answer, ((ofTool name arguments).execute b server).2)
    | .error fault => ("Error: " ++ fault.message, ((ofTool name arguments).execute b server).2)) = _
  rcases (ofTool name arguments).execute b server with ⟨fault | answer, server'⟩ <;> rfl

variable {s : ProjectSession}

/-- The state of the server begins with the directory of the project. -/
lemma status_of_session (hsession : server.session = some s) :
    ∃ rest, (server.call b "get_server_status" (.obj [])).1 =
      '{' :: newLine 2 ++ (renderString "project_root" ++ (": " ++
        (renderString s.root ++ rest))) := by
  have hrun : (ofTool "get_server_status" (.obj [])).execute b server = (status s).execute b server := by
    rw [ofTool, if_neg (by decide)]
    simp only [execute_bind, execute_get, hsession]
    rfl
  rw [call_eq, hrun]
  exact pretty_object_cons "project_root" (.str s.root) _

lemma status_of_no_session (hsession : server.session = none) :
    (server.call b "get_server_status" (.obj [])).1 = noProject := by
  rw [call_eq, ofTool, if_neg (by decide)]
  simp only [execute_bind, execute_get, hsession, execute_pure]

/-- The root directory is always there, and is found from any project. -/
lemma resolve_root (s : ProjectSession) (files : FileTree) :
    s.resolve files (.str ['/']) = .ok (Uri.ofPath ['/']) := by
  have hkey : files.keyOf ['/'] = .ok [] := by
    rfl
  have hleads : files.leadsTo ['/'] = .ok true := by
    simp [FileTree.leadsTo, hkey, FileTree.contains, FileTree.isDirectory, FileTree.hasDirectory]
  have hfull : Path.plain (Path.join s.root ['/']) = ['/'] := by
    rw [Path.join, if_pos (by decide)]
    decide
  simp only [resolve, hfull, hleads]
  rfl

/-- A call that asks for the symbols of the root directory. -/
def askForRoot : Json := .object [("file_path", .str ['/'])]

/-- The source of symbols is asked, whatever the project. -/
lemma symbols_of_session (hsession : server.session = some s) :
    (server.call b "get_document_symbols" askForRoot).1 =
      match (s.source b server.files).symbols (Uri.ofPath ['/']) with
      | .ok infos => (arr (SymbolInfo.toJsonAll infos)).pretty
      | .error fault => "Error: " ++ fault.message := by
  have hrun : (ofTool "get_document_symbols" askForRoot).execute b server =
      (inProject s "get_document_symbols" ⟨[("file_path", .str ['/'])]⟩).execute b server := by
    rw [ofTool, if_neg (by decide)]
    simp only [execute_bind, execute_get, hsession]
    rfl
  have hgiven : Arguments.required ⟨[("file_path", .str ['/'])]⟩ "file_path" = .ok (.str ['/']) := rfl
  rw [call_eq, hrun, inProject, if_neg (by decide), if_neg (by decide)]
  have hedit (a : Arguments) (uri : Text) : edit? s (String.ofList "get_document_symbols") a uri = none := rfl
  have hquery (given : Json) (uri : Text) :
      query? s (String.ofList "get_document_symbols") given uri = some do
        let infos ← (s.source (← read) (← get).files).symbols uri
        return (arr (SymbolInfo.toJsonAll infos)).pretty := rfl
  simp only [execute_bind, execute_lift, execute_get, execute_read, hgiven, resolve_root, hedit, hquery]
  cases (s.source b server.files).symbols (Uri.ofPath ['/']) <;> rfl

/-- A source of symbols that was closed is told from an open one. -/
lemma symbols_of_closed (hb : b.RefusesOnceClosed) (hsession : server.session = some s)
    (hopen : s.isClosed = false) : (server.closed.call b "get_document_symbols" askForRoot).1 ≠
      (server.call b "get_document_symbols" askForRoot).1 := by
  have hclosed : server.closed.session = some { s with isClosed := true } := by
    rw [closed, hsession, Option.map_some]
  rw [symbols_of_session hclosed, symbols_of_session hsession]
  simp only [source, hb.refuses, hopen, Bool.true_and, Bool.false_and, if_true, Bool.false_eq_true,
    if_false, SymbolSource.closed]
  cases hsymbols : (b.source s.scanner server.files).symbols (Uri.ofPath ['/']) with
  | error fault =>
    intro heq
    exact hb.notBefore _ _ _ _ hsymbols (append_cancel_left heq).symm
  | ok infos => cases infos <;> simp [SymbolInfo.toJsonAll, pretty, prettyAt, render]

end Call

/-! ## Later answers after a failure -/

namespace ServerState

open Call

variable {b : Backend} {server server' : ServerState} {arguments : Json} {answer : Text}

/-- Whatever is called from now on, two servers answer the same. -/
def AnswersLike (b : Backend) (server server' : ServerState) : Prop :=
  ∀ calls, server'.answers b calls = server.answers b calls

lemma AnswersLike.call (h : server.AnswersLike b server') (name : Text) (arguments : Json) :
    (server'.call b name arguments).1 = (server.call b name arguments).1 := by
  simpa [answers] using h [(name, arguments)]

lemma closed_eq_self (h : ∀ s, server.session = some s → s.isClosed) : server.closed = server := by
  obtain ⟨files, session, caches⟩ := server
  cases session with
  | none => rfl
  | some s =>
    have hs := h s rfl
    obtain ⟨root, settingsPath, settings, scanner, state, isClosed⟩ := s
    obtain rfl : isClosed := hs
    rfl

/-- The end of the work in a project goes unnoticed only if there was no such work any more. -/
lemma answersLike_closed_iff (hb : b.RefusesOnceClosed) :
    server.AnswersLike b server.closed ↔ ∀ s, server.session = some s → s.isClosed := by
  constructor
  · intro h s hsession
    by_contra hopen
    exact symbols_of_closed hb hsession (by simpa using hopen) (h.call _ _)
  · intro h calls
    rw [closed_eq_self h]

/-- The work in another project is told by its directory. -/
lemma root_eq_of_answersLike {s' : ProjectSession} (h : server.AnswersLike b server')
    (hsession : server'.session = some s') : ∃ s, server.session = some s ∧ s.root = s'.root := by
  have heq := h.call "get_server_status" (.obj [])
  obtain ⟨rest', hstatus'⟩ := status_of_session (b := b) hsession
  cases hserver : server.session with
  | none =>
    rw [hstatus', status_of_no_session hserver] at heq
    have hhead : some '{' = some 'E' := congrArg head? heq
    simp at hhead
  | some s =>
    obtain ⟨rest, hstatus⟩ := status_of_session (b := b) hserver
    rw [hstatus', hstatus] at heq
    have hroots := append_cancel_left (append_cancel_left (append_cancel_left heq))
    exact ⟨s, rfl, (renderString_append_inj hroots).1.symm⟩

/-- A failed change leaves the server as it was as long as no directory is entered. If the new settings cannot be used,
the old work has ended, which later answers show unless it had before. If the files cannot be listed, the server works
in the new directory, which they show unless it was the old one. -/
theorem answers_after_failed_change (hb : b.RefusesOnceClosed)
    (hcall : server.call b "set_project_directory" arguments = (answer, server'))
    (herror : "Error: " <+: answer) :
    ((∀ path, ¬ Enters server arguments path) ∧ server' = server) ∨
    ∃ path, Enters server arguments path ∧
      ((∃ e, ProjectSession.make server.files server.savedCaches path = .error e ∧ server' = server.closed ∧
          (server.AnswersLike b server' ↔ ∀ s, server.session = some s → s.isClosed = true)) ∨
        ∃ s' e, ProjectSession.make server.files server.savedCaches path = .ok s' ∧
          s'.scanner.files server.files = .error e ∧
          server' = { server with session := some s', caches := server.savedCaches } ∧
          (server.AnswersLike b server' → ∃ s, server.session = some s ∧ s.root = s'.root)) := by
  have hrun : ofTool "set_project_directory" arguments = setProjectDirectory arguments := by
    rw [ofTool, if_pos (by decide)]
  rw [call_eq, hrun] at hcall
  rcases execute_setProjectDirectory b server arguments with ⟨path, henters, hexecute⟩ | ⟨hnone, hsame⟩
  · refine .inr ⟨path, henters, ?_⟩
    rw [hexecute] at hcall
    simp only [enterProject, execute_bind, execute_get, execute_set, execute_lift, execute_pure] at hcall
    cases hmake : ProjectSession.make server.files server.savedCaches path with
    | error e =>
      obtain ⟨-, rfl⟩ : _ ∧ server.closed = server' := by simpa [hmake] using hcall
      exact .inl ⟨e, rfl, rfl, answersLike_closed_iff hb⟩
    | ok s' =>
      simp only [hmake] at hcall
      cases hfiles : s'.scanner.files server.files with
      | error e =>
        obtain ⟨-, rfl⟩ : _ ∧ { server with session := some s', caches := server.savedCaches } = server' := by
          simpa [hfiles, Except.map] using hcall
        exact .inr ⟨s', e, rfl, hfiles, rfl, fun h => root_eq_of_answersLike h rfl⟩
      | ok files =>
        obtain ⟨rfl, -⟩ : _ = answer ∧ _ := by simpa [hfiles, Except.map] using hcall
        simp at herror
  · refine .inl ⟨hnone, ?_⟩
    revert hcall hsame
    rcases (setProjectDirectory arguments).execute b server with ⟨fault | answer', server''⟩
    all_goals
      rintro hcall rfl
      exact (Prod.mk.inj hcall).2.symm

def withoutSymbols : Backend where
  source _ _ := .bare fun _ => .error .sourceClosed

lemma withoutSymbols_refuses : withoutSymbols.RefusesOnceClosed where
  refuses := rfl
  notBefore _ _ _ _ h := by cases h

/-- A server that works in the first of two projects. The second one has the given settings. -/
def besideProject (settings : String) : ServerState :=
  let files : FileTree :=
    { files := [([['q'], "cpp-codegen-config.json"], ⟨Utf8.encode settings.toList, 0⟩)]
      directories := [[['p']], [['q']]] }
  (call withoutSymbols { files } "set_project_directory"
    (.object [("project_path", .text "/p")])).2

/-- Settings that are no record: the change fails, and the source of the first project is closed. -/
theorem failed_change_closes_source :
    let server := besideProject "null"
    let failed := server.call withoutSymbols "set_project_directory" (.object [("project_path", .text "/q")])
    "Error: " <+: failed.1 ∧ ¬ server.AnswersLike withoutSymbols failed.2 := by
  intro server failed
  have hcall : server.call withoutSymbols "set_project_directory" (.object [("project_path", .text "/q")]) =
    (failed.1, failed.2) := rfl
  have herror : "Error: " <+: failed.1 := by
    decide +kernel
  have hopen : server.session.map (·.isClosed) = some false := by decide +kernel
  have hmake : (ProjectSession.make server.files server.savedCaches "/q").toOption.isSome = false := by
    decide +kernel
  refine ⟨herror, fun h => ?_⟩
  rcases answers_after_failed_change withoutSymbols_refuses hcall herror with
    ⟨hnone, -⟩ | ⟨path, henters, ⟨e, -, -, hiff⟩ | ⟨s', e, hok, -⟩⟩
  · exact hnone "/q" ⟨rfl, by decide +kernel, by decide⟩
  · obtain ⟨s, hs, hclosed⟩ := Option.map_eq_some_iff.mp hopen
    rw [hiff.mp h s hs] at hclosed
    cases hclosed
  · have hfield : Json.field "project_path" (.object [("project_path", .text "/q")]) = .ok (.str "/q") := rfl
    obtain rfl : path = "/q" := by simpa [hfield] using henters.1.symm
    rw [hok] at hmake
    cases hmake

/-- Settings with a wrong list of extensions: the change fails, and the server works in the second project. -/
theorem failed_change_enters_project :
    let server := besideProject "\x7b\"header_extensions\": 5\x7d"
    let failed := server.call withoutSymbols "set_project_directory" (.object [("project_path", .text "/q")])
    "Error: " <+: failed.1 ∧ server.session.map (·.root) = some "/p" ∧
      failed.2.session.map (·.root) = some "/q" ∧ ¬ server.AnswersLike withoutSymbols failed.2 := by
  intro server failed
  have hold : server.session.map (·.root) = some "/p" := by decide +kernel
  have hnew : failed.2.session.map (·.root) = some "/q" := by decide +kernel
  refine ⟨?_, hold, hnew, fun h => ?_⟩
  · rw [← List.isPrefixOf_iff_prefix]
    decide +kernel
  · obtain ⟨s', hs', hroot'⟩ := Option.map_eq_some_iff.mp hnew
    obtain ⟨s, hs, hroot⟩ := root_eq_of_answersLike h hs'
    rw [hs, Option.map_some, hroot, hroot'] at hold
    cases hold

end ServerState

end CppScaffold
