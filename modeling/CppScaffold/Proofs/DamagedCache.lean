import CppScaffold.Symbol.Cache
import Mathlib.Logic.Basic

/-!
# Damaged cache files

A cache file may hold anything. `get_succeeds_iff_usable` says on which contents the cache fails.
-/

namespace CppScaffold

open Text List Json

/-- Two passes over a list succeed together if they do so on each element. -/
lemma isOk_mapM_bind_mapM {α β γ : Type} {f : α → Outcome β} {g : β → Outcome γ} {xs : List α} :
    (xs.mapM f >>= fun ys => ys.mapM g).isOk ↔ ∀ x ∈ xs, (f x >>= g).isOk := by
  induction xs with
  | nil => exact iff_of_true rfl (by simp)
  | cons x xs ih =>
    rw [forall_mem_cons, ← ih, mapM_cons]
    cases f x with
    | error e => exact iff_of_false Bool.false_ne_true fun h => Bool.false_ne_true h.1
    | ok y =>
      cases xs.mapM f with
      | error e => exact iff_of_false Bool.false_ne_true fun h => Bool.false_ne_true h.2
      | ok ys =>
        change ((y :: ys).mapM g).isOk ↔ (g y).isOk ∧ (ys.mapM g).isOk
        rw [mapM_cons]
        cases g y with
        | error e => exact iff_of_false Bool.false_ne_true fun h => Bool.false_ne_true h.1
        | ok z =>
          cases ys.mapM g with
          | error e => exact iff_of_false Bool.false_ne_true fun h => Bool.false_ne_true h.2
          | ok zs => exact iff_of_true rfl ⟨rfl, rfl⟩

namespace SymbolCache

open UncheckedSymbol

variable {digest uri : Text} {fields : List (Text × Json)}

/-- The file belongs to a text with the digest. -/
def IsFor (digest : Text) (fields : List (Text × Json)) : Prop :=
  (lookup? "text_hash" fields).bind str? = some digest

/-- The symbol that is saved as a value. -/
def symbolIn (v : Json) : Outcome UncheckedSymbol := SymbolRecord.ofJson v >>= ofRecord

/-- The file lists values of which symbols can be built. -/
def HoldsSymbols (fields : List (Text × Json)) : Prop :=
  ∃ xs, ((lookup? "symbols" fields).getD (.arr [])).elements = .ok xs ∧ ∀ x ∈ xs, (symbolIn x).isOk

/-- What the cache does not fail on. A file that is no JSON text is reported with the path of the document. -/
def Usable (uri digest file : Text) : Prop :=
  match parse fileLevels file with
  | .error (.tooDeep _) => False
  | .error .malformed => (Uri.toPath uri).isOk
  | .ok (.obj fields) => IsFor digest fields → HoldsSymbols fields
  | .ok _ => False

/-- What the cache takes as missing. -/
def Missed (uri digest file : Text) : Prop :=
  match parse fileLevels file with
  | .error (.tooDeep _) => False
  | .error .malformed => (Uri.toPath uri).isOk
  | .ok (.obj fields) => ¬ IsFor digest fields
  | .ok _ => False

/-- What an empty cache answers with the records that it loads. -/
def answered (loaded : Outcome (Option (List SymbolRecord))) : Outcome (Option (List UncheckedSymbol)) := do
  match ← loaded with
  | none => return none
  | some records => return some (← records.mapM ofRecord)

lemma answered_loadRecords :
    ((answered (loadRecords digest (.obj fields))).isOk ↔ (IsFor digest fields → HoldsSymbols fields)) ∧
    (answered (loadRecords digest (.obj fields)) = .ok none ↔ ¬ IsFor digest fields) := by
  by_cases hfor : IsFor digest fields
  · have hload : loadRecords digest (.obj fields) = (do
        let xs ← ((lookup? "symbols" fields).getD (.arr [])).elements
        return some (← xs.mapM SymbolRecord.ofJson)) := if_neg fun hne => bne_iff_ne.mp hne hfor
    rw [hload, HoldsSymbols]
    cases ((lookup? "symbols" fields).getD (.arr [])).elements with
    | error e => simp [answered, hfor, bind, Except.bind, Except.isOk, Except.toBool]
    | ok xs =>
      have hpasses := @isOk_mapM_bind_mapM _ _ _ SymbolRecord.ofJson ofRecord xs
      simp only [hfor, true_imp_iff, not_true, Except.ok.injEq, exists_eq_left', symbolIn, ← hpasses, answered]
      simp only [bind, Except.bind, pure, Except.pure]
      cases xs.mapM SymbolRecord.ofJson with
      | error e => exact ⟨Iff.rfl, iff_of_false (by rintro ⟨⟩) id⟩
      | ok records =>
        dsimp only
        cases records.mapM ofRecord with
        | error e => exact ⟨Iff.rfl, iff_of_false (by rintro ⟨⟩) id⟩
        | ok symbols => exact ⟨Iff.rfl, iff_of_false (by rintro ⟨⟩) id⟩
  · have hload : loadRecords digest (.obj fields) = .ok none := if_pos (bne_iff_ne.mpr hfor)
    rw [hload]
    exact ⟨iff_of_true rfl fun h => absurd h hfor, iff_of_true rfl hfor⟩

/-- **The cache fails exactly on files that are not usable**: JSON texts that are no objects or list a value of which
no symbol can be built. No JSON text, or one of another text, counts as missing. -/
theorem get_succeeds_iff_usable (d : CacheDirectory) (uri text : Text) :
    let answer := (get { directory := some d : SymbolCache UncheckedSymbol } uri text).1
    (answer.isOk ↔ ∀ file, d.read? (fileName uri) = some file → Usable uri (Digest.ofText text) file) ∧
    (answer = .ok none ↔ ∀ file, d.read? (fileName uri) = some file → Missed uri (Digest.ofText text) file) := by
  intro answer
  have hanswer : answer = answered (load { directory := some d : SymbolCache UncheckedSymbol } uri (Digest.ofText text)) := by
    simp only [answer, get]
    cases load { directory := some d : SymbolCache UncheckedSymbol } uri (Digest.ofText text) with
    | error e => rfl
    | ok found =>
      cases found with
      | none => rfl
      | some records =>
        cases hbuilt : records.mapM ofRecord <;>
          simp [remembered?, Cacheable.ofRecords, answered, hbuilt, bind, Except.bind, pure, Except.pure]
  rw [hanswer, load]
  cases hread : d.read? (fileName uri) with
  | none =>
    rw [Option.bind_some, hread]
    exact ⟨iff_of_true rfl (by simp), iff_of_true rfl (by simp)⟩
  | some file =>
    simp only [Option.bind_some, hread, Option.some.injEq, forall_eq', Usable, Missed, Json.ofFileText]
    have hfails : ∀ e {p : Prop}, ¬ p → ((answered (.error e)).isOk ↔ p) ∧ (answered (.error e) = .ok none ↔ p) :=
      fun e p hp => ⟨iff_of_false Bool.false_ne_true hp, iff_of_false (by rintro ⟨⟩) hp⟩
    rcases Json.parse Json.fileLevels file with (_ | container) | v
    · cases Uri.toPath uri with
      | error e => exact hfails e Bool.false_ne_true
      | ok path => exact ⟨iff_of_true rfl rfl, iff_of_true rfl rfl⟩
    · exact hfails _ id
    · cases v with
      | obj fields => exact answered_loadRecords
      | _ => exact hfails _ id

/-- An empty array is a JSON text and no record, so that the cache fails on it. -/
theorem get_fails_on_array :
    (get { directory := some { files := [(fileName "file:///a.h", "[]")] } : SymbolCache UncheckedSymbol }
      "file:///a.h" "int a;").1 =
      .error (.noOperation "'list' object has no attribute 'get'") := by
  have hfile : Json.ofFileText "[]" = .ok (some (.arr [])) := by rfl
  simp only [get, remembered?, load, CacheDirectory.read?, lookup_cons, lookup_nil, beq_self_eq_true, Option.bind_some,
    if_true, hfile]
  rfl

end SymbolCache

end CppScaffold
