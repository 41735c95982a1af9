import CppScaffold.Proofs.ByteOffsets
import Mathlib.Data.List.TakeWhile

/-!
# Addresses of paths

The address of a path reads back as its absolute form, whatever characters it has, unless the name of the file is no text
(`toPath_ofBytes_iff`).
-/

namespace CppScaffold.Uri

open Text List

variable {c : Char} {path : Text}

/-! ## Bytes -/

/-- A character that neither ends the path of an address nor is taken out of it. -/
def IsPlain (c : Char) : Prop := 32 < c.toNat ∧ c.toNat < 128 ∧ c ≠ '?' ∧ c ≠ '#'

instance : DecidablePred IsPlain := fun _ => inferInstanceAs (Decidable (_ ∧ _))

lemma forall_byte {p : UInt8 → Prop} (h : ∀ m < 16, ∀ n < 16, p (UInt8.ofNat (16 * m + n))) (b : UInt8) : p b := by
  have hlt := b.toNat_lt
  have hb := h (b.toNat / 16) (by omega) (b.toNat % 16) (by omega)
  rwa [Nat.div_add_mod, UInt8.ofNat_toNat] at hb

lemma isPlain_of_mem_escapeByte {b : UInt8} (h : c ∈ escapeByte b) : IsPlain c := by
  have hall := forall_byte (p := fun b => (escapeByte b).all (IsPlain ·)) (by decide +kernel) b
  exact of_decide_eq_true (all_eq_true.mp hall c h)

lemma unescapeBytes_cons (h : c ≠ '%') (rest : Text) :
    unescapeBytes (c :: rest) = c.toNat.toUInt8 :: unescapeBytes rest := by
  rw [unescapeBytes]
  exact fun _ _ _ hc _ => h hc

lemma unescapeBytes_escapeByte (b : UInt8) (rest : Text) :
    unescapeBytes (escapeByte b ++ rest) = b :: unescapeBytes rest := by
  rw [escapeByte]
  split
  next hsafe =>
    obtain ⟨hne, hchar⟩ := forall_byte (p := fun b => isSafeByte b →
      Char.ofNat b.toNat ≠ '%' ∧ (Char.ofNat b.toNat).toNat.toUInt8 = b) (by decide +kernel) b hsafe
    rw [singleton_append, unescapeBytes_cons hne, hchar]
  next =>
    let digit (n : Nat) : Char := (Nat.digitChar n).toUpper
    obtain ⟨hdigits, hhigh, hlow⟩ := forall_byte (p := fun b =>
      (hex 2 b.toNat).map Char.toUpper = [digit (b.toNat / 16), digit (b.toNat % 16)] ∧
      hexDigit? (digit (b.toNat / 16)) = some (b.toNat / 16) ∧ hexDigit? (digit (b.toNat % 16)) = some (b.toNat % 16))
      (by decide +kernel) b
    rw [hdigits, cons_append, cons_append, cons_append, unescapeBytes, hhigh, hlow]
    simp only [Nat.div_add_mod']
    exact congrArg (· :: _) UInt8.ofNat_toNat

lemma unescapeBytes_flatMap_escapeByte (data : Bytes) : unescapeBytes (data.flatMap escapeByte) = data := by
  induction data with
  | nil => rfl
  | cons b data ih => rw [flatMap_cons, unescapeBytes_escapeByte, ih]

lemma unescapeFrom_of_isPlain (run : Text) (h : ∀ c ∈ path, IsPlain c) :
    unescapeFrom run path = Utf8.decode (unescapeBytes (run.reverse ++ path)) := by
  induction path generalizing run with
  | nil => rw [unescapeFrom, append_nil]
  | cons c path ih =>
    obtain ⟨hc, hpath⟩ := forall_mem_cons.mp h
    rw [unescapeFrom, if_pos hc.2.1, ih (c :: run) hpath, reverse_cons, append_assoc, singleton_append]

/-! ## Whole addresses -/

lemma schemeAndPath_file (h : ∀ c ∈ path, IsPlain c) :
    schemeAndPath ("file://" ++ '/' :: path) = .ok ("file", '/' :: path) := by
  -- no character is dropped, and none ends the path
  have hkept : path.filter (fun c => c != '\t' && c != '\r' && c != '\n') = path := by
    refine filter_eq_self.mpr fun c hc => ?_
    have hblank := (h c hc).1
    simp only [Bool.and_eq_true, bne_iff_ne]
    refine ⟨⟨?_, ?_⟩, ?_⟩ <;> rintro rfl <;> exact absurd hblank (by decide)
  have hfragment : path.takeWhile (· != '#') = path :=
    takeWhile_eq_self_iff.mpr fun c hc => bne_iff_ne.mpr (h c hc).2.2.2
  have hquery : path.takeWhile (· != '?') = path :=
    takeWhile_eq_self_iff.mpr fun c hc => bne_iff_ne.mpr (h c hc).2.2.1
  have hscheme : splitScheme ("file://".toList ++ '/' :: path) = ("file".toList, '/' :: '/' :: '/' :: path) := by
    have hlength : 4 < ("file://".toList ++ '/' :: path).length := by simp
    rw [splitScheme]
    exact if_pos (Bool.and_eq_true_iff.mpr ⟨Bool.and_eq_true_iff.mpr ⟨decide_eq_true hlength, rfl⟩, rfl⟩)
  have htext : (("file://" ++ '/' :: path).dropWhile fun c => c.toNat ≤ 32).filter
      (fun c => c != '\t' && c != '\r' && c != '\n') = "file://" ++ '/' :: path :=
    congrArg ("file://".toList ++ '/' :: ·) hkept
  have hhost : splitHost ('/' :: '/' :: '/' :: path) = ([], '/' :: path) := rfl
  simp only [schemeAndPath, htext, hscheme, hhost]
  rw [show ('/' :: path).takeWhile (· != '#') = '/' :: path from congrArg ('/' :: ·) hfragment,
    show ('/' :: path).takeWhile (· != '?') = '/' :: path from congrArg ('/' :: ·) hquery]
  rfl

lemma absolute_eq_cons (p : Text) : ∃ rest, Path.absolute p = '/' :: rest := by
  have hroot : ∀ q : Text, ∃ rest, Path.rootOf ('/' :: q) = '/' :: rest := by
    intro q
    rw [Path.rootOf.eq_def]
    split
    · exact ⟨_, rfl⟩
    · exact ⟨_, rfl⟩
    · exact ⟨_, rfl⟩
    next h => exact absurd rfl (h q)
  obtain ⟨q, hq⟩ : ∃ q, Path.join Path.workingDirectory p = '/' :: q := by
    rw [Path.join]
    split
    next h =>
      obtain ⟨q, rfl⟩ := isPrefixOf_iff_prefix.mp h
      exact ⟨q, rfl⟩
    next => exact ⟨_, rfl⟩
  obtain ⟨rest, hrest⟩ := hroot q
  rw [Path.absolute, hq, Path.normalize, hrest]
  exact ⟨_, rfl⟩

/-- What is read back is the text of the bytes, with replacement characters where they encode nothing. -/
lemma toPath_ofBytes (data : Bytes) :
    toPath (ofBytes (Utf8.encode ['/'] ++ data)) = .ok (Utf8.decode (Utf8.encode ['/'] ++ data)) := by
  have hplain : ∀ c ∈ data.flatMap escapeByte, IsPlain c := by
    intro c hc
    obtain ⟨b, -, hb⟩ := mem_flatMap.mp hc
    exact isPlain_of_mem_escapeByte hb
  have hslash : (Utf8.encode ['/'] ++ data).flatMap escapeByte = '/' :: data.flatMap escapeByte := by
    have hescape : (Utf8.encode ['/']).flatMap escapeByte = ['/'] := by decide +kernel
    rw [flatMap_append, hescape, singleton_append]
  have hsplit : schemeAndPath (ofBytes (Utf8.encode ['/'] ++ data)) =
      .ok ("file", '/' :: data.flatMap escapeByte) := by
    unfold ofBytes
    rw [hslash]
    exact schemeAndPath_file hplain
  simp only [toPath, hsplit, beq_self_eq_true, if_true]
  rw [unescape, unescapeFrom_of_isPlain [] (forall_mem_cons.mpr ⟨by decide, hplain⟩), reverse_nil, nil_append, ← hslash,
    unescapeBytes_flatMap_escapeByte]

lemma ofBytes_inj {data data' : Bytes} : ofBytes data = ofBytes data' ↔ data = data' := by
  constructor
  · intro h
    have hescaped := congrArg unescapeBytes (append_cancel_left h)
    rwa [unescapeBytes_flatMap_escapeByte, unescapeBytes_flatMap_escapeByte] at hescaped
  · rintro rfl
    rfl

/-- **The address of a path reads back as the path exactly if its bytes encode a text.** So it does for every text, in
absolute form, and no two absolute paths have one address. -/
theorem toPath_ofBytes_iff (data : Bytes) (p : Text) :
    (let path := Utf8.encode ['/'] ++ data
      ∃ back, toPath (ofBytes path) = .ok back ∧ (Utf8.encode back = path ↔ ∃ t, Utf8.encode t = path)) ∧
    (∀ data', ofBytes data = ofBytes data' ↔ data = data') ∧
    toPath (ofPath p) = .ok (Path.absolute p) ∧ Path.absolute ('/' :: p) = Path.normalize ('/' :: p) ∧
    ∀ q, ofPath p = ofPath q ↔ Path.absolute p = Path.absolute q := by
  refine ⟨⟨_, toPath_ofBytes data, fun h => ⟨_, h⟩, ?_⟩, fun _ => ofBytes_inj, ?_, rfl, fun q => ?_⟩
  · rintro ⟨t, ht⟩
    rw [← ht, Utf8.decode_encode]
  · obtain ⟨rest, hrest⟩ := absolute_eq_cons p
    have hbytes : Utf8.encode ('/' :: rest) = Utf8.encode ['/'] ++ Utf8.encode rest := Utf8.encode_cons ..
    rw [ofPath, hrest, hbytes, toPath_ofBytes, ← hbytes, Utf8.decode_encode]
  · rw [ofPath, ofPath, ofBytes_inj]
    constructor
    · intro h
      rw [← Utf8.decode_encode (s := Path.absolute p), h, Utf8.decode_encode]
    · intro h
      rw [h]

/-- A byte that encodes nothing comes back as another character. -/
theorem undecodable_name_is_lost :
    let path := Utf8.encode "/tmp/caf" ++ 0xe9 :: Utf8.encode ".h"
    ofBytes path = "file:///tmp/caf%E9.h" ∧ toPath (ofBytes path) = .ok "/tmp/caf\ufffd.h" ∧
      Utf8.encode "/tmp/caf\ufffd.h" ≠ path := by
  intro path
  have hread := toPath_ofBytes (Utf8.encode "tmp/caf" ++ 0xe9 :: Utf8.encode ".h")
  have htext : Utf8.decode path = "/tmp/caf\ufffd.h" := by decide +kernel
  exact ⟨by decide +kernel, hread.trans (congrArg _ htext), by decide +kernel⟩

end CppScaffold.Uri
