import CppScaffold.Cursor.ParsedText
import CppScaffold.Proofs.Positions

/-!
# Bytes and characters

A parser counts bytes and a document counts characters. The table of offsets says of each byte how many characters end
before it (`getElem?_offsetsFrom_encode`).
-/

namespace CppScaffold

open List

namespace Utf8

variable {p : Pending} {bytes : Bytes} {c : Char} (s : Text)

/-! ## Reading what was written -/

/-- Reading the bytes completes the character with the last of them and nothing before. -/
inductive Completes : Pending → Bytes → Char → Prop
  | last {p : Pending} {b : UInt8} {c : Char} (h : step p b.toNat = ([c], .start)) : Completes p [b] c
  | more {p q : Pending} {b : UInt8} {bytes : Bytes} {c : Char} (h : step p b.toNat = ([], q))
    (hmore : Completes q bytes c) : Completes p (b :: bytes) c

lemma toNat_toUInt8 {n : Nat} (h : n < 256) : n.toUInt8.toNat = n :=
  Nat.mod_eq_of_lt h

lemma Completes.first {n : Nat} (h : beginChar n = ([], p)) (hn : n < 256) (hmore : Completes p bytes c) :
    Completes .start (n.toUInt8 :: bytes) c :=
  .more (by rw [toNat_toUInt8 hn, step, h]) hmore

lemma Completes.next {missing value low high n : Nat} (hlow : low ≤ n) (hhigh : n ≤ high) (hn : n < 256)
    (hvalue : value * 64 + (n - 0x80) < 0x360 ∨ 0x380 ≤ value * 64 + (n - 0x80))
    (hmore : Completes (.within missing (value * 64 + (n - 0x80)) 0x80 0xbf) bytes c) :
    Completes (.within (missing + 1) value low high) (n.toUInt8 :: bytes) c := by
  refine .more ?_ hmore
  rw [toNat_toUInt8 hn, step, if_pos (by simp [hlow, hhigh])]
  simp only
  rw [if_neg (by simp only [Bool.and_eq_true, decide_eq_true_eq]; omega)]

lemma Completes.final {value low high n : Nat} (hlow : low ≤ n) (hhigh : n ≤ high) (hn : n < 256)
    (hc : value * 64 + (n - 0x80) = c.toNat) : Completes (.within 0 value low high) [n.toUInt8] c := by
  refine .last ?_
  rw [toNat_toUInt8 hn, step, if_pos (by simp [hlow, hhigh])]
  simp [hc]

lemma beginChar_three {k m : Nat} (hk : k < 16) (hm : k = 0 → 0x20 ≤ m) :
    ∃ low, beginChar (0xe0 + k) = ([], .within 1 k low 0xbf) ∧ low ≤ 0x80 + m := by
  by_cases h0 : k = 0
  · exact ⟨0xa0, by rw [h0]; rfl, by omega⟩
  · refine ⟨0x80, ?_, by omega⟩
    rw [beginChar, if_neg (by omega), if_neg (by omega), if_neg (by omega), if_neg (by simpa using h0),
      if_pos (by omega), Nat.add_sub_cancel_left]

lemma beginChar_four {k m : Nat} (hk : k ≤ 4) (hm : m < 0x40) (hlow : k = 0 → 0x10 ≤ m) (hhigh : k = 4 → m < 0x10) :
    ∃ low high, beginChar (0xf0 + k) = ([], .within 2 k low high) ∧ low ≤ 0x80 + m ∧ 0x80 + m ≤ high := by
  obtain rfl | hmiddle | rfl : k = 0 ∨ (k = 1 ∨ k = 2 ∨ k = 3) ∨ k = 4 := by omega
  · exact ⟨0x90, 0xbf, rfl, by omega, by omega⟩
  · refine ⟨0x80, 0xbf, ?_, by omega, by omega⟩
    rcases hmiddle with rfl | rfl | rfl <;> rfl
  · exact ⟨0x80, 0x8f, rfl, by omega, by omega⟩

lemma completes_encodeChar (c : Char) : Completes .start (encodeChar c) c := by
  have hvalid : c.toNat < 0xd800 ∨ 0xdfff < c.toNat ∧ c.toNat < 0x110000 := c.valid
  unfold encodeChar
  extract_lets n
  split
  · refine .last ?_
    rw [toNat_toUInt8 (by omega), step, beginChar, if_pos (by assumption), Char.ofNat_toNat]
  split
  · have hfirst : beginChar (0xc0 + n / 64) = ([], .within 0 (n / 64) 0x80 0xbf) := by
      rw [beginChar, if_neg (by omega), if_neg (by omega), if_pos (by omega), Nat.add_sub_cancel_left]
    exact .first hfirst (by omega) (.final (by omega) (by omega) (by omega) (by omega))
  split
  · obtain ⟨low, hfirst, hlow⟩ := beginChar_three (k := n / 4096) (m := n / 64 % 64) (by omega) (by omega)
    exact .first hfirst (by omega) (.next hlow (by omega) (by omega) (by omega)
      (.final (by omega) (by omega) (by omega) (by omega)))
  · obtain ⟨low, high, hfirst, hlow, hhigh⟩ :=
      beginChar_four (k := n / 262144) (m := n / 4096 % 64) (by omega) (by omega) (by omega) (by omega)
    exact .first hfirst (by omega) (.next hlow hhigh (by omega) (by omega)
      (.next (by omega) (by omega) (by omega) (by omega)
        (.final (by omega) (by omega) (by omega) (by omega))))

lemma Completes.decodeFrom_append (h : Completes p bytes c) (rest : Bytes) :
    decodeFrom p (bytes ++ rest) = c :: decodeFrom .start rest := by
  induction h with
  | last h => rw [singleton_append, decodeFrom, h]; rfl
  | more h _ ih => rw [cons_append, decodeFrom, h]; exact ih

lemma Completes.offsetsFrom_append (h : Completes p bytes c) (count : Nat) (rest : Bytes) :
    offsetsFrom p count (bytes ++ rest) = replicate bytes.length count ++ offsetsFrom .start (count + 1) rest := by
  induction h with
  | last h => rw [singleton_append, offsetsFrom, h]; rfl
  | more h _ ih => rw [cons_append, offsetsFrom, h]; exact congrArg (count :: ·) ih

lemma Completes.length_pos (h : Completes p bytes c) : 0 < bytes.length := by
  cases h <;> exact Nat.succ_pos _

lemma encode_cons (c : Char) (s : Text) : encode (c :: s) = encodeChar c ++ encode s := flatMap_cons

lemma decode_encode : decode (encode s) = s := by
  induction s with
  | nil => rfl
  | cons c s ih => rw [encode_cons, decode, (completes_encodeChar c).decodeFrom_append, ← decode, ih]

/-! ## The table of offsets -/

/-- The number of characters of a text whose encoding ends within the first `b` bytes. -/
def completed (s : Text) (b : Nat) : Nat := (range s.length).countP fun i => (encode (s.take (i + 1))).length ≤ b

lemma length_offsetsFrom (p : Pending) (count : Nat) (data : Bytes) :
    (offsetsFrom p count data).length = data.length + 1 := by
  induction data generalizing p count with
  | nil => rfl
  | cons b rest ih => rw [offsetsFrom, length_cons, ih, length_cons]

lemma offsetsFrom_of_isAscii {data : Bytes} (h : isAscii data) (count : Nat) :
    offsetsFrom .start count data = range' count (data.length + 1) := by
  induction data generalizing count with
  | nil => rfl
  | cons b rest ih =>
    rw [isAscii, all_cons, Bool.and_eq_true, decide_eq_true_eq] at h
    have hb : b.toNat < 0x80 := UInt8.lt_iff_toNat_lt.mp h.1
    have hstep : step .start b.toNat = ([Char.ofNat b.toNat], .start) := by rw [step, beginChar, if_pos hb]
    rw [offsetsFrom, hstep, range'_succ]
    exact congrArg (count :: ·) (ih h.2 (count + 1))

lemma completed_cons (c : Char) (s : Text) (b : Nat) :
    completed (c :: s) b = if (encodeChar c).length ≤ b then completed s (b - (encodeChar c).length) + 1 else 0 := by
  have htake : ∀ i, (encode ((c :: s).take (i + 1))).length = (encodeChar c).length + (encode (s.take i)).length := by
    intro i
    rw [take_succ_cons, encode_cons, length_append]
  have hempty : (encode []).length = 0 := rfl
  unfold completed
  simp only [length_cons, range_succ_eq_map, countP_cons, countP_map, htake, take_zero, hempty, Nat.add_zero,
    decide_eq_true_eq]
  split
  next hle =>
    congr 1
    refine countP_congr fun i _ => ?_
    simp only [Function.comp_apply, Nat.succ_eq_add_one, decide_eq_true_eq]
    omega
  next hlt =>
    rw [Nat.add_zero, countP_eq_zero]
    simp only [Function.comp_apply, decide_eq_true_eq]
    omega

lemma getElem?_offsetsFrom_encode (count b : Nat) (hb : b ≤ (encode s).length) :
    (offsetsFrom .start count (encode s))[b]? = some (count + completed s b) := by
  induction s generalizing count b with
  | nil =>
    obtain rfl := Nat.le_zero.mp hb
    rfl
  | cons c s ih =>
    rw [encode_cons, length_append] at hb
    rw [encode_cons, (completes_encodeChar c).offsetsFrom_append, completed_cons]
    split
    next hle =>
      rw [getElem?_append_right (by simpa using hle), length_replicate, ih (count + 1) _ (by omega)]
      congr 1
      omega
    next hlt =>
      rw [getElem?_append_left (by simpa using hlt), getElem?_replicate, if_pos (by omega)]
      rfl

/-- One more byte completes at most one more character. -/
lemma completed_succ_le (b : Nat) : completed s (b + 1) ≤ completed s b + 1 := by
  induction s generalizing b with
  | nil => exact Nat.zero_le _
  | cons c s ih =>
    rw [completed_cons, completed_cons]
    split
    next hle =>
      split
      next hle' =>
        rw [Nat.sub_add_comm hle']
        exact Nat.succ_le_succ (ih _)
      next hlt =>
        -- the byte is the last one of its character
        have hzero : completed s (b + 1 - (encodeChar c).length) = 0 := by
          rw [show b + 1 - (encodeChar c).length = 0 by omega]
          cases s with
          | nil => rfl
          | cons d s => rw [completed_cons, if_neg (Nat.not_le.mpr (completes_encodeChar d).length_pos)]
        omega
    next => exact Nat.zero_le _

lemma completed_append (pre : Text) (c : Char) (post : Text) {j : Nat} (hj : j < (encodeChar c).length) :
    completed (pre ++ c :: post) ((encode pre).length + j) = pre.length := by
  induction pre with
  | nil => rw [nil_append, completed_cons, if_neg (by simpa [encode] using hj)]; rfl
  | cons d pre ih =>
    rw [cons_append, completed_cons, encode_cons, length_append, if_pos (by omega), Nat.add_assoc,
      Nat.add_sub_cancel_left, ih, length_cons]

/-- The first byte before which `k` characters end is the one behind their encoding. -/
lemma length_takeWhile_offsetsFrom (count : Nat) {k : Nat} (hk : k ≤ s.length) :
    ((offsetsFrom .start count (encode s)).takeWhile (· < count + k)).length = (encode (s.take k)).length := by
  induction s generalizing count k with
  | nil =>
    obtain rfl := Nat.le_zero.mp hk
    simp [encode, offsetsFrom]
  | cons c s ih =>
    rw [encode_cons, (completes_encodeChar c).offsetsFrom_append]
    cases k with
    | zero =>
      obtain ⟨n, hn⟩ := Nat.exists_eq_succ_of_ne_zero (Nat.ne_of_gt (completes_encodeChar c).length_pos)
      rw [hn, replicate_succ, cons_append, takeWhile_cons_of_neg (by simp)]
      rfl
    | succ k =>
      rw [takeWhile_append_of_pos (by simp), length_append, length_replicate, Nat.add_comm k 1, ← Nat.add_assoc,
        ih (count + 1) (Nat.le_of_succ_le_succ hk), Nat.add_comm 1 k, take_succ_cons, encode_cons, length_append]

end Utf8

namespace ParsedText

open Utf8

/-- **Bytes and positions correspond.** The table of an encoded text has for each byte and the end the number of
characters completed before; it grows by at most one. The byte of a position is the length of the encoded text before
it, and a byte has the position of its character. -/
theorem bytes_correspond_to_positions (path s : Text) :
    let data := encode s
    let p := ofBytes path data
    p.document.text = s ∧
    p.offsets.length = data.length + 1 ∧
    (∀ b ≤ data.length, p.offsets[b]? = some (completed s b)) ∧
    (∀ b < data.length,
      p.offsets.getD b 0 ≤ p.offsets.getD (b + 1) 0 ∧ p.offsets.getD (b + 1) 0 ≤ p.offsets.getD b 0 + 1) ∧
    (∀ bytes, isAscii bytes = true → range (bytes.length + 1) = offsetsFrom .start 0 bytes) ∧
    (∀ q, p.byteOffsetAt q = (encode (p.document.getText ⟨.zero, q⟩)).length) ∧
    (∀ pre c post, s = pre ++ c :: post → ∀ j < (encodeChar c).length,
      p.positionAt ((encode pre).length + j : Nat) = p.document.positionAt pre.length) := by
  intro data p
  have htext : p.document.text = s := decode_encode s
  have htable : p.offsets = offsetsFrom .start 0 data := by
    change characterOffsets data = _
    unfold characterOffsets
    split
    next h => rw [offsetsFrom_of_isAscii h, range_eq_range']
    next => rfl
  have hentry : ∀ b ≤ data.length, p.offsets[b]? = some (completed s b) := fun b hb => by
    rw [htable, getElem?_offsetsFrom_encode s 0 b hb, Nat.zero_add]
  have hgetD : ∀ b ≤ data.length, p.offsets.getD b 0 = completed s b := fun b hb => by
    rw [getD_eq_getElem?_getD, hentry b hb, Option.getD_some]
  refine ⟨htext, by rw [htable, length_offsetsFrom], hentry, fun b hb => ?_, fun bytes h => ?_, fun q => ?_, ?_⟩
  · rw [hgetD b (Nat.le_of_lt hb), hgetD (b + 1) hb]
    refine ⟨countP_mono_left fun _ _ h => ?_, completed_succ_le s b⟩
    exact decide_eq_true (Nat.le_succ_of_le (of_decide_eq_true h))
  · rw [offsetsFrom_of_isAscii h, range_eq_range']
  · have hle := p.document.offsetAt_le_length q
    rw [htext] at hle
    have hfirst := length_takeWhile_offsetsFrom s 0 hle
    rw [Nat.zero_add, ← htable] at hfirst
    rwa [TextDocument.getText, p.document.offsetAt_zero, htext]
  · rintro pre c post rfl j hj
    have hle : (encode pre).length + j ≤ data.length := by
      rw [show data = encode pre ++ encode (c :: post) from flatMap_append, encode_cons, length_append, length_append]
      omega
    have hmin : min ((((encode pre).length + j : Nat) : Int).toNat) p.data.length = (encode pre).length + j :=
      Nat.min_eq_left hle
    rw [positionAt]
    simp only [hmin]
    rw [hgetD _ hle, completed_append pre c post hj]

end ParsedText

end CppScaffold
