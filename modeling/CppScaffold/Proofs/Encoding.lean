import CppScaffold.Text.Utf8
import Mathlib.Data.List.Forall2

/-!
# The bytes of each character

Reading a file cuts its bytes into `pieces`, each the encoding of its character or read as the replacement character
(`forall₂_readAs_pieces`).
-/

namespace CppScaffold.Utf8

open Text List

/-! ## Cutting -/

/-- The pieces that a first byte completes, and the bytes that are held back then. -/
def beginPieces (b : UInt8) : List Bytes × Bytes :=
  if (beginChar b.toNat).1.isEmpty then ([], [b]) else ([[b]], [])

/-- The pieces that one byte completes after the bytes `held`, and the bytes that are held back then. -/
def stepPieces (p : Pending) (held : Bytes) (b : UInt8) : List Bytes × Bytes :=
  match p with
  | .start => beginPieces b
  | .surrogate => (held.map ([·]) ++ (beginPieces b).1, (beginPieces b).2)
  | .within missing _ low high =>
    if low ≤ b.toNat && b.toNat ≤ high then
      if missing = 0 then ([held ++ [b]], []) else ([], held ++ [b])
    else (held :: (beginPieces b).1, (beginPieces b).2)

/-- The pieces of the bytes `held` and those that follow them. -/
def piecesFrom (p : Pending) (held : Bytes) : Bytes → List Bytes
  | [] =>
    match p with
    | .start => []
    | .within .. => [held]
    | .surrogate => held.map ([·])
  | b :: rest =>
    let (ps, held) := stepPieces p held b
    ps ++ piecesFrom (step p b.toNat).2 held rest

/-- The bytes of a file, cut into those of each character. -/
def pieces (data : Bytes) : List Bytes :=
  piecesFrom .start [] data

/-- The bytes are read as the character: they are its encoding, or they are few and encode nothing. -/
def ReadAs (bytes : Bytes) (c : Char) : Prop :=
  bytes = encodeChar c ∨ (c = replacement ∧ bytes ≠ [] ∧ bytes.length ≤ 3)

/-! ## Encodings -/

variable {b a : UInt8}

lemma toUInt8_eq {n : Nat} (h : n = b.toNat) : n.toUInt8 = b := by
  rw [h]
  exact UInt8.ofNat_toNat

lemma toNat_ofNat {n : Nat} (h : n < 0xd800 ∨ (0xdfff < n ∧ n < 0x110000)) : (Char.ofNat n).toNat = n := by
  rw [Char.ofNat, dif_pos h]
  rfl

lemma encodeChar_one (ha : a.toNat < 0x80) : encodeChar (Char.ofNat a.toNat) = [a] := by
  rw [encodeChar, toNat_ofNat (by omega), if_pos ha, toUInt8_eq rfl]

variable {value : Nat} {held : Bytes}

/-! ## What is held back -/

/-- The bytes that are held back in each state of the decoder. -/
inductive Holds : Pending → Bytes → Prop
  | start : Holds .start []
  | surrogate (a b : UInt8) : Holds .surrogate [a, b]
  | firstOfTwo {a : UInt8} (ha : 0xc2 ≤ a.toNat ∧ a.toNat < 0xe0) :
    Holds (.within 0 (a.toNat - 0xc0) 0x80 0xbf) [a]
  | firstOfThree {a : UInt8} {low : Nat} (ha : 0xe0 ≤ a.toNat ∧ a.toNat < 0xf0) (hlow : 0x80 ≤ low)
    (hfirst : a.toNat = 0xe0 → 0xa0 ≤ low) : Holds (.within 1 (a.toNat - 0xe0) low 0xbf) [a]
  | firstOfFour {a : UInt8} {low high : Nat} (ha : 0xf0 ≤ a.toNat ∧ a.toNat ≤ 0xf4) (hlow : 0x80 ≤ low)
    (hhigh : high ≤ 0xbf) (hfirst : a.toNat = 0xf0 → 0x90 ≤ low) (hlast : a.toNat = 0xf4 → high ≤ 0x8f) :
    Holds (.within 2 (a.toNat - 0xf0) low high) [a]
  | twoOfThree {a b : UInt8} {value : Nat} (ha : 0xe0 ≤ a.toNat ∧ a.toNat < 0xf0)
    (hb : 0x80 ≤ b.toNat ∧ b.toNat ≤ 0xbf) (hvalue : value = (a.toNat - 0xe0) * 64 + (b.toNat - 0x80))
    (hlow : 0x20 ≤ value) (hsurrogate : value < 0x360 ∨ 0x380 ≤ value) : Holds (.within 0 value 0x80 0xbf) [a, b]
  | twoOfFour {a b : UInt8} {value : Nat} (ha : 0xf0 ≤ a.toNat ∧ a.toNat ≤ 0xf4)
    (hb : 0x80 ≤ b.toNat ∧ b.toNat ≤ 0xbf) (hvalue : value = (a.toNat - 0xf0) * 64 + (b.toNat - 0x80))
    (hlow : 0x10 ≤ value) (hhigh : value < 0x110) : Holds (.within 1 value 0x80 0xbf) [a, b]
  | threeOfFour {a b c : UInt8} {value : Nat} (ha : 0xf0 ≤ a.toNat ∧ a.toNat ≤ 0xf4)
    (hb : 0x80 ≤ b.toNat ∧ b.toNat ≤ 0xbf) (hc : 0x80 ≤ c.toNat ∧ c.toNat ≤ 0xbf)
    (hvalue : value = ((a.toNat - 0xf0) * 64 + (b.toNat - 0x80)) * 64 + (c.toNat - 0x80)) (hlow : 0x400 ≤ value)
    (hhigh : value < 0x4400) : Holds (.within 0 value 0x80 0xbf) [a, b, c]

lemma beginChar_cases (b : UInt8) : (∃ c, beginChar b.toNat = ([c], .start) ∧ ReadAs [b] c) ∨
    ∃ p, beginChar b.toNat = ([], p) ∧ Holds p [b] := by
  have hbroken : ReadAs [b] replacement := .inr ⟨rfl, by simp, by simp⟩
  fun_cases beginChar b.toNat with
  | case1 h => exact .inl ⟨_, rfl, .inl (encodeChar_one h).symm⟩
  | case2 | case9 => exact .inl ⟨_, rfl, hbroken⟩
  | case3 => exact .inr ⟨_, rfl, .firstOfTwo (by omega)⟩
  | case4 _ _ _ h | case5 _ _ _ h =>
    rw [beq_iff_eq] at h
    exact .inr ⟨_, rfl, .firstOfThree (by omega) (by omega) (by omega)⟩
  | case6 _ _ _ _ _ h | case7 _ _ _ _ _ h | case8 _ _ _ _ _ _ _ h =>
    rw [beq_iff_eq] at h
    exact .inr ⟨_, rfl, .firstOfFour (by omega) (by omega) (by omega) (by omega) (by omega)⟩

/-- What reading does with some bytes: the pieces completed are read as the characters completed, no byte gets lost,
and what is held back fits the next state. -/
structure Reads (bytes : Bytes) (cut : List Bytes × Bytes) (read : Text × Pending) : Prop where
  readAs : List.Forall₂ ReadAs cut.1 read.1
  flatten : cut.1.flatten ++ cut.2 = bytes
  holds : Holds read.2 cut.2

lemma reads_begin (b : UInt8) : Reads [b] (beginPieces b) (beginChar b.toNat) := by
  rcases beginChar_cases b with ⟨c, hbegin, hread⟩ | ⟨p, hbegin, hholds⟩
  · rw [beginPieces, hbegin]
    exact ⟨.cons hread .nil, rfl, .start⟩
  · rw [beginPieces, hbegin]
    exact ⟨.nil, rfl, hholds⟩

lemma Reads.giveUp {ws : List Bytes} {cs : Text} (h : List.Forall₂ ReadAs ws cs) :
    Reads (ws.flatten ++ [b]) (ws ++ (beginPieces b).1, (beginPieces b).2)
      (cs ++ (beginChar b.toNat).1, (beginChar b.toNat).2) where
  readAs := rel_append h (reads_begin b).readAs
  flatten := by rw [flatten_append, append_assoc, (reads_begin b).flatten]
  holds := (reads_begin b).holds

lemma Holds.readAs_replacement {missing low high : Nat}
    (h : Holds (.within missing value low high) held) : ReadAs held replacement := by
  cases h <;> exact .inr ⟨rfl, by simp, by simp⟩

lemma reads_within {missing low high : Nat} (h : Holds (.within missing value low high) held) (hlow : low
    ≤ b.toNat) (hhigh : b.toNat ≤ high) : Reads (held ++ [b]) (stepPieces (.within missing value low high) held b) (step
    (.within missing value low high) b.toNat) := by
  have hnext : (low ≤ b.toNat && b.toNat ≤ high) := by simp [hlow, hhigh]
  rw [stepPieces, step, if_pos hnext, if_pos hnext]
  have complete : ∀ {c : Char}, encodeChar c = held ++ [b] → Reads (held ++ [b]) ([held ++ [b]], []) ([c], .start) :=
    fun hc => ⟨.cons (.inl hc.symm) .nil, by simp, .start⟩
  cases h with
  | @firstOfTwo a ha =>
    refine complete ?_
    rw [encodeChar, toNat_ofNat (by omega), if_neg (by omega), if_pos (by omega), toUInt8_eq (b := a) (by omega),
      toUInt8_eq (b := b) (by omega)]
    rfl
  | @twoOfThree a c _ ha hc hvalue hlow' hsurrogate =>
    refine complete ?_
    rw [encodeChar, toNat_ofNat (by omega), if_neg (by omega), if_neg (by omega), if_pos (by omega),
      toUInt8_eq (b := a) (by omega), toUInt8_eq (b := c) (by omega), toUInt8_eq (b := b) (by omega)]
    rfl
  | @threeOfFour a c d _ ha hc hd hvalue hlow' hhigh' =>
    refine complete ?_
    rw [encodeChar, toNat_ofNat (by omega), if_neg (by omega), if_neg (by omega), if_neg (by omega),
      toUInt8_eq (b := a) (by omega), toUInt8_eq (b := c) (by omega), toUInt8_eq (b := d) (by omega),
      toUInt8_eq (b := b) (by omega)]
    rfl
  | firstOfThree ha hlow' hfirst =>
    refine ⟨.nil, rfl, ?_⟩
    dsimp only
    split
    · exact .surrogate _ _
    · next hrange =>
      simp only [Bool.and_eq_true, decide_eq_true_eq] at hrange
      exact .twoOfThree ha (by omega) rfl (by omega) (by omega)
  | firstOfFour ha hlow' hhigh' hfirst hlast =>
    refine ⟨.nil, rfl, ?_⟩
    dsimp only
    rw [if_neg (by simp only [Bool.and_eq_true, decide_eq_true_eq]; omega)]
    exact .twoOfFour ha (by omega) rfl (by omega) (by omega)
  | twoOfFour ha hb hvalue hlow' hhigh' =>
    refine ⟨.nil, rfl, ?_⟩
    dsimp only
    rw [if_neg (by simp only [Bool.and_eq_true, decide_eq_true_eq]; omega)]
    exact .threeOfFour ha hb (by omega) (by rw [hvalue]) (by omega) (by omega)

lemma reads_step {p : Pending} (h : Holds p held) (b : UInt8) :
    Reads (held ++ [b]) (stepPieces p held b) (step p b.toNat) := by
  cases p with
  | start =>
    cases h
    exact reads_begin b
  | surrogate =>
    cases h with
    | surrogate a a' =>
      have hbroken : ∀ x : UInt8, ReadAs [x] replacement := fun x => .inr ⟨rfl, by simp, by simp⟩
      have hpieces : List.Forall₂ ReadAs [[a], [a']] [replacement, replacement] :=
        .cons (hbroken a) (.cons (hbroken a') .nil)
      exact Reads.giveUp hpieces
  | within missing value low high =>
    by_cases hb : low ≤ b.toNat ∧ b.toNat ≤ high
    · exact reads_within h hb.1 hb.2
    · have hb' : ¬ (low ≤ b.toNat && b.toNat ≤ high) := by simpa using hb
      rw [stepPieces, step, if_neg hb', if_neg hb']
      have := Reads.giveUp (b := b) (.cons h.readAs_replacement .nil)
      simpa using this

/-! ## Whole files -/

/-- The pieces of the bytes that follow a state: none is lost, and each is read as its character. -/
lemma piecesFrom_reads {p : Pending} (h : Holds p held) (data : Bytes) : (piecesFrom p held data).flatten = held ++
    data ∧ List.Forall₂ ReadAs (piecesFrom p held data) (decodeFrom p data) := by
  induction data generalizing p held with
  | nil =>
    cases h with
    | start => exact ⟨rfl, .nil⟩
    | surrogate a b => exact ⟨rfl, .cons (.inr ⟨rfl, by simp, by simp⟩) (.cons (.inr ⟨rfl, by simp, by simp⟩) .nil)⟩
    | _ => exact ⟨by simp [piecesFrom], .cons (.inr ⟨rfl, by simp, by simp⟩) .nil⟩
  | cons b rest ih =>
    have hstep := reads_step h b
    obtain ⟨hflatten, hreads⟩ := ih hstep.holds
    constructor
    · rw [piecesFrom, flatten_append, hflatten, ← append_assoc, hstep.flatten, append_assoc, singleton_append]
    · rw [decodeFrom]
      exact rel_append hstep.readAs hreads

lemma flatten_pieces (data : Bytes) : (pieces data).flatten = data :=
  (piecesFrom_reads .start data).1

/-- Each piece of a file is read as one character of its text. -/
lemma forall₂_readAs_pieces (data : Bytes) : List.Forall₂ ReadAs (pieces data) (decode data) :=
  (piecesFrom_reads .start data).2

lemma length_pieces (data : Bytes) : (pieces data).length = (decode data).length :=
  (forall₂_readAs_pieces data).length_eq

lemma ReadAs.length_le {bytes : Bytes} {c : Char} (h : ReadAs bytes c) : bytes.length ≤ (encodeChar c).length := by
  rcases h with rfl | ⟨rfl, _, hle⟩
  · exact Nat.le_refl _
  · exact hle

end CppScaffold.Utf8
