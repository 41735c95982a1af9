import CppScaffold.Text.Quoted
import CppScaffold.Text.Utf8

/-!
# Message digests

The MD5 digest of a text in base sixteen, which identifies the text of cached symbols and names cache files.
-/

namespace CppScaffold.Digest

def rotations : List UInt32 :=
  let round (a b c d : UInt32) := (List.replicate 4 [a, b, c, d]).flatten
  round 7 12 17 22 ++ round 5 9 14 20 ++ round 4 11 16 23 ++ round 6 10 15 21

/-- The constants added in the sixty-four steps: the first 32 bits of the fraction of |sin(i + 1)|. -/
def constants : List UInt32 := [
  0xd76aa478, 0xe8c7b756, 0x242070db, 0xc1bdceee, 0xf57c0faf, 0x4787c62a, 0xa8304613, 0xfd469501,
  0x698098d8, 0x8b44f7af, 0xffff5bb1, 0x895cd7be, 0x6b901122, 0xfd987193, 0xa679438e, 0x49b40821,
  0xf61e2562, 0xc040b340, 0x265e5a51, 0xe9b6c7aa, 0xd62f105d, 0x02441453, 0xd8a1e681, 0xe7d3fbc8,
  0x21e1cde6, 0xc33707d6, 0xf4d50d87, 0x455a14ed, 0xa9e3e905, 0xfcefa3f8, 0x676f02d9, 0x8d2a4c8a,
  0xfffa3942, 0x8771f681, 0x6d9d6122, 0xfde5380c, 0xa4beea44, 0x4bdecfa9, 0xf6bb4b60, 0xbebfbc70,
  0x289b7ec6, 0xeaa127fa, 0xd4ef3085, 0x04881d05, 0xd9d4d039, 0xe6db99e5, 0x1fa27cf8, 0xc4ac5665,
  0xf4292244, 0x432aff97, 0xab9423a7, 0xfc93a039, 0x655b59c3, 0x8f0ccc92, 0xffeff47d, 0x85845dd1,
  0x6fa87e4f, 0xfe2ce6e0, 0xa3014314, 0x4e0811a1, 0xf7537e82, 0xbd3af235, 0x2ad7d2bb, 0xeb86d391]

structure State where
  a : UInt32
  b : UInt32
  c : UInt32
  d : UInt32

def State.initial : State := ⟨0x67452301, 0xefcdab89, 0x98badcfe, 0x10325476⟩

def rotateLeft (x n : UInt32) : UInt32 :=
  (x <<< n) ||| (x >>> (32 - n))

def State.step (block : Array UInt32) (s : State) (i : Nat) (k r : UInt32) : State :=
  let (f, g) :=
    if i < 16 then ((s.b &&& s.c) ||| (~~~s.b &&& s.d), i)
    else if i < 32 then ((s.d &&& s.b) ||| (~~~s.d &&& s.c), (5 * i + 1) % 16)
    else if i < 48 then (s.b ^^^ s.c ^^^ s.d, (3 * i + 5) % 16)
    else (s.c ^^^ (s.b ||| ~~~s.d), (7 * i) % 16)
  let f := f + s.a + k + block.getD g 0
  ⟨s.d, s.b + rotateLeft f r, s.b, s.c⟩

def State.absorb (s : State) (block : Array UInt32) : State :=
  let steps := (List.range 64).zip (constants.zip rotations)
  let t := steps.foldl (fun t (i, k, r) => t.step block i k r) s
  ⟨s.a + t.a, s.b + t.b, s.c + t.c, s.d + t.d⟩

def wordBytes (w : UInt32) : Bytes :=
  [w.toUInt8, (w >>> 8).toUInt8, (w >>> 16).toUInt8, (w >>> 24).toUInt8]

def words : Bytes → List UInt32
  | a :: b :: c :: d :: rest =>
    (a.toUInt32 ||| (b.toUInt32 <<< 8) ||| (c.toUInt32 <<< 16) ||| (d.toUInt32 <<< 24)) :: words rest
  | _ => []

/-- The message followed by a one bit, zeros and its length in bits, so that it fills whole blocks. -/
def pad (data : Bytes) : Bytes :=
  let n := data.length
  let zeros := (119 - n % 64) % 64
  let bits := 8 * n
  let size : Bytes := (List.range 8).map fun i => (bits >>> (8 * i)).toUInt8
  data ++ 0x80 :: List.replicate zeros 0 ++ size

def absorbBlocks : Nat → State → List UInt32 → State
  | 0, s, _ => s
  | n + 1, s, ws =>
    if ws.isEmpty then s else absorbBlocks n (s.absorb (ws.take 16).toArray) (ws.drop 16)

def ofBytes (data : Bytes) : Text :=
  let ws := words (pad data)
  let s := absorbBlocks ws.length State.initial ws
  ([s.a, s.b, s.c, s.d].flatMap wordBytes).flatMap fun b => Text.hex 2 b.toNat

def ofText (t : Text) : Text :=
  ofBytes (Utf8.encode t)

end CppScaffold.Digest
