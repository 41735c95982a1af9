import CppScaffold.Text.Basic

/-!
# UTF-8

Bytes that encode no character are read as one replacement character for each longest part that could have begun an
encoding.
-/

namespace CppScaffold

abbrev Bytes := List UInt8

namespace Utf8

def replacement : Char := '�'

def encodeChar (c : Char) : Bytes :=
  let n := c.toNat
  if n < 0x80 then [n.toUInt8]
  else if n < 0x800 then [(0xc0 + n / 64).toUInt8, (0x80 + n % 64).toUInt8]
  else if n < 0x10000 then
    [(0xe0 + n / 4096).toUInt8, (0x80 + n / 64 % 64).toUInt8, (0x80 + n % 64).toUInt8]
  else
    [(0xf0 + n / 262144).toUInt8, (0x80 + n / 4096 % 64).toUInt8, (0x80 + n / 64 % 64).toUInt8,
      (0x80 + n % 64).toUInt8]

def encode (t : Text) : Bytes :=
  t.flatMap encodeChar

inductive Pending where
  | start
  /-- The bytes read so far have the value `value`; `missing + 1` more bytes are needed, of which the
  next one must lie between `low` and `high`. -/
  | within (missing value low high : Nat)
  /-- Two bytes were read that only a surrogate could begin with; they encode nothing, which is known
  for certain when the next byte comes. -/
  | surrogate
  deriving DecidableEq, Repr

def beginChar (b : Nat) : Text × Pending :=
  if b < 0x80 then ([Char.ofNat b], .start)
  else if b < 0xc2 then ([replacement], .start)
  else if b < 0xe0 then ([], .within 0 (b - 0xc0) 0x80 0xbf)
  else if b == 0xe0 then ([], .within 1 (b - 0xe0) 0xa0 0xbf)
  else if b < 0xf0 then ([], .within 1 (b - 0xe0) 0x80 0xbf)
  else if b == 0xf0 then ([], .within 2 (b - 0xf0) 0x90 0xbf)
  else if b < 0xf4 then ([], .within 2 (b - 0xf0) 0x80 0xbf)
  else if b == 0xf4 then ([], .within 2 (b - 0xf0) 0x80 0x8f)
  else ([replacement], .start)

def step (p : Pending) (b : Nat) : Text × Pending :=
  match p with
  | .start => beginChar b
  | .surrogate =>
    let (cs, p) := beginChar b
    (replacement :: replacement :: cs, p)
  | .within missing value low high =>
    if low ≤ b && b ≤ high then
      let value := value * 64 + (b - 0x80)
      match missing with
      | 0 => ([Char.ofNat value], .start)
      | missing + 1 =>
        ([], if 0x360 ≤ value && value < 0x380 then .surrogate else .within missing value 0x80 0xbf)
    else
      let (cs, p) := beginChar b
      (replacement :: cs, p)

def decodeFrom (p : Pending) : Bytes → Text
  | [] =>
    match p with
    | .start => []
    | .within .. => [replacement]
    | .surrogate => [replacement, replacement]
  | b :: rest =>
    let (cs, p) := step p b.toNat
    cs ++ decodeFrom p rest

def decode (data : Bytes) : Text :=
  decodeFrom .start data

def offsetsFrom (p : Pending) (count : Nat) : Bytes → List Nat
  | [] => [count]
  | b :: rest =>
    let (cs, p) := step p b.toNat
    count :: offsetsFrom p (count + cs.length) rest

def isAscii (data : Bytes) : Bool := data.all (· < 0x80)

/-- How many characters are read before each byte and before the end. Where every byte is a character of
its own, nothing has to be decoded. -/
def characterOffsets (data : Bytes) : List Nat :=
  if isAscii data then List.range (data.length + 1) else offsetsFrom .start 0 data

def decode? (data : Bytes) : Option Text :=
  let t := decode data
  if encode t = data then some t else none

end Utf8

end CppScaffold
