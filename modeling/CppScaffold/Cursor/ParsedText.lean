import CppScaffold.Document.Text

/-!
# Byte offsets

A parser counts bytes, documents count characters. The table of character offsets leads from one to the
other.
-/

namespace CppScaffold

structure ParsedText where
  data : Bytes
  document : TextDocument
  offsets : List Nat

namespace ParsedText

def ofBytes (path : Text) (data : Bytes) : ParsedText :=
  ⟨data, ⟨Uri.ofPath path, Utf8.decode data, 0⟩, Utf8.characterOffsets data⟩

def positionAt (p : ParsedText) (offset : Int) : Position :=
  let byte := min offset.toNat p.data.length
  p.document.positionAt (p.offsets.getD byte 0)

def byteOffsetAt (p : ParsedText) (position : Position) : Nat :=
  let offset := p.document.offsetAt position
  (p.offsets.takeWhile (· < offset)).length

end ParsedText

end CppScaffold
