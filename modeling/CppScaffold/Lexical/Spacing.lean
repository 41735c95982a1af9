import CppScaffold.Lexical.Mask

/-!
# Spacing of source text

Texts that differ only in their spacing have one normal form: blanks are dropped, but for one space between two words.
-/

namespace CppScaffold.Spacing

open Text

/-- The normal form of a text after the character `prev`, which is the last one that is no blank;
`gap` tells that blanks stand between it and the text. -/
def normalizeFrom (prev : Option Char) (gap : Bool) : Text → Text
  | [] => []
  | c :: rest =>
    if isBlank c then normalizeFrom prev true rest
    else if gap && prev.any isWordChar && isWordChar c then
      ' ' :: c :: normalizeFrom (some c) false rest
    else c :: normalizeFrom (some c) false rest

/-- A text without blanks, except for one space where blanks divide two word characters. -/
def normalize (t : Text) : Text :=
  normalizeFrom none false t

def normalizeSource (t : Text) : Text :=
  trim (normalize (Mask.removeAttributes (Mask.removeComments t)))

def collapse (t : Text) : Text :=
  replaceAll Recognizer.blanks1 (fun _ => [' ']) t

end CppScaffold.Spacing
