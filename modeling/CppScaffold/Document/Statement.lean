import CppScaffold.Document.Text
import CppScaffold.Lexical.Types

/-!
# Ends of statements

The reported range of a symbol often ends before the semicolon of its statement.
-/

namespace CppScaffold.TextDocument

/-- The end of the statement whose last symbol ends at the given position: after the semicolons that
follow, if there are any. -/
def statementEnd (d : TextDocument) (p : Position) : Position :=
  let offset := d.offsetAt p
  match Types.statementEnd (d.text.drop offset) with
  | 0 => p
  | n => d.positionAt (offset + n)

end CppScaffold.TextDocument
