import ModularEncryption.Text.Blank
import ModularEncryption.Text.Utf8

/-! # Bytes shown as text

Key metadata are bytes, but often a readable name. `shown` gives the text if it is readable, and the
number of bytes otherwise. -/

namespace ModularEncryption.Text

/-- The text of bytes, or their number if they are no text or have control characters. -/
def shown (bs : Bytes) : String :=
  match Utf8.decode bs with
  | .ok s => if s.toList.any isControl then s!"<{bs.length} bytes>" else s
  | .error _ => s!"<{bs.length} bytes>"

end ModularEncryption.Text
