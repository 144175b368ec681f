import Changelog.Text.Basic

/-! # Bytes of a text

Documents are stored as UTF-8.
-/

namespace Changelog.Text

/-- The text that well-formed UTF-8 bytes stand for. -/
def decode? (bytes : ByteArray) : Option Text := (String.fromUTF8? bytes).map String.toList

def encode (text : Text) : ByteArray := (String.ofList text).toUTF8

end Changelog.Text
