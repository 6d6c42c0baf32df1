import YulTree.Text.Basic

/-!
# Bytes of a text

The UTF-8 form of a text, and back.  Decoding is strict: it refuses overlong forms,
surrogates and values above the last code point.
-/

namespace YulTree

abbrev Bytes := List UInt8

namespace Text

/-- The UTF-8 form of a text. -/
def toBytes (text : Text) : Bytes := text.flatMap String.utf8EncodeChar

/-- The text with a given UTF-8 form, if there is one. -/
def ofBytes? (bytes : Bytes) : Option Text :=
  bytes.toByteArray.utf8Decode?.map Array.toList

/-- Decoding undoes encoding. -/
@[simp]
theorem ofBytes?_toBytes (text : Text) : ofBytes? (toBytes text) = some text := by
  have decoded := List.utf8Decode?_utf8Encode (l := text)
  simp only [ofBytes?, toBytes]
  rw [show (text.flatMap String.utf8EncodeChar).toByteArray = text.utf8Encode from rfl,
    decoded]
  rfl

end Text

end YulTree
