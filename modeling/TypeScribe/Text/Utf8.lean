/-!
# UTF-8

Source files are bytes, and offsets into them count bytes. `encode` and `decode?` pass between a
text and its bytes; decoding is strict, so surrogates, overlong forms and code points beyond
U+10FFFF are refused.
-/

namespace TypeScribe.Text

/-- The bytes of a text. -/
def encode (text : String) : List UInt8 := text.toUTF8.toList

/-- The text that a list of bytes encodes, if it encodes one. -/
def decode? (bytes : List UInt8) : Option String := String.fromUTF8? ⟨bytes.toArray⟩

/-- The bytes from `start` up to `stop`, cut at the end of the list. -/
def byteSlice (bytes : List UInt8) (start stop : Nat) : List UInt8 :=
  (bytes.drop start).take (stop - start)

end TypeScribe.Text
