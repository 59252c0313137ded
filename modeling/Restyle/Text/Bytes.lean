/-!
# Bytes of a text

Offsets into a module count bytes of its encoding.
-/

namespace Restyle.Text

/-- The encoding of a text. -/
def encode (s : String) : List UInt8 :=
  s.toUTF8.toList

/-- The text that bytes encode. -/
def decode? (bytes : List UInt8) : Option String :=
  String.fromUTF8? ⟨bytes.toArray⟩

/-- The bytes from `start` up to `stop`, both held within the text. -/
def sliceBytes (bytes : List UInt8) (start stop : Nat) : List UInt8 :=
  (bytes.take stop).drop start

/-- Byte of a line break. -/
def lineBreak : UInt8 := 0x0A

/-- Bytes of white space. -/
def isBlankByte (b : UInt8) : Bool :=
  b == 0x20 || (0x09 ≤ b && b ≤ 0x0D)

end Restyle.Text
