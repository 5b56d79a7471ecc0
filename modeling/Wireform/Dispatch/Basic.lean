import Wireform.Value

/-!
# Values of several types

Where one buffer may hold values of different types, a value is written behind the one-byte tag of
its type, and a null value is the tag 0 alone.  A `WireType` is a type that can take part: its name,
by which it is told from others, and its codec.
-/
namespace Wireform

/-- A type that dispatch can know. -/
structure WireType where
  name : String
  codec : Codec Value

/-- A value together with its type. -/
structure AnyValue where
  type : WireType
  value : Value

/-- The tag of a null value. -/
def nullTag : Nat := 0

/-- Reads a tag. -/
def readTag : Reader Nat := readByte

/-- The size of a value behind its tag, or of a null. -/
def taggedSize (codec : Codec Value) : Option Value → Nat
  | none => 1
  | some value => 1 + codec.size value

/-- Writes a value behind its tag, or a null. -/
def writeTagged (tag : Nat) (codec : Codec Value) : Option Value → Writer
  | none => writeByte nullTag
  | some value => do
    writeByte tag
    codec.write value

end Wireform
