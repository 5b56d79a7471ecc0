import Wireform.Derive.FieldShape

/-!
# Parts of expansions

What the three derivations write in common: the head of an implementation, the read of a member
through `self`, and the traits they name.
-/
namespace Wireform.Derive

/-- The trait of encoders. -/
def encoderTrait : List Token := src "bitwire::Encoder"

/-- The trait of decoders. -/
def decoderTrait : List Token := src "bitwire::Decoder"

/-- A type seen through a trait, up to the item that is looked up there. -/
def through (type trait : List Token) : List Token :=
  angled (type ++ .word "as" :: trait) ++ pathSeparator

/-- An implementation of a trait for an item. -/
def Item.implementation (item : Item) (trait : List Token) (body : List Token) : List Token :=
  .word "impl" :: item.implGenerics ++ trait ++ .word "for" :: .word item.name :: item.typeGenerics
    ++ item.conditions ++ braced body

/-- A member of the value at hand. -/
def FieldShape.ofSelf (shape : FieldShape) : List Token := src "self." ++ [shape.member.token]

/-- A literal of a slot. -/
def slotToken (slot : Nat) : Token := numeral slot "u16"

/-- The bitset type of so many bytes. -/
def bitsetType (bytes : Nat) : List Token :=
  src "bitwire::bitset::NullBitset::" ++ angled [numeral bytes "usize"]

/-- A statement that uses the buffer and the cursor, so that neither is reported as unused. -/
def touchParameters : List Token := src "let _ = (&buf, &cursor);"

/-- The variant of an enumeration, seen from inside. -/
def selfVariant (name : String) : List Token := src "Self::" ++ [.word name]

end Wireform.Derive
