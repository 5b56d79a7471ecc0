import Wireform.Codec.Basic
import Wireform.Schema.Primitive

/-!
# Codecs of enumerations

A fieldless enumeration is written as an integer of its width.  A `Variant` is a name and a
discriminant; a value is the discriminant.

The writer casts the discriminant to the width.  The reader compares what it reads with the cast
discriminants in the order of their declaration and takes the first that agrees; an integer that
agrees with none is reported, as a signed eight-byte number, under the enumeration's name.
-/
namespace Wireform

/-- A variant of an enumeration. -/
structure Variant where
  name : String
  discriminant : Int
  deriving DecidableEq, Repr

/-- A fieldless enumeration. -/
structure Enumeration where
  name : String
  repr : Schema.IntRepr
  variants : List Variant
  deriving DecidableEq, Repr

namespace Enumeration

/-- The variant that an integer of the enumeration's width stands for. -/
def variantOf? (e : Enumeration) (n : Int) : Option Variant :=
  e.variants.find? fun v => e.repr.format.wrap v.discriminant == n

/-- Reads a variant. -/
def read (e : Enumeration) : Reader Int := do
  let n ← readInt e.repr.format
  match e.variantOf? n with
  | some v => pure v.discriminant
  | none => throw (.wire (.unknownDiscriminant (IntFormat.i64.wrap n) e.name))

/-- The codec of an enumeration. -/
def codec (e : Enumeration) : Codec Int :=
  Codec.ofWidth e.repr.size (fun n => writeInt e.repr.format (e.repr.format.wrap n)) e.read

end Enumeration

end Wireform
