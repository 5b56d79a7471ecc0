import Wireform.Cursor

/-!
# Nullability bitsets

A record with nullable fields starts with one bit per such field.  Slots are numbered from 1 in
the order of the nullable fields; slot `s` is bit `(s - 1) % 8` of byte `(s - 1) / 8`, and a set
bit means that the field is null.

The bits are held as one bit vector, of which the bytes on the wire are the little-endian form; so
the bit of slot `s` is simply bit `s - 1`.  A slot that is 0 or lies beyond the last bit has no
position, and every operation on it is refused.
-/
namespace Wireform

/-- How many bytes hold one bit for each of `fields` nullable fields. -/
def bitsetSize (fields : Nat) : Nat := (fields + 7) / 8

/-- A bitset of `size` bytes. -/
structure NullBitset (size : Nat) where
  bits : BitVec (8 * size)
  deriving DecidableEq, Repr

namespace NullBitset

variable {size : Nat}

/-- The bitset in which every field is present. -/
def empty : NullBitset size := ⟨0⟩

/-- The bit that belongs to a slot. -/
def position? (size slot : Nat) : Option Nat :=
  if 1 ≤ slot ∧ slot ≤ 8 * size then some (slot - 1) else none

/-- Marks the field of `slot` as null. -/
def setNull? (set : NullBitset size) (slot : Nat) : Option (NullBitset size) := do
  let i ← position? size slot
  pure ⟨set.bits ||| BitVec.twoPow (8 * size) i⟩

/-- Marks the field of `slot` as present. -/
def clear? (set : NullBitset size) (slot : Nat) : Option (NullBitset size) := do
  let i ← position? size slot
  pure ⟨set.bits &&& ~~~(BitVec.twoPow (8 * size) i)⟩

/-- Marks the field of `slot` as null or present. -/
def set? (set : NullBitset size) (slot : Nat) (isNull : Bool) : Option (NullBitset size) :=
  if isNull then set.setNull? slot else set.clear? slot

/-- Whether the field of `slot` is null. -/
def isNull? (set : NullBitset size) (slot : Nat) : Option Bool := do
  let i ← position? size slot
  pure (set.bits.getLsbD i)

/-- The bytes of the bitset. -/
def toBytes (set : NullBitset size) : List UInt8 :=
  littleEndian size set.bits.toNat

/-- The bitset whose bytes are given. -/
def ofBytes (bytes : List UInt8) : NullBitset size :=
  ⟨BitVec.ofNat (8 * size) (ofLittleEndian bytes)⟩

/-- Copies the bitset to the cursor; a bitset without bytes touches nothing. -/
def write (set : NullBitset size) : Writer :=
  if size = 0 then pure () else writeBytes set.toBytes

/-- Reads a bitset; one without bytes touches nothing. -/
def read : Reader (NullBitset size) :=
  if size = 0 then pure empty
  else do
    let bytes ← readBytes size
    pure (ofBytes bytes)

/-- Whether a slot's field is null, as part of a read: a slot without a position is an access out
of bounds. -/
def test (set : NullBitset size) (slot : Nat) : Reader Bool :=
  match set.isNull? slot with
  | some isNull => pure isNull
  | none => throw .outOfBounds

/-- The bitset that marks each slot as listed; `none` when a slot has no position. -/
def ofMarks? : List (Nat × Bool) → Option (NullBitset size)
  | marks => marks.foldlM (fun set mark => set.set? mark.1 mark.2) empty

theorem length_toBytes (set : NullBitset size) : set.toBytes.length = size :=
  length_littleEndian _ _

end NullBitset

end Wireform
