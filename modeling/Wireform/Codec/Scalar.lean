import Wireform.Codec.Basic

/-!
# Codecs of numbers, truth values, characters, times and texts

All numbers are little-endian.  A truth value is one byte, 0 or 1, and any other byte is refused;
a character is its scalar value in four bytes, and surrogates and values beyond `10FFFF` are
refused.  A duration is its nanoseconds in eight unsigned bytes and an instant its nanoseconds
since 1970 in eight signed ones; a value outside that range cannot be written.  A text is its
length in bytes, then its UTF-8 form, and its null layout is in-band.  The byte form of a decimal
number is that of a library, and a parameter here (`DecimalForm`).
-/
namespace Wireform

/-- A decimal number: `mantissa / 10 ^ scale`, with a sign that zero may carry too. -/
structure Decimal where
  negative : Bool
  scale : Nat
  mantissa : Nat
  scale_le : scale ≤ 28
  mantissa_lt : mantissa < Nat.pow 256 12
  deriving DecidableEq, Repr

/-- Zero, without places and without a sign. -/
def Decimal.zero : Decimal := ⟨false, 0, 0, by decide, by decide⟩

/-- The byte form of decimal numbers, which a library of such numbers gives.  What is read from bytes
that are not those of a number is left open. -/
class DecimalForm where
  toBytes : Decimal → List UInt8
  ofBytes : List UInt8 → Decimal
  length_toBytes (d : Decimal) : (toBytes d).length = 16
  ofBytes_toBytes (d : Decimal) : ofBytes (toBytes d) = d

namespace Codec

/-- Integers of a fixed width. -/
def int (format : IntFormat) : Codec Int :=
  ofWidth format.width (writeInt format) (readInt format)

/-- Bit patterns of a fixed width: floating-point numbers and identifiers. -/
def bits (width : Nat) : Codec Nat :=
  ofWidth width (fun n => writeInt ⟨width, false⟩ n) do
    let n ← readInt ⟨width, false⟩
    pure n.toNat

/-- Truth values. -/
def bool : Codec Bool :=
  ofWidth 1 (fun b => writeByte (if b then 1 else 0)) do
    let offset ← get
    let found ← readByte
    if found = 0 then pure false
    else if found = 1 then pure true
    else throw (.wire (.decode (.badBool offset found)))

/-- Characters. -/
def char : Codec Char :=
  ofWidth 4 (fun c => writeInt .u32 c.toNat) do
    let scalar ← readInt .u32
    if scalar.toNat.isValidChar then pure (Char.ofNat scalar.toNat)
    else throw (.wire (.decode (.badScalar scalar.toNat)))

/-- Durations, in nanoseconds. -/
def duration : Codec Nat :=
  ofWidth 8
    (fun nanos =>
      if IntFormat.u64.contains nanos then writeInt .u64 nanos
      else throw (.wire (.encode (.durationTooLong nanos))))
    do
      let nanos ← readInt .u64
      pure nanos.toNat

/-- Instants, in nanoseconds since the start of 1970. -/
def instant : Codec Int :=
  ofWidth 8
    (fun nanos =>
      if IntFormat.i64.contains nanos then writeInt .i64 nanos
      else throw (.wire (.encode (.instantOutOfRange nanos))))
    (readInt .i64)

/-- Decimal numbers. -/
def decimal [DecimalForm] : Codec Decimal :=
  ofWidth 16 (fun d => writeBytes (DecimalForm.toBytes d)) do
    let bytes ← readBytes 16
    pure (DecimalForm.ofBytes bytes)

/-- Texts; `typeName` is what an unexpected null names. -/
def text (typeName : String) : Codec String :=
  let size (value : String) := lengthPrefixSize + (textBytes value).length
  let read : Reader String := do
    let length ← readRequiredLength typeName
    readText length
  { fixedSize := none
    size := size
    write := writeText
    read := read
    overwrite := freshly read
    nullable := .inBand size writeText readText }

end Codec

end Wireform
