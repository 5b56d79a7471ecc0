import Wireform.Error
import Wireform.Bytes.LittleEndian

/-!
# Reading and writing at a cursor

Every codec works on a buffer of bytes and a cursor, the place of the next byte.  A `Writer`
changes both, a `Reader` only moves the cursor; when either fails, the state is what it had
reached, so a caller can see how far it came.

* A read or a write first checks that its bytes are there (`ensureReadable`, `ensureWritable`); the
  check counts the bytes from the cursor to the end, none when the cursor is past the end.
* The bytes taken or replaced are then `[cursor, cursor + length)`.  That range lies in the buffer
  after a successful check unless it is empty and the cursor is past the end, which is
  `Failure.outOfBounds`.
* A length prefix is a signed four-byte number: `-1` stands for null, any other negative number is
  invalid.
-/
namespace Wireform

/-- The bytes that codecs read and write. -/
abbrev Buffer := List UInt8

/-- The state of a write: the buffer and the place of the next byte. -/
structure Output where
  buffer : Buffer
  cursor : Nat
  deriving DecidableEq, Repr

/-- A computation that writes at a cursor and keeps what it has done when it fails. -/
abbrev Writer := EStateM Failure Output Unit

/-- A computation that reads a fixed buffer; its state is the cursor, also after a failure. -/
abbrev Reader (α : Type) := ReaderT Buffer (EStateM Failure Nat) α

/-- The signed number in a length prefix that stands for null. -/
def nullLength : Int := -1

/-- How many bytes a length prefix takes. -/
def lengthPrefixSize : Nat := 4

/-- The greatest length that a prefix holds. -/
def maxLength : Nat := 2147483647

/-! ## 1. Raw bytes -/

/-- Fails unless `needed` bytes fit between the cursor and the end. -/
def ensureWritable (needed : Nat) : Writer := do
  let out ← get
  let available := out.buffer.length - out.cursor
  if available < needed then
    throw (.wire (.bufferTooSmall needed available out.cursor))

/-- Fails unless `needed` bytes remain between the cursor and the end. -/
def ensureReadable (needed : Nat) : Reader Unit := do
  let buffer ← read
  let cursor ← get
  let available := buffer.length - cursor
  if available < needed then
    throw (.wire (.insufficientData needed available cursor))

/-- `buffer` with the bytes from `start` on replaced by `source`. -/
def splice (buffer : Buffer) (start : Nat) (source : List UInt8) : Buffer :=
  buffer.take start ++ (source ++ buffer.drop (start + source.length))

/-- Copies `source` to the cursor. -/
def writeBytes (source : List UInt8) : Writer := do
  ensureWritable source.length
  let out ← get
  if out.cursor + source.length ≤ out.buffer.length then
    set { buffer := splice out.buffer out.cursor source,
          cursor := out.cursor + source.length : Output }
  else
    throw .outOfBounds

/-- Takes the next `length` bytes. -/
def readBytes (length : Nat) : Reader (List UInt8) := do
  ensureReadable length
  let buffer ← read
  let cursor ← get
  if cursor + length ≤ buffer.length then
    set (cursor + length)
    pure ((buffer.drop cursor).take length)
  else
    throw .outOfBounds

/-! ## 2. Numbers of fixed width -/

/-- Writes `n` in `format`. -/
def writeInt (format : IntFormat) (n : Int) : Writer :=
  writeBytes (format.encode n)

/-- Reads a number in `format`. -/
def readInt (format : IntFormat) : Reader Int := do
  let bytes ← readBytes format.width
  pure (format.decode bytes)

/-- Writes one byte. -/
def writeByte (n : Nat) : Writer :=
  writeInt .u8 n

/-- Reads one byte. -/
def readByte : Reader Nat := do
  let n ← readInt .u8
  pure n.toNat

/-! ## 3. Length prefixes -/

/-- Writes the prefix of a sequence of `length` items; a length beyond `maxLength` has none. -/
def writeLength (length : Nat) : Writer :=
  if length ≤ maxLength then writeInt .i32 length
  else throw (.wire (.encode (.lengthTooLarge length)))

/-- Writes the mark of a null sequence. -/
def writeNullLength : Writer :=
  writeInt .i32 nullLength

/-- Reads a prefix: `none` for the mark of null. -/
def readLength : Reader (Option Nat) := do
  let offset ← get
  let length ← readInt .i32
  if length = nullLength then pure none
  else if 0 ≤ length then pure (some length.toNat)
  else throw (.wire (.invalidLength length offset))

/-- Reads a prefix where null is not admitted; `typeName` is what the error names. -/
def readRequiredLength (typeName : String) : Reader Nat := do
  match ← readLength with
  | some length => pure length
  | none => throw (.wire (.unexpectedNull typeName))

/-! ## 4. Text -/

/-- The bytes that hold a text. -/
def textBytes (text : String) : List UInt8 := Utf8.encode text.toList

/-- Reads `length` bytes as a text. -/
def readText (length : Nat) : Reader String := do
  let offset ← get
  let bytes ← readBytes length
  match Utf8.decode bytes with
  | .ok text => pure (String.ofList text)
  | .error fault => throw (.wire (.decode (.badText offset fault)))

/-- Writes a text behind its length in bytes. -/
def writeText (text : String) : Writer := do
  writeLength (textBytes text).length
  writeBytes (textBytes text)

/-! ## 5. Running -/

/-- What an attempt to read leaves: where the cursor stands, and the value or the failure. -/
structure Attempt (α : Type) where
  outcome : Except Failure α
  cursor : Nat
  deriving Repr

/-- Runs a reader on a buffer from a cursor. -/
def Reader.run {α : Type} (reader : Reader α) (buffer : Buffer) (cursor : Nat) : Attempt α :=
  match reader buffer cursor with
  | .ok value cursor => ⟨.ok value, cursor⟩
  | .error failure cursor => ⟨.error failure, cursor⟩

/-- What an attempt to write leaves. -/
structure Written where
  outcome : Except Failure Unit
  output : Output
  deriving Repr

/-- Runs a writer on a buffer from a cursor. -/
def Writer.run (writer : Writer) (buffer : Buffer) (cursor : Nat) : Written :=
  match writer ⟨buffer, cursor⟩ with
  | .ok _ output => ⟨.ok (), output⟩
  | .error failure output => ⟨.error failure, output⟩

end Wireform
