import Wireform.Text.Utf8
import Wireform.Text.Quoted
import Wireform.Time.Calendar
import Wireform.Time.Duration

/-!
# What can go wrong on the wire

A codec operation ends in one of four ways that are not success, and they are kept apart:

* `Failure.wire` is reported to the caller, who may go on with the buffer and the cursor as they
  are; the `WireError` inside is the *cause*, and `WireError.message` its wording;
* `Failure.outOfBounds` is an access outside a buffer or a bitset, or a count that would go below
  zero, which ends the whole run;
* `Failure.exhausted` says that a recursive record was entered more often than the nesting limit
  allows;
* `Failure.mismatch` says that a dynamic value is not of the shape that its codec writes.
-/
namespace Wireform

/-- Why a value cannot be written. -/
inductive EncodeFault where
  /-- A length that does not fit its four-byte prefix. -/
  | lengthTooLarge (length : Nat)
  /-- A duration of more nanoseconds than eight bytes hold. -/
  | durationTooLong (nanos : Nat)
  /-- An instant outside the signed eight-byte range of nanoseconds. -/
  | instantOutOfRange (nanos : Int)
  /-- A writer that disagrees with the size that it announced. -/
  | sizeMismatch (typeName : String) (claimed written : Nat)
  deriving DecidableEq, Repr

/-- Why bytes that are all there still form no value. -/
inductive DecodeFault where
  | badBool (offset : Nat) (found : Nat)
  | badMarker (offset : Nat) (found : Nat)
  | badScalar (scalar : Nat)
  | badText (offset : Nat) (fault : Utf8.Fault)
  | arrayLength (expected found : Nat)
  deriving DecidableEq, Repr

/-- Failures of the dispatch between tags and types. -/
inductive DispatchError where
  | unknownTag (tag : Nat)
  | unregisteredType (typeName : String)
  | typeMismatch (tag : Nat) (expected actual : String)
  deriving DecidableEq, Repr

/-- The error that a codec operation reports. -/
inductive WireError where
  /-- The destination cannot hold the bytes about to be written. -/
  | bufferTooSmall (needed available offset : Nat)
  /-- The source ends before a declared value or length. -/
  | insufficientData (needed available offset : Nat)
  /-- A length prefix that is neither a count nor the mark of null. -/
  | invalidLength (length : Int) (offset : Nat)
  /-- The mark of null where null is not admitted. -/
  | unexpectedNull (typeName : String)
  | encode (fault : EncodeFault)
  | decode (fault : DecodeFault)
  | dispatch (error : DispatchError)
  /-- An integer that is no variant of the enumeration. -/
  | unknownDiscriminant (value : Int) (enumName : String)
  deriving DecidableEq, Repr

/-- How an operation ends when it does not succeed. -/
inductive Failure where
  | wire (error : WireError)
  | outOfBounds
  | exhausted
  | mismatch
  deriving DecidableEq, Repr

/-- The name of the kind of a reported error. -/
def WireError.kind : WireError → String
  | .bufferTooSmall _ _ _ => "BufferTooSmall"
  | .insufficientData _ _ _ => "InsufficientData"
  | .invalidLength _ _ => "InvalidLength"
  | .unexpectedNull _ => "UnexpectedNull"
  | .encode _ => "Encode"
  | .decode _ => "Decode"
  | .dispatch (.unknownTag _) => "UnknownTag"
  | .dispatch (.unregisteredType _) => "UnregisteredType"
  | .dispatch (.typeMismatch _ _ _) => "TypeMismatch"
  | .unknownDiscriminant _ _ => "UnknownDiscriminant"

/-- The wording of an encode fault. -/
def EncodeFault.message : EncodeFault → String
  | .lengthTooLarge length => s!"Length {length} exceeds i32::MAX"
  | .durationTooLong nanos => "Duration " ++ Time.durationText nanos ++ " exceeds u64 nanoseconds"
  | .instantOutOfRange nanos => "DateTime " ++ Time.instantText nanos ++ " out of nanosecond range"
  | .sizeMismatch typeName claimed written =>
    s!"{typeName} reported size {claimed} but wrote {written} bytes"

/-- Upper-case hexadecimal digits, without leading zeros. -/
def upperHex (n : Nat) : String :=
  String.ofList ((Text.hexDigits n).map Char.toUpper)

/-- The wording of a decode fault. -/
def DecodeFault.message : DecodeFault → String
  | .badBool offset found => s!"Expected bool (0 or 1) at offset {offset}, got {found}"
  | .badMarker offset found => s!"Expected presence marker (0 or 1) at offset {offset}, got {found}"
  | .badScalar scalar => "Invalid char scalar value: 0x" ++ upperHex scalar
  | .badText offset fault => s!"Invalid UTF-8 at offset {offset}: " ++ fault.message
  | .arrayLength expected found => s!"Array length mismatch: expected {expected}, got {found}"

/-- The wording of a dispatch error. -/
def DispatchError.message : DispatchError → String
  | .unknownTag tag => s!"Unknown type tag: {tag}"
  | .unregisteredType typeName => s!"Type {typeName} is not registered"
  | .typeMismatch tag expected actual =>
    s!"Type mismatch for tag {tag}: expected {expected}, got {actual}"

/-- The wording of a reported error. -/
def WireError.message : WireError → String
  | .bufferTooSmall needed available offset =>
    s!"Buffer too small: need {needed} bytes at offset {offset}, {available} available"
  | .insufficientData needed available offset =>
    s!"Insufficient data: need {needed} bytes at offset {offset}, {available} available"
  | .invalidLength length offset => s!"Invalid length {length} at offset {offset}"
  | .unexpectedNull typeName => s!"Unexpected null for non-nullable {typeName}"
  | .encode fault => "Encode error: " ++ fault.message
  | .decode fault => "Decode error: " ++ fault.message
  | .dispatch error => error.message
  | .unknownDiscriminant value enumName => s!"Unknown discriminant {value} for enum {enumName}"

end Wireform
