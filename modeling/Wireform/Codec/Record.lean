import Wireform.NullBitset
import Wireform.Value

/-!
# Codecs of records

A record is the bitset of its nullable fields, if it has any, and then its fields in the order of
their declaration.  How a field takes part is its `Presence`: it is always written; it has a slot
and is written only when it is not null; or it is skipped, which means that it is never written
and that reading gives it its initial value.

Reading over a record sets its fields one after the other: a skipped field goes back to its initial
value when its turn comes, a null one is emptied, and a present one is read over the old value if
there is one.
-/
namespace Wireform

/-- How a field takes part in the encoding of its record. -/
inductive Presence where
  | always
  | nullable (slot : Nat)
  | skipped
  deriving DecidableEq, Repr

/-- A field: its presence, the codec of its values (of the values behind the null, if it is
nullable), and the value that it has when it is skipped. -/
structure FieldCodec where
  presence : Presence
  codec : Codec Value
  initial : Value

namespace FieldCodec

/-- Whether the field has a slot. -/
def isNullable (field : FieldCodec) : Bool :=
  match field.presence with
  | .nullable _ => true
  | _ => false

/-- Whether the field is part of the encoding. -/
def isWired (field : FieldCodec) : Bool :=
  match field.presence with
  | .skipped => false
  | _ => true

/-- How many bytes the field takes, its bit apart. -/
def size (field : FieldCodec) (value : Value) : Nat :=
  match field.presence with
  | .always => field.codec.size value
  | .nullable _ =>
    match value with
    | .present inner => field.codec.size inner
    | _ => 0
  | .skipped => 0

/-- The slot of a nullable field, and whether the field is null. -/
def mark? (field : FieldCodec) (value : Value) : Option (Nat × Bool) :=
  match field.presence with
  | .nullable slot => some (slot, value.isNull)
  | _ => none

/-- Writes the field, its bit apart. -/
def write (field : FieldCodec) (value : Value) : Writer :=
  match field.presence with
  | .always => field.codec.write value
  | .nullable _ =>
    match value with
    | .present inner => field.codec.write inner
    | .null => pure ()
    | _ => throw .mismatch
  | .skipped => pure ()

variable {bytes : Nat}

/-- Reads the field of a record whose bitset is known. -/
def read (field : FieldCodec) (set : NullBitset bytes) : Reader Value :=
  match field.presence with
  | .always => field.codec.read
  | .nullable slot => do
    if ← set.test slot then pure .null
    else do
      let inner ← field.codec.read
      pure (.present inner)
  | .skipped => pure field.initial

/-- Reads the field of a record whose bitset is known over the field's old value. -/
def overwrite (field : FieldCodec) (set : NullBitset bytes) : Overwriter Value :=
  fun target buffer cursor =>
    match field.presence with
    | .always => field.codec.overwrite target buffer cursor
    | .nullable slot =>
      Overwritten.after (set.test slot) target buffer cursor fun isNull cursor =>
        if isNull then ⟨.null, cursor, .ok ()⟩
        else
          Overwriter.lift field.codec.overwritePresent Value.optionCase
            (do let inner ← field.codec.read; pure (some inner)) target buffer cursor
    | .skipped => ⟨field.initial, cursor, .ok ()⟩

end FieldCodec

/-- The bytes of the bitset of a record with these fields. -/
def fieldsBitsetBytes (fields : List FieldCodec) : Nat :=
  bitsetSize (fields.filter FieldCodec.isNullable).length

/-- The fields' sizes, summed. -/
def fieldsSize : List FieldCodec → List Value → Nat
  | field :: fields, value :: values => field.size value + fieldsSize fields values
  | _, _ => 0

/-- The slots of the nullable fields, and which of them are null. -/
def fieldsMarks : List FieldCodec → List Value → List (Nat × Bool)
  | field :: fields, value :: values => (field.mark? value).toList ++ fieldsMarks fields values
  | _, _ => []

/-- Writes the fields in order. -/
def writeFields : List FieldCodec → List Value → Writer
  | [], [] => pure ()
  | field :: fields, value :: values => do
    field.write value
    writeFields fields values
  | _, _ => throw .mismatch

/-- Writes the bitset of a record. -/
def writeMarks (bytes : Nat) (marks : List (Nat × Bool)) : Writer :=
  match (NullBitset.ofMarks? marks : Option (NullBitset bytes)) with
  | some set => set.write
  | none => throw .outOfBounds

/-- Reads the fields in order. -/
def readFields {bytes : Nat} (set : NullBitset bytes) : List FieldCodec → Reader (List Value)
  | [] => pure []
  | field :: fields => do
    let value ← field.read set
    let values ← readFields set fields
    pure (value :: values)

/-- Reads over the fields in order, until one fails. -/
def overwriteFields {bytes : Nat} (set : NullBitset bytes) :
    List FieldCodec → Overwriter (List Value)
  | [], [], _, cursor => ⟨[], cursor, .ok ()⟩
  | field :: fields, value :: values, buffer, cursor =>
    let head := field.overwrite set value buffer cursor
    match head.outcome with
    | .ok _ => (overwriteFields set fields values buffer head.cursor).map (head.target :: ·)
    | .error failure => ⟨head.target :: values, head.cursor, .error failure⟩
  | _, values, _, cursor => ⟨values, cursor, .error .mismatch⟩

/-- The size of every record with these fields, when none is nullable and all have a fixed size. -/
def fieldsFixedSize (fields : List FieldCodec) : Option Nat :=
  if fieldsBitsetBytes fields = 0 then
    Codec.sumFixedSizes ((fields.filter FieldCodec.isWired).map fun field => field.codec.fixedSize)
  else none

/-- Records with the given fields. -/
def Codec.record (fields : List FieldCodec) : Codec (List Value) :=
  let bytes := fieldsBitsetBytes fields
  let size (values : List Value) : Nat :=
    match fieldsFixedSize fields with
    | some size => size
    | none => bytes + fieldsSize fields values
  let write (values : List Value) : Writer := do
    writeMarks bytes (fieldsMarks fields values)
    writeFields fields values
  let read : Reader (List Value) := do
    let set ← (NullBitset.read : Reader (NullBitset bytes))
    readFields set fields
  { fixedSize := fieldsFixedSize fields
    size := size
    write := write
    read := read
    overwrite := fun target buffer cursor =>
      Overwritten.after (NullBitset.read : Reader (NullBitset bytes)) target buffer cursor
        fun set cursor => overwriteFields set fields target buffer cursor
    nullable := .marker size write read }

end Wireform
