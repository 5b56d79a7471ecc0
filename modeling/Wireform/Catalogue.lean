import Wireform.Schema.Lowering
import Wireform.Shape

/-!
# Catalogues of named types

A catalogue gives names to records and enumerations, whose fields may refer to names of the
catalogue in turn, their own included.  A record is either *declared*, with the presence of each
field given by its declaration, or *lowered*, run step by step as a lowered codec says.

A codec for a name is tied by counting nestings: `Catalogue.codec n` is the codec of names that may
be entered `n` times inside one another, and entering a name once more than that fails with
`Failure.exhausted`.  A record whose inline fields do not lead back to itself re-enters itself only
behind a byte of its own (a bitset, a count, a presence byte), so on every buffer enough nestings
give the codec of unlimited nesting.  `Catalogue.codecOf` is that codec: a value is written with as
many nestings as it is high, and a buffer is read with `Catalogue.nestingsOf` of them.
-/
namespace Wireform

open Schema (Kind Step StructCode)

/-- What the type of a declared field is, and how the field takes part. -/
inductive FieldType where
  /-- Always written. -/
  | plain (shape : Shape)
  /-- An optional field with a slot; `inner` is the type behind the null. -/
  | nullable (inner : Shape)
  /-- Never written. -/
  | skipped (shape : Shape)
  deriving DecidableEq, Repr

/-- The type that the field's values have. -/
def FieldType.shape : FieldType → Shape
  | .plain shape => shape
  | .nullable inner => .option inner
  | .skipped shape => shape

/-- A declared field. -/
structure FieldDef where
  name : String
  type : FieldType
  deriving DecidableEq, Repr

/-- What a name stands for. -/
inductive Definition where
  | record (fields : List FieldDef)
  | enumeration (e : Enumeration)
  /-- A lowered structure; the names in it are looked up behind `scope`. -/
  | lowered (scope : String) (code : StructCode)
  deriving DecidableEq, Repr

/-! ## 1. Declared records -/

/-- Gives the nullable fields the slots `slot + 1`, `slot + 2`, … in their order. -/
def numberFields (slot : Nat) : List FieldDef → List (FieldDef × Presence)
  | [] => []
  | field :: fields =>
    match field.type with
    | .plain _ => (field, .always) :: numberFields slot fields
    | .nullable _ => (field, .nullable (slot + 1)) :: numberFields (slot + 1) fields
    | .skipped _ => (field, .skipped) :: numberFields slot fields

/-- The codec of a declared field. -/
def FieldDef.codec [DecimalForm] (sharing : Sharing Value) (initial : String → Value)
    (named : String → Codec Value) (field : FieldDef) (presence : Presence) : FieldCodec where
  presence := presence
  codec :=
    match field.type with
    | .plain shape | .nullable shape | .skipped shape => shape.codec sharing named
  initial := field.type.shape.initial initial

/-- The codec of a declared record. -/
def recordCodec [DecimalForm] (sharing : Sharing Value) (initial : String → Value)
    (named : String → Codec Value) (fields : List FieldDef) : Codec (List Value) :=
  Codec.record
    ((numberFields 0 fields).map fun field => field.1.codec sharing initial named field.2)

/-! ## 2. Lowered records -/

/-- The shape of the values of a kind.  A recursive structure is behind an indirection. -/
def Schema.Kind.shape (scope : String) : Kind → Shape
  | .primitive p => .leaf (.primitive p)
  | .enum name _ => .named (scope ++ name)
  | .nested name recursive =>
    if recursive then .boxed (.named (scope ++ name)) else .named (scope ++ name)
  | .list element nullable => .sequence .list (wrap nullable (element.shape scope))
  | .array element nullable => .sequence .slice (wrap nullable (element.shape scope))
  | .map key value nullable =>
    .mapping .hashed (key.shape scope) (wrap nullable (value.shape scope))
where
  /-- The optional form of a shape, where it is nullable. -/
  wrap (nullable : Bool) (shape : Shape) : Shape := if nullable then .option shape else shape

/-- The type that the values of a lowered field have. -/
def fieldShape (scope : String) (kind : Kind) (slot : Option Nat) : Shape :=
  if slot.isSome then .option (kind.shape scope) else kind.shape scope

/-- A bitset of any size. -/
structure SomeBitset where
  bytes : Nat
  set : NullBitset bytes

namespace StructCodec

variable (codecOf : Kind → Codec Value)

/-- Writes a lowered field with the codec of its kind: behind its null, if it has a slot. -/
def writeField (kind : Kind) (slot : Option Nat) (value : Value) : Writer :=
  match slot with
  | none => (codecOf kind).write value
  | some _ =>
    match value with
    | .present inner => (codecOf kind).write inner
    | .null => pure ()
    | _ => throw .mismatch

/-- The size of a lowered field. -/
def fieldSize (kind : Kind) (slot : Option Nat) (value : Value) : Nat :=
  match slot with
  | none => (codecOf kind).size value
  | some _ =>
    match value with
    | .present inner => (codecOf kind).size inner
    | _ => 0

/-- Reads a lowered field over its old value. -/
def overwriteField (kind : Kind) (slot : Option Nat) (bitset : SomeBitset) : Overwriter Value :=
  fun target buffer cursor =>
    match slot with
    | none => (codecOf kind).overwrite target buffer cursor
    | some slot =>
      Overwritten.after (bitset.set.test slot) target buffer cursor fun isNull cursor =>
        if isNull then ⟨.null, cursor, .ok ()⟩
        else
          Overwriter.lift (codecOf kind).overwritePresent Value.optionCase
            (do let inner ← (codecOf kind).read; pure (some inner)) target buffer cursor

/-- The marks of the nullable fields that a bitset step lists, looked up by name. -/
def marks (values : List (String × Value)) (slots : List (String × Nat)) : List (Nat × Bool) :=
  slots.map fun (name, slot) =>
    (slot, match values.lookup name with
      | some value => value.isNull
      | none => false)

/-- Runs the steps to write; `all` are the values of all fields by name, `values` those of the
field steps still to come. -/
def runWrite (all : List (String × Value)) : List Step → List Value → Writer
  | [], [] => pure ()
  | .bitset bytes slots :: steps, values => do
    writeMarks bytes (marks all slots)
    runWrite all steps values
  | .field _ kind slot :: steps, value :: values => do
    writeField codecOf kind slot value
    runWrite all steps values
  | _, _ => throw .mismatch

/-- Runs the steps to read over a record; `bitset` is the one read last. -/
def runOverwrite : SomeBitset → List Step → Overwriter (List Value)
  | _, [], [], _, cursor => ⟨[], cursor, .ok ()⟩
  | _, .bitset bytes _ :: steps, values, buffer, cursor =>
    Overwritten.after (NullBitset.read : Reader (NullBitset bytes)) values buffer cursor
      fun set cursor => runOverwrite ⟨bytes, set⟩ steps values buffer cursor
  | bitset, .field _ kind slot :: steps, value :: values, buffer, cursor =>
    let head := overwriteField codecOf kind slot bitset value buffer cursor
    match head.outcome with
    | .ok _ =>
      (runOverwrite bitset steps values buffer head.cursor).map (head.target :: ·)
    | .error failure => ⟨head.target :: values, head.cursor, .error failure⟩
  | _, _, values, _, cursor => ⟨values, cursor, .error .mismatch⟩

/-- The sizes of the fields, summed. -/
def sumFieldSizes : List (String × Kind × Option Nat) → List Value → Nat
  | (_, kind, slot) :: fields, value :: values =>
    fieldSize codecOf kind slot value + sumFieldSizes fields values
  | _, _ => 0

end StructCodec

open StructCodec in
/-- The codec that runs the steps of a lowered structure, each with the codec of its kind.  A new value
is read over the initial one.  A file that is emitted for the structure has a method call for each
step, and is compiled to this codec only if these are calls of the codecs of the kinds. -/
def Schema.StructCode.codec (code : StructCode) (codecOf : Kind → Codec Value)
    (initial : List Value) : Codec (List Value) :=
  let fixedSize :=
    if code.bitsetBytes = 0 then
      Codec.sumFixedSizes (code.fields.map fun field => (codecOf field.2.1).fixedSize)
    else none
  let size (values : List Value) : Nat :=
    match fixedSize with
    | some size => size
    | none => code.bitsetBytes + sumFieldSizes codecOf code.fields values
  let write (values : List Value) : Writer :=
    runWrite codecOf ((code.fields.map Prod.fst).zip values) code.steps values
  let overwrite : Overwriter (List Value) := runOverwrite codecOf ⟨0, .empty⟩ code.steps
  let read : Reader (List Value) := fun buffer cursor =>
    (overwrite initial buffer cursor).toResult
  { fixedSize := fixedSize
    size := size
    write := write
    read := read
    overwrite := overwrite
    nullable := .marker size write read }

/-! ## 3. Definitions and catalogues -/

namespace Definition

/-- The codec of a definition, given the initial values and the codecs of the names in it. -/
def codec [DecimalForm] (sharing : Sharing Value) (initial : String → Value)
    (named : String → Codec Value) : Definition → Codec Value
  | .record fields => (recordCodec sharing initial named fields).lift Value.recordCase
  | .enumeration e => e.codec.lift Value.variantCase
  | .lowered scope code =>
    (code.codec (fun kind => (kind.shape scope).codec sharing named)
      (code.fields.map fun field =>
        (fieldShape scope field.2.1 field.2.2).initial initial)).lift Value.recordCase

/-- Whether some field of a declared record is nullable. -/
def hasNullable (fields : List FieldDef) : Bool :=
  fields.any fun field =>
    match field.type with
    | .nullable _ => true
    | _ => false

/-- The size of every value of a definition, if it has one. -/
def fixedSize (named : String → Option Nat) : Definition → Option Nat
  | .record fields =>
    if hasNullable fields then none
    else
      Codec.sumFixedSizes (fields.filterMap fun field =>
        match field.type with
        | .skipped _ => none
        | type => some (type.shape.fixedSize named))
  | .enumeration e => some e.repr.size
  | .lowered scope code =>
    if code.bitsetBytes = 0 then
      Codec.sumFixedSizes (code.fields.map fun field => (field.2.1.shape scope).fixedSize named)
    else none

/-- The value that a field of the defined type starts with: all fields initial, or the first
variant. -/
def initial (named : String → Value) : Definition → Value
  | .record fields => .record (fields.map fun field => field.type.shape.initial named)
  | .enumeration e => .variant ((e.variants.head?.map Variant.discriminant).getD 0)
  | .lowered scope code =>
    .record (code.fields.map fun field => (fieldShape scope field.2.1 field.2.2).initial named)

end Definition

/-- Definitions by name. -/
structure Catalogue where
  entries : List (String × Definition)

namespace Catalogue

/-- What a name stands for. -/
def get? (catalogue : Catalogue) (name : String) : Option Definition :=
  catalogue.entries.lookup name

/-- The fixed size of names nested at most `depth` deep. -/
def fixedSizeAt (catalogue : Catalogue) : (depth : Nat) → String → Option Nat
  | 0, _ => none
  | depth + 1, name =>
    match catalogue.get? name with
    | some definition => definition.fixedSize (catalogue.fixedSizeAt depth)
    | none => none

/-- The fixed size of a name.  Inline fields lead through each name at most once. -/
def fixedSize (catalogue : Catalogue) (name : String) : Option Nat :=
  catalogue.fixedSizeAt catalogue.entries.length name

/-- The initial value of names nested at most `depth` deep. -/
def initialAt (catalogue : Catalogue) : (depth : Nat) → String → Value
  | 0, _ => .null
  | depth + 1, name =>
    match catalogue.get? name with
    | some definition => definition.initial (catalogue.initialAt depth)
    | none => .null

/-- The initial value of a name. -/
def initial (catalogue : Catalogue) (name : String) : Value :=
  catalogue.initialAt catalogue.entries.length name

/-- The codec of a name that may be entered `nestings` times inside itself and others. -/
def codec [DecimalForm] (catalogue : Catalogue) (sharing : Sharing Value) :
    (nestings : Nat) → String → Codec Value
  | 0, name => Codec.deferred (catalogue.fixedSize name) fun _ => Codec.exhausted
  | nestings + 1, name =>
    Codec.deferred (catalogue.fixedSize name) fun _ =>
      match catalogue.get? name with
      | some definition =>
        definition.codec sharing catalogue.initial (catalogue.codec sharing nestings)
      | none => Codec.exhausted

/-- As many nestings as a read of the buffer can give rise to: from one byte to the next, every
name of the catalogue is entered at most once. -/
def nestingsOf (catalogue : Catalogue) (buffer : Buffer) : Nat :=
  (buffer.length + 1) * (catalogue.entries.length + 1)

/-- The codec of a shape whose names the catalogue knows; `sharing` tells which shared values in the
target of a read have a second owner. -/
def codecOf [DecimalForm] (catalogue : Catalogue) (sharing : Sharing Value) (shape : Shape) :
    Codec Value :=
  let within (nestings : Nat) := shape.codec sharing (catalogue.codec sharing nestings)
  { fixedSize := shape.fixedSize catalogue.fixedSize
    size := fun value => (within value.height).size value
    write := fun value output => (within value.height).write value output
    read := fun buffer cursor => (within (catalogue.nestingsOf buffer)).read buffer cursor
    overwrite := fun target buffer cursor =>
      (within (catalogue.nestingsOf buffer)).overwrite target buffer cursor
    nullable :=
      { size := fun value => (within (Value.slotHeight value)).nullable.size value
        write := fun value output => (within (Value.slotHeight value)).nullable.write value output
        read := fun buffer cursor =>
          (within (catalogue.nestingsOf buffer)).nullable.read buffer cursor } }

/-- The codec of a shape whose names the catalogue knows, for targets that share nothing. -/
def shapeCodec [DecimalForm] (catalogue : Catalogue) (shape : Shape) : Codec Value :=
  catalogue.codecOf Sharing.none shape

end Catalogue

end Wireform
