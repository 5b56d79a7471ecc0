import Wireform.Catalogue
import Wireform.Proofs.Raw

/-!
# The wire format

The codecs say how values are written and read; this module says, without a cursor or a buffer,
what stands on the wire.  For a catalogue there are

* `Catalogue.HasShape`, the values of a shape;
* `Catalogue.fits`, whether every length, duration and instant of a value has a place on the wire;
* `Catalogue.wire`, the bytes of a value;
* `Catalogue.restored`, the value that those bytes stand for: skipped fields are initial again, and
  a map is what its entries make of it when they are inserted in turn.

The last three go through the value and look up in the shape what its parts are.  Declared and
lowered records are the same here: both are a list of `FieldLayout`s.
-/
namespace Wireform

/-! ## 1. Leaves -/

/-- What a leaf is to the wire. -/
inductive LeafKind where
  | int (format : IntFormat)
  | bits (width : Nat)
  | bool
  | char
  | text (typeName : String)
  | duration
  | instant
  | decimal
  deriving DecidableEq, Repr

/-- What a leaf is to the wire. -/
def Leaf.kind : Leaf → LeafKind
  | .primitive .bool => .bool
  | .primitive .u8 => .int .u8
  | .primitive .i8 => .int .i8
  | .primitive .u16 => .int .u16
  | .primitive .i16 => .int .i16
  | .primitive .u32 => .int .u32
  | .primitive .i32 => .int .i32
  | .primitive .u64 | .usize => .int .u64
  | .primitive .i64 | .isize => .int .i64
  | .primitive .u128 => .int .u128
  | .primitive .i128 => .int .i128
  | .primitive .f32 => .bits 4
  | .primitive .f64 => .bits 8
  | .primitive .uuid | .primitive .ulid => .bits 16
  | .primitive .char => .char
  | .primitive .string => .text "String"
  | .smol => .text "SmolStr"
  | .primitive .duration => .duration
  | .primitive .datetime => .instant
  | .primitive .decimal => .decimal

namespace LeafKind

/-- The values of a leaf. -/
def Holds : LeafKind → Value → Prop
  | .int format, .int n => format.contains n = true
  | .bits width, .bits n => n < Nat.pow 256 width
  | .bool, .bool _ => True
  | .char, .char _ => True
  | .text _, .text _ => True
  | .duration, .int n => 0 ≤ n
  | .instant, .int _ => True
  | .decimal, .decimal _ => True
  | _, _ => False

/-- Whether a value of a leaf has a place on the wire. -/
def fits : LeafKind → Value → Bool
  | .text _, .text s => decide ((textBytes s).length ≤ maxLength)
  | .duration, .int n => IntFormat.u64.contains n
  | .instant, .int n => IntFormat.i64.contains n
  | _, _ => true

/-- The bytes of a value of a leaf. -/
def wire [DecimalForm] : LeafKind → Value → List UInt8
  | .int format, .int n => format.encode n
  | .bits width, .bits n => IntFormat.encode ⟨width, false⟩ n
  | .bool, .bool b => IntFormat.u8.encode (if b then 1 else 0)
  | .char, .char c => IntFormat.u32.encode c.toNat
  | .text _, .text s => lengthBytes (textBytes s).length ++ textBytes s
  | .duration, .int n => IntFormat.u64.encode n
  | .instant, .int n => IntFormat.i64.encode n
  | .decimal, .decimal d => DecimalForm.toBytes d
  | _, _ => []

/-- The codec of a leaf. -/
def codec [DecimalForm] : LeafKind → Codec Value
  | .int format => (Codec.int format).lift Value.intCase
  | .bits width => (Codec.bits width).lift Value.bitsCase
  | .bool => Codec.bool.lift Value.boolCase
  | .char => Codec.char.lift Value.charCase
  | .text typeName => (Codec.text typeName).lift Value.textCase
  | .duration => Codec.duration.lift Value.natCase
  | .instant => Codec.instant.lift Value.intCase
  | .decimal => Codec.decimal.lift Value.decimalCase

/-- A value without parts, which is no variant. -/
inductive IsScalar : Value → Prop where
  | int (n : Int) : IsScalar (.int n)
  | bits (n : Nat) : IsScalar (.bits n)
  | bool (b : Bool) : IsScalar (.bool b)
  | char (c : Char) : IsScalar (.char c)
  | text (s : String) : IsScalar (.text s)
  | decimal (d : Decimal) : IsScalar (.decimal d)

/-- The values of leaves have no parts. -/
theorem Holds.isScalar {kind : LeafKind} {value : Value} (h : kind.Holds value) : IsScalar value := by
  cases value with
  | int n => exact .int n
  | bits n => exact .bits n
  | bool b => exact .bool b
  | char c => exact .char c
  | text s => exact .text s
  | decimal d => exact .decimal d
  | _ => exact (by revert h; cases kind <;> exact id : False).elim

/-- Whether the numbers of a leaf take at least one byte. -/
def HasWidth : LeafKind → Prop
  | .int format => 0 < format.width
  | .bits width => 0 < width
  | _ => True

end LeafKind

namespace Leaf

theorem codec_kind [DecimalForm] (leaf : Leaf) : leaf.codec = leaf.kind.codec := by
  cases leaf with
  | primitive p => cases p <;> rfl
  | _ => rfl

theorem codec_fixedSize [DecimalForm] (leaf : Leaf) : leaf.codec.fixedSize = leaf.fixedSize := by
  cases leaf with
  | primitive p => cases p <;> rfl
  | _ => rfl

theorem kind_hasWidth (leaf : Leaf) : leaf.kind.HasWidth := by
  cases leaf with
  | primitive p => cases p <;> first | exact trivial | exact Nat.succ_pos _
  | smol => exact trivial
  | _ => exact Nat.succ_pos _

end Leaf

theorem DecimalForm.toBytes_ne_nil [DecimalForm] (d : Decimal) : DecimalForm.toBytes d ≠ [] := by
  rw [← List.length_pos_iff, length_toBytes]
  decide

/-! ## 2. Null -/

/-- The two ways in which null stands on the wire. -/
inductive NullForm where
  | marker
  | inBand
  deriving DecidableEq, Repr

namespace NullForm

/-- The bytes of null. -/
def null : NullForm → List UInt8
  | .marker => IntFormat.u8.encode 0
  | .inBand => nullLengthBytes

/-- The bytes in front of a value that is not null. -/
def lead : NullForm → List UInt8
  | .marker => IntFormat.u8.encode 1
  | .inBand => []

end NullForm

/-- How the null of an optional leaf stands on the wire. -/
def LeafKind.nullForm : LeafKind → NullForm
  | .text _ => .inBand
  | _ => .marker

/-! ## 3. The parts of a shape -/

namespace Shape

/-- How the null of the optional form of a shape stands on the wire. -/
def nullForm : Shape → NullForm
  | .leaf l => l.kind.nullForm
  | .option _ => .marker
  | .boxed inner => inner.nullForm
  | .shared inner => inner.nullForm
  | .sequence _ _ => .inBand
  | .array _ _ => .inBand
  | .mapping _ _ _ => .inBand
  | .named _ => .marker

/-- The shape without its boxes. -/
def bare : Shape → Shape
  | .boxed inner => inner.bare
  | .shared inner => inner.bare
  | shape => shape

theorem nullForm_bare (shape : Shape) : shape.bare.nullForm = shape.nullForm := by
  induction shape with
  | boxed inner ih => exact ih
  | shared inner ih => exact ih
  | _ => rfl

/-- What the leaf in a shape is to the wire. -/
def leafKind (shape : Shape) : LeafKind :=
  match shape.bare with
  | .leaf l => l.kind
  | _ => .bool

/-- The shape behind the null of a shape. -/
def inner (shape : Shape) : Shape :=
  match shape.bare with
  | .option inner => inner
  | other => other

/-- The shape of the elements. -/
def element (shape : Shape) : Shape :=
  match shape.bare with
  | .sequence _ element => element
  | .array _ element => element
  | other => other

/-- The kind of the map, and the shapes of its keys and values. -/
def entry (shape : Shape) : MapKind × Shape × Shape :=
  match shape.bare with
  | .mapping kind key value => (kind, key, value)
  | other => (.hashed, other, other)

end Shape

/-! ## 4. Layouts -/

/-- A field of a record, declared or lowered: how it takes part, the shape of its values (of the
values behind the null, if it is nullable), and the value that it has when it is skipped. -/
structure FieldLayout where
  presence : Presence
  shape : Shape
  initial : Value

namespace FieldLayout

/-- The part of a field's value that is on the wire, its bit apart. -/
def content? (field : FieldLayout) (value : Value) : Option Value :=
  match field.presence, value with
  | .always, value => some value
  | .nullable _, .present inner => some inner
  | _, _ => none

/-- Whether the field can have the value: a nullable one is null or present. -/
def Takes (field : FieldLayout) (value : Value) : Prop :=
  match field.presence, value with
  | .nullable _, .null => True
  | .nullable _, .present _ => True
  | .nullable _, _ => False
  | _, _ => True

/-- The slot of a nullable field, and whether the field is null. -/
def mark? (field : FieldLayout) (value : Value) : Option (Nat × Bool) :=
  match field.presence with
  | .nullable slot => some (slot, value.isNull)
  | _ => none

/-- Whether the field has a slot. -/
def isNullable (field : FieldLayout) : Bool :=
  match field.presence with
  | .nullable _ => true
  | _ => false

/-- Whether the field is part of the encoding. -/
def isWired (field : FieldLayout) : Bool :=
  match field.presence with
  | .skipped => false
  | _ => true

/-- The bytes of the field, its bit apart, given those of the shapes. -/
def bytes (wire : Shape → Value → List UInt8) (field : FieldLayout) (value : Value) : List UInt8 :=
  match field.content? value with
  | some content => wire field.shape content
  | none => []

/-- What the field comes back as, given what values of the shapes come back as. -/
def restored (restore : Shape → Value → Value) (field : FieldLayout) (value : Value) : Value :=
  match field.presence, value with
  | .always, value => restore field.shape value
  | .nullable _, .present inner => .present (restore field.shape inner)
  | .nullable _, value => value
  | .skipped, _ => field.initial

/-- Only what the field has on the wire has to be restored. -/
theorem restored_congr {restore restore' : Shape → Value → Value} {field : FieldLayout}
    {value : Value} (h : ∀ content, field.content? value = some content →
      restore field.shape content = restore' field.shape content) :
    field.restored restore value = field.restored restore' value := by
  obtain ⟨presence, shape, initial⟩ := field
  cases presence with
  | always => exact h value rfl
  | skipped => rfl
  | nullable slot =>
    cases value with
    | present inner => exact congrArg Value.present (h inner rfl)
    | _ => rfl

/-- What a field has on the wire is good for its shape. -/
def IsGood (goodAt : Shape → Value → Prop) (field : FieldLayout) (value : Value) : Prop :=
  ∀ content, field.content? value = some content → goodAt field.shape content

theorem isGood_iff {goodAt : Shape → Value → Prop} {field : FieldLayout} {value content : Value}
    (h : field.content? value = some content) :
    field.IsGood goodAt value ↔ goodAt field.shape content :=
  ⟨fun hgood => hgood content h, fun hgood other hother => by
    cases h.symm.trans hother
    exact hgood⟩

theorem isGood_of_none {goodAt : Shape → Value → Prop} {field : FieldLayout} {value : Value}
    (h : field.content? value = none) : field.IsGood goodAt value :=
  fun content hcontent => by cases h.symm.trans hcontent

/-- The codec of the field, given those of the shapes. -/
def codec (codecOf : Shape → Codec Value) (field : FieldLayout) : FieldCodec :=
  ⟨field.presence, codecOf field.shape, field.initial⟩

end FieldLayout

/-- How many fields have a slot. -/
def nullableCount (fields : List FieldLayout) : Nat := (fields.filter FieldLayout.isNullable).length

/-- How many bytes the bitset of a record takes. -/
def bitsetBytesOf (fields : List FieldLayout) : Nat := bitsetSize (nullableCount fields)

/-- The slots of the nullable fields, and which of them are null. -/
def marksOf (fields : List FieldLayout) (values : List Value) : List (Nat × Bool) :=
  (fields.zip values).filterMap fun pair => pair.1.mark? pair.2

/-- The bytes of the bitset of a record. -/
def bitsetOf (fields : List FieldLayout) (values : List Value) : List UInt8 :=
  match (NullBitset.ofMarks? (marksOf fields values) :
      Option (NullBitset (bitsetBytesOf fields))) with
  | some set => set.toBytes
  | none => []

theorem bitsetOf_eq (fields : List FieldLayout) (values : List Value) :
    bitsetOf fields values =
      (NullBitset.ofMarks? (marksOf fields values) :
        Option (NullBitset (bitsetBytesOf fields))).elim [] NullBitset.toBytes := by
  unfold bitsetOf
  split <;> simp [*]

theorem bitsetOf_congr {fields fields' : List FieldLayout} {values values' : List Value}
    (hnullables : nullableCount fields' = nullableCount fields)
    (hmarks : marksOf fields' values' = marksOf fields values) :
    bitsetOf fields' values' = bitsetOf fields values := by
  rw [bitsetOf_eq, bitsetOf_eq, hmarks, show bitsetBytesOf fields' = bitsetBytesOf fields from
    congrArg bitsetSize hnullables]

/-- The slots are `slot + 1`, `slot + 2`, … in their order. -/
def Numbered : (slot : Nat) → List Presence → Prop
  | _, [] => True
  | slot, .nullable own :: rest => own = slot + 1 ∧ Numbered (slot + 1) rest
  | slot, .always :: rest => Numbered slot rest
  | slot, .skipped :: rest => Numbered slot rest

/-- The shape of a declared field, behind its null if it is nullable. -/
def FieldType.inner : FieldType → Shape
  | .plain shape => shape
  | .nullable inner => inner
  | .skipped shape => shape

/-- The layout of a declared field. -/
def FieldDef.layout (initial : String → Value) (field : FieldDef × Presence) : FieldLayout :=
  ⟨field.2, field.1.type.inner, field.1.type.shape.initial initial⟩

/-- The layout of a lowered field. -/
def StructCodec.layoutOf (scope : String) (initial : String → Value)
    (field : String × Schema.Kind × Option Nat) : FieldLayout :=
  ⟨field.2.2.elim .always .nullable, field.2.1.shape scope,
    (fieldShape scope field.2.1 field.2.2).initial initial⟩

/-- The fields of a record, given the initial values of the names. -/
def Definition.layout? (initial : String → Value) : Definition → Option (List FieldLayout)
  | .record fields => some ((numberFields 0 fields).map (FieldDef.layout initial))
  | .enumeration _ => none
  | .lowered scope code => some (code.fields.map (StructCodec.layoutOf scope initial))

namespace Catalogue

variable (catalogue : Catalogue)

/-- The fields of the record that a name stands for. -/
def layout? (name : String) : Option (List FieldLayout) :=
  match catalogue.get? name with
  | some definition => definition.layout? catalogue.initial
  | none => none

/-- The fields of the record in a shape. -/
def fieldsOf (shape : Shape) : List FieldLayout :=
  match shape.bare with
  | .named name => (catalogue.layout? name).getD []
  | _ => []

/-- The bytes of a variant of the enumeration in a shape. -/
def variantBytes (shape : Shape) (discriminant : Int) : List UInt8 :=
  match shape.bare with
  | .named name =>
    match catalogue.get? name with
    | some (.enumeration e) => e.repr.format.encode (e.repr.format.wrap discriminant)
    | _ => []
  | _ => []

/-! ## 5. The values of a shape -/

/-- A value is of a shape.  Nothing is asked of skipped fields, which never reach the wire. -/
inductive HasShape : Shape → Value → Prop where
  | leaf {l : Leaf} {value : Value} (h : l.kind.Holds value) : HasShape (.leaf l) value
  | null {inner : Shape} : HasShape (.option inner) .null
  | present {inner : Shape} {value : Value} (h : HasShape inner value) :
    HasShape (.option inner) (.present value)
  | boxed {inner : Shape} {value : Value} (h : HasShape inner value) :
    HasShape (.boxed inner) value
  | shared {inner : Shape} {value : Value} (h : HasShape inner value) :
    HasShape (.shared inner) value
  | sequence {kind : SequenceKind} {element : Shape} {items : List Value}
    (h : ∀ item ∈ items, HasShape element item) : HasShape (.sequence kind element) (.list items)
  | array {length : Nat} {element : Shape} {items : List Value} (hlength : items.length = length)
    (h : ∀ item ∈ items, HasShape element item) : HasShape (.array length element) (.list items)
  | mapping {kind : MapKind} {key value : Shape} {entries : List (Value × Value)}
    (hkey : ∀ entry ∈ entries, HasShape key entry.1)
    (hvalue : ∀ entry ∈ entries, HasShape value entry.2) :
    HasShape (.mapping kind key value) (.entries entries)
  | variant {name : String} {e : Enumeration} {v : Variant}
    (hname : catalogue.get? name = some (.enumeration e)) (h : v ∈ e.variants) :
    HasShape (.named name) (.variant v.discriminant)
  | record {name : String} {fields : List FieldLayout} {values : List Value}
    (hname : catalogue.layout? name = some fields) (hlength : fields.length = values.length)
    (htakes : ∀ pair ∈ fields.zip values, pair.1.Takes pair.2)
    (h : ∀ pair ∈ fields.zip values, ∀ content, pair.1.content? pair.2 = some content →
      HasShape pair.1.shape content) : HasShape (.named name) (.record values)

/-! ## 6. What stands on the wire -/

mutual

/-- Whether every length, duration and instant of a value has a place on the wire. -/
def fits (shape : Shape) : Value → Bool
  | .null => true
  | .present value => fits shape.inner value
  | .list items => decide (items.length ≤ maxLength) && fitsItems shape.element items
  | .entries entries =>
    decide (entries.length ≤ maxLength) &&
      fitsEntries shape.entry.2.1 shape.entry.2.2 entries
  | .variant _ => true
  | .record values => fitsFields (catalogue.fieldsOf shape) values
  | value => shape.leafKind.fits value

/-- Whether every item fits. -/
def fitsItems (shape : Shape) : List Value → Bool
  | [] => true
  | item :: rest => fits shape item && fitsItems shape rest

/-- Whether every key and every value fits. -/
def fitsEntries (key value : Shape) : List (Value × Value) → Bool
  | [] => true
  | (k, v) :: rest =>
    (fits key k && fits value v) && fitsEntries key value rest

/-- Whether every field fits. -/
def fitsFields : List FieldLayout → List Value → Bool
  | field :: fields, value :: values =>
    (match field.presence, value with
      | .always, value => fits field.shape value
      | .nullable _, .present inner => fits field.shape inner
      | _, _ => true) && fitsFields fields values
  | _, _ => true

end

mutual

/-- The bytes of a value. -/
def wire [DecimalForm] (shape : Shape) : Value → List UInt8
  | .null => shape.inner.nullForm.null
  | .present value => shape.inner.nullForm.lead ++ wire shape.inner value
  | .list items => lengthBytes items.length ++ wireItems shape.element items
  | .entries entries =>
    lengthBytes entries.length ++
      wireEntries shape.entry.2.1 shape.entry.2.2 entries
  | .variant discriminant => catalogue.variantBytes shape discriminant
  | .record values =>
    bitsetOf (catalogue.fieldsOf shape) values ++
      wireFields (catalogue.fieldsOf shape) values
  | value => shape.leafKind.wire value

/-- The bytes of items, one after the other. -/
def wireItems [DecimalForm] (shape : Shape) : List Value → List UInt8
  | [] => []
  | item :: rest => wire shape item ++ wireItems shape rest

/-- The bytes of entries, one after the other. -/
def wireEntries [DecimalForm] (key value : Shape) : List (Value × Value) → List UInt8
  | [] => []
  | (k, v) :: rest =>
    (wire key k ++ wire value v) ++ wireEntries key value rest

/-- The bytes of fields, one after the other. -/
def wireFields [DecimalForm] : List FieldLayout → List Value → List UInt8
  | field :: fields, value :: values =>
    (match field.presence, value with
      | .always, value => wire field.shape value
      | .nullable _, .present inner => wire field.shape inner
      | _, _ => []) ++ wireFields fields values
  | _, _ => []

end

mutual

/-- The value that the bytes of a value stand for. -/
def restored (shape : Shape) : Value → Value
  | .present value => .present (restored shape.inner value)
  | .list items => .list (restoredItems shape.element items)
  | .entries entries =>
    .entries (shape.entry.1.ofPairs
      (restoredEntries shape.entry.2.1 shape.entry.2.2 entries))
  | .record values => .record (restoredFields (catalogue.fieldsOf shape) values)
  | value => value

/-- What the bytes of items stand for. -/
def restoredItems (shape : Shape) : List Value → List Value
  | [] => []
  | item :: rest => restored shape item :: restoredItems shape rest

/-- What the bytes of entries stand for. -/
def restoredEntries (key value : Shape) : List (Value × Value) → List (Value × Value)
  | [] => []
  | (k, v) :: rest =>
    (restored key k, restored value v) ::
      restoredEntries key value rest

/-- What the bytes of fields stand for: a skipped field is initial. -/
def restoredFields : List FieldLayout → List Value → List Value
  | field :: fields, value :: values =>
    (match field.presence, value with
      | .always, value => restored field.shape value
      | .nullable _, .present inner => .present (restored field.shape inner)
      | .nullable _, value => value
      | .skipped, _ => field.initial) :: restoredFields fields values
  | _, _ => []

end

/-! ## 7. The parts of a value -/

variable {catalogue}

theorem fitsItems_iff {shape : Shape} {items : List Value} :
    catalogue.fitsItems shape items = true ↔ ∀ item ∈ items, catalogue.fits shape item = true := by
  induction items with
  | nil => simp [fitsItems]
  | cons item rest ih => simp [fitsItems, ih]

theorem fitsEntries_iff {key value : Shape} {entries : List (Value × Value)} :
    catalogue.fitsEntries key value entries = true ↔ ∀ entry ∈ entries,
      catalogue.fits key entry.1 = true ∧ catalogue.fits value entry.2 = true := by
  induction entries with
  | nil => simp [fitsEntries]
  | cons entry rest ih => simp [fitsEntries, ih]

theorem fitsFields_cons (field : FieldLayout) (fields : List FieldLayout) (value : Value)
    (values : List Value) : catalogue.fitsFields (field :: fields) (value :: values) =
      ((field.content? value).all (catalogue.fits field.shape) &&
        catalogue.fitsFields fields values) := by
  obtain ⟨presence, shape, initial⟩ := field
  cases presence <;> cases value <;> rfl

theorem fitsFields_iff {fields : List FieldLayout} {values : List Value} :
    catalogue.fitsFields fields values = true ↔
      ∀ pair ∈ fields.zip values, ∀ content, pair.1.content? pair.2 = some content →
        catalogue.fits pair.1.shape content = true := by
  induction fields generalizing values with
  | nil => simp [fitsFields]
  | cons field fields ih =>
    cases values with
    | nil => simp [fitsFields]
    | cons value values =>
      rw [fitsFields_cons, List.zip_cons_cons, List.forall_mem_cons, ← ih, Bool.and_eq_true,
        Option.all_eq_true]

theorem wireItems_eq [DecimalForm] (shape : Shape) (items : List Value) :
    catalogue.wireItems shape items = items.flatMap (catalogue.wire shape) := by
  induction items with
  | nil => rfl
  | cons item rest ih => rw [wireItems, ih, List.flatMap_cons]

theorem wireEntries_eq [DecimalForm] (key value : Shape) (entries : List (Value × Value)) :
    catalogue.wireEntries key value entries =
      entries.flatMap fun entry => catalogue.wire key entry.1 ++ catalogue.wire value entry.2 := by
  induction entries with
  | nil => rfl
  | cons entry rest ih => rw [wireEntries, ih, List.flatMap_cons]

theorem wireFields_cons [DecimalForm] (field : FieldLayout) (fields : List FieldLayout)
    (value : Value) (values : List Value) : catalogue.wireFields (field :: fields) (value :: values) =
      field.bytes catalogue.wire value ++ catalogue.wireFields fields values := by
  obtain ⟨presence, shape, initial⟩ := field
  cases presence <;> cases value <;> rfl

theorem wireFields_eq [DecimalForm] (fields : List FieldLayout) (values : List Value) :
    catalogue.wireFields fields values =
      (fields.zip values).flatMap fun pair => pair.1.bytes catalogue.wire pair.2 := by
  induction fields generalizing values with
  | nil => cases values <;> rfl
  | cons field fields ih =>
    cases values with
    | nil => rfl
    | cons value values =>
      rw [wireFields_cons, ih, List.zip_cons_cons, List.flatMap_cons]

theorem restoredItems_eq (shape : Shape) (items : List Value) :
    catalogue.restoredItems shape items = items.map (catalogue.restored shape) := by
  induction items with
  | nil => rfl
  | cons item rest ih => rw [restoredItems, ih, List.map_cons]

theorem restoredEntries_eq (key value : Shape) (entries : List (Value × Value)) :
    catalogue.restoredEntries key value entries =
      entries.map fun entry =>
        (catalogue.restored key entry.1, catalogue.restored value entry.2) := by
  induction entries with
  | nil => rfl
  | cons entry rest ih => rw [restoredEntries, ih, List.map_cons]

theorem restoredFields_cons (field : FieldLayout) (fields : List FieldLayout) (value : Value)
    (values : List Value) : catalogue.restoredFields (field :: fields) (value :: values) =
      field.restored catalogue.restored value :: catalogue.restoredFields fields values := by
  obtain ⟨presence, shape, initial⟩ := field
  cases presence <;> cases value <;> rfl

theorem restoredFields_eq (fields : List FieldLayout) (values : List Value) :
    catalogue.restoredFields fields values =
      (fields.zip values).map fun pair => pair.1.restored catalogue.restored pair.2 := by
  induction fields generalizing values with
  | nil => cases values <;> rfl
  | cons field fields ih =>
    cases values with
    | nil => rfl
    | cons value values =>
      rw [restoredFields_cons, ih, List.zip_cons_cons, List.map_cons]

/-- The fields in a name that stands for a record. -/
theorem fieldsOf_named {name : String} {fields : List FieldLayout}
    (h : catalogue.layout? name = some fields) : catalogue.fieldsOf (.named name) = fields := by
  show (catalogue.layout? name).getD [] = fields
  rw [h]
  rfl

theorem wire_boxed [DecimalForm] (inner : Shape) (value : Value) :
    catalogue.wire (.boxed inner) value = catalogue.wire inner value := by
  cases value <;> rfl

theorem wire_shared [DecimalForm] (inner : Shape) (value : Value) :
    catalogue.wire (.shared inner) value = catalogue.wire inner value := by
  cases value <;> rfl

theorem fits_boxed (inner : Shape) (value : Value) :
    catalogue.fits (.boxed inner) value = catalogue.fits inner value := by
  cases value <;> rfl

theorem fits_shared (inner : Shape) (value : Value) :
    catalogue.fits (.shared inner) value = catalogue.fits inner value := by
  cases value <;> rfl

theorem restored_boxed (inner : Shape) (value : Value) :
    catalogue.restored (.boxed inner) value = catalogue.restored inner value := by
  cases value <;> rfl

theorem restored_shared (inner : Shape) (value : Value) :
    catalogue.restored (.shared inner) value = catalogue.restored inner value := by
  cases value <;> rfl

theorem wire_bare [DecimalForm] (shape : Shape) (value : Value) :
    catalogue.wire shape.bare value = catalogue.wire shape value := by
  induction shape with
  | boxed inner ih =>
    rw [wire_boxed]
    exact ih
  | shared inner ih =>
    rw [wire_shared]
    exact ih
  | _ => rfl

theorem fits_bare (shape : Shape) (value : Value) :
    catalogue.fits shape.bare value = catalogue.fits shape value := by
  induction shape with
  | boxed inner ih =>
    rw [fits_boxed]
    exact ih
  | shared inner ih =>
    rw [fits_shared]
    exact ih
  | _ => rfl

theorem restored_bare (shape : Shape) (value : Value) :
    catalogue.restored shape.bare value = catalogue.restored shape value := by
  induction shape with
  | boxed inner ih =>
    rw [restored_boxed]
    exact ih
  | shared inner ih =>
    rw [restored_shared]
    exact ih
  | _ => rfl

theorem hasShape_bare_iff {shape : Shape} {value : Value} :
    catalogue.HasShape shape.bare value ↔ catalogue.HasShape shape value := by
  induction shape with
  | boxed inner ih =>
    exact ih.trans ⟨.boxed, fun h => by cases h with | boxed h => exact h⟩
  | shared inner ih =>
    exact ih.trans ⟨.shared, fun h => by cases h with | shared h => exact h⟩
  | _ => exact Iff.rfl

theorem HasShape.of_bare {shape : Shape} {value : Value}
    (h : catalogue.HasShape shape.bare value) : catalogue.HasShape shape value :=
  hasShape_bare_iff.mp h

theorem hasShape_present_iff {inner : Shape} {value : Value} :
    catalogue.HasShape (.option inner) (.present value) ↔ catalogue.HasShape inner value :=
  ⟨fun h => by cases h with | present h => exact h, .present⟩

theorem hasShape_sequence_iff {kind : SequenceKind} {element : Shape} {items : List Value} :
    catalogue.HasShape (.sequence kind element) (.list items) ↔
      ∀ item ∈ items, catalogue.HasShape element item :=
  ⟨fun h => by cases h with | sequence h => exact h, .sequence⟩

theorem hasShape_array_iff {length : Nat} {element : Shape} {items : List Value} :
    catalogue.HasShape (.array length element) (.list items) ↔
      items.length = length ∧ ∀ item ∈ items, catalogue.HasShape element item :=
  ⟨fun h => by cases h with | array hlength h => exact ⟨hlength, h⟩, fun h => .array h.1 h.2⟩

theorem hasShape_mapping_iff {kind : MapKind} {key value : Shape} {entries : List (Value × Value)} :
    catalogue.HasShape (.mapping kind key value) (.entries entries) ↔
      ∀ entry ∈ entries, catalogue.HasShape key entry.1 ∧ catalogue.HasShape value entry.2 := by
  constructor
  · intro h entry hentry
    cases h with
    | mapping hkey hvalue => exact ⟨hkey entry hentry, hvalue entry hentry⟩
  · exact fun h => .mapping (fun entry hentry => (h entry hentry).1)
      fun entry hentry => (h entry hentry).2

theorem hasShape_record_iff {name : String} {fields : List FieldLayout} {values : List Value}
    (hname : catalogue.layout? name = some fields) (hlength : fields.length = values.length)
    (htakes : ∀ pair ∈ fields.zip values, pair.1.Takes pair.2) :
    catalogue.HasShape (.named name) (.record values) ↔
      ∀ pair ∈ fields.zip values, pair.1.IsGood catalogue.HasShape pair.2 := by
  refine ⟨fun h => ?_, .record hname hlength htakes⟩
  cases h with
  | record hname' _ _ h =>
    cases hname.symm.trans hname'
    exact h

theorem wire_variant [DecimalForm] {name : String} {e : Enumeration}
    (h : catalogue.get? name = some (.enumeration e)) (discriminant : Int) :
    catalogue.wire (.named name) (.variant discriminant) =
      e.repr.format.encode (e.repr.format.wrap discriminant) := by
  show (match catalogue.get? name with
    | some (.enumeration e) => e.repr.format.encode (e.repr.format.wrap discriminant)
    | _ => []) = _
  rw [h]

/-- What stands on the wire for a value of a leaf is up to the leaf. -/
theorem wire_leaf [DecimalForm] {l : Leaf} {value : Value} (h : l.kind.Holds value) :
    catalogue.wire (.leaf l) value = l.kind.wire value := by
  cases h.isScalar <;> rfl

/-- Whether a value of a leaf has a place on the wire is up to the leaf. -/
theorem fits_leaf {l : Leaf} {value : Value} (h : l.kind.Holds value) :
    catalogue.fits (.leaf l) value = l.kind.fits value := by
  cases h.isScalar <;> rfl

/-- A value of a leaf comes back as it is. -/
theorem restored_leaf {l : Leaf} {value : Value} (h : l.kind.Holds value) :
    catalogue.restored (.leaf l) value = value := by
  cases h.isScalar <;> rfl

/-! ## 8. Heights -/

theorem height_le_of_mem_items {item : Value} {items : List Value} (h : item ∈ items) :
    item.height ≤ Value.heightOfItems items := by
  induction items with
  | nil => cases h
  | cons head rest ih =>
    rw [Value.heightOfItems]
    rcases List.mem_cons.mp h with rfl | hrest
    · exact Nat.le_max_left _ _
    · exact (ih hrest).trans (Nat.le_max_right _ _)

theorem height_le_of_mem_entries {entry : Value × Value} {entries : List (Value × Value)}
    (h : entry ∈ entries) : entry.1.height ≤ Value.heightOfEntries entries ∧
      entry.2.height ≤ Value.heightOfEntries entries := by
  induction entries with
  | nil => cases h
  | cons head rest ih =>
    rw [Value.heightOfEntries]
    rcases List.mem_cons.mp h with rfl | hrest
    · omega
    · have hbound := ih hrest
      omega

/-- What a field has on the wire is no higher than its value. -/
theorem height_content_le {field : FieldLayout} {value content : Value}
    (h : field.content? value = some content) : content.height ≤ value.height := by
  unfold FieldLayout.content? at h
  cases hpresence : field.presence with
  | always =>
    rw [hpresence] at h
    cases h
    exact Nat.le_refl _
  | skipped =>
    rw [hpresence] at h
    cases h
  | nullable slot =>
    rw [hpresence] at h
    cases value <;> cases h
    rw [Value.height]
    exact Nat.le_succ _

end Catalogue

end Wireform
