import Wireform.Proofs.Format
import Wireform.Proofs.NullBits

/-!
# The layout of records

Declared and lowered records come down to one thing.  A *planned* structure has numbered slots and
fields of different names; the steps that it is lowered to then write, measure and read over just
as `Codec.record` does for its fields.  What is left of the difference is that a lowered record is
read afresh by reading over its initial value.

`RecordCodec codec fields` says this of a codec and some fields, and `Definition.codec_layout` finds
such a codec behind every record of a catalogue whose lowered structures are planned.
-/
namespace Wireform

open Schema (FieldPlan Kind Step StructCode TypeSchema)

/-! ## 1. Numbered slots -/

theorem numbered_numberFields (slot : Nat) (fields : List FieldDef) :
    Numbered slot ((numberFields slot fields).map Prod.snd) := by
  induction fields generalizing slot with
  | nil => exact trivial
  | cons field fields ih =>
    unfold numberFields
    cases field.type with
    | plain _ => exact ih slot
    | nullable _ => exact ⟨rfl, ih (slot + 1)⟩
    | skipped _ => exact ih slot

/-- Numbering keeps the fields. -/
theorem map_fst_numberFields (slot : Nat) (fields : List FieldDef) :
    (numberFields slot fields).map Prod.fst = fields := by
  induction fields generalizing slot with
  | nil => rfl
  | cons field fields ih =>
    unfold numberFields
    split <;> rw [List.map_cons, ih]

/-- A numbered field takes part as its declaration says. -/
theorem presence_numberFields {slot : Nat} {fields : List FieldDef} {field : FieldDef × Presence}
    (h : field ∈ numberFields slot fields) :
    match field.1.type with
    | .plain _ => field.2 = .always
    | .nullable _ => ∃ own, field.2 = .nullable own
    | .skipped _ => field.2 = .skipped := by
  induction fields generalizing slot with
  | nil => cases h
  | cons head fields ih =>
    obtain ⟨name, type⟩ := head
    cases type with
    | plain shape =>
      rcases List.mem_cons.mp h with rfl | hrest
      · exact rfl
      · exact ih hrest
    | nullable inner =>
      rcases List.mem_cons.mp h with rfl | hrest
      · exact ⟨slot + 1, rfl⟩
      · exact ih hrest
    | skipped shape =>
      rcases List.mem_cons.mp h with rfl | hrest
      · exact rfl
      · exact ih hrest

@[simp] theorem nullableCount_cons (field : FieldLayout) (fields : List FieldLayout) :
    nullableCount (field :: fields) =
      (if field.isNullable then 1 else 0) + nullableCount fields := by
  unfold nullableCount
  rw [List.filter_cons]
  split
  · rw [List.length_cons, Nat.add_comm]
  · rw [Nat.zero_add]

/-- The slots of numbered fields are those behind the first one, one for each nullable field. -/
theorem Numbered.bounds {slot own : Nat} {fields : List FieldLayout}
    (h : Numbered slot (fields.map FieldLayout.presence))
    {field : FieldLayout} (hfield : field ∈ fields) (hown : field.presence = .nullable own) :
    slot + 1 ≤ own ∧ own ≤ slot + nullableCount fields := by
  induction fields generalizing slot with
  | nil => cases hfield
  | cons head fields ih =>
    rw [List.map_cons] at h
    rw [nullableCount_cons]
    rcases List.mem_cons.mp hfield with rfl | hfield
    · rw [hown] at h
      have hnext : own = slot + 1 := h.1
      have hnullable : field.isNullable = true := by rw [FieldLayout.isNullable, hown]
      rw [hnullable, if_pos rfl]
      omega
    · cases hpresence : head.presence with
      | nullable first =>
        rw [hpresence] at h
        have hnullable : head.isNullable = true := by rw [FieldLayout.isNullable, hpresence]
        have hbound := ih h.2 hfield
        rw [hnullable, if_pos rfl]
        omega
      | always | skipped =>
        rw [hpresence] at h
        have hbound := ih h hfield
        omega

theorem marksOf_cons (field : FieldLayout) (fields : List FieldLayout) (value : Value)
    (values : List Value) : marksOf (field :: fields) (value :: values) =
      (field.mark? value).toList ++ marksOf fields values := by
  unfold marksOf
  rw [List.zip_cons_cons, List.filterMap_cons]
  cases field.mark? value <;> rfl

/-- A mark is that of a field with its slot. -/
theorem exists_of_mem_marksOf {fields : List FieldLayout} {values : List Value}
    {mark : Nat × Bool} (h : mark ∈ marksOf fields values) :
    ∃ field ∈ fields, field.presence = .nullable mark.1 := by
  obtain ⟨⟨field, value⟩, hmem, hmark⟩ := List.mem_filterMap.mp h
  refine ⟨field, (List.of_mem_zip hmem).1, ?_⟩
  unfold FieldLayout.mark? at hmark
  cases hpresence : field.presence with
  | nullable slot =>
    rw [hpresence] at hmark
    cases hmark
    rfl
  | always | skipped =>
    rw [hpresence] at hmark
    cases hmark

/-- The marks of numbered fields come in the order of their slots. -/
theorem Numbered.marksOf_pairwise {slot : Nat} {fields : List FieldLayout}
    (h : Numbered slot (fields.map FieldLayout.presence)) (values : List Value) :
    (marksOf fields values).Pairwise fun a b => a.1 < b.1 := by
  induction fields generalizing slot values with
  | nil => exact .nil
  | cons field fields ih =>
    cases values with
    | nil => exact .nil
    | cons value values =>
      rw [List.map_cons] at h
      rw [marksOf_cons]
      cases hpresence : field.presence with
      | nullable own =>
        rw [hpresence] at h
        rw [FieldLayout.mark?, hpresence]
        have hnext : own = slot + 1 := h.1
        refine List.pairwise_cons.mpr ⟨fun mark hmark => ?_, ih h.2 values⟩
        obtain ⟨other, hother, hslot⟩ := exists_of_mem_marksOf hmark
        have hbound := h.2.bounds hother hslot
        dsimp only
        omega
      | always | skipped =>
        rw [hpresence] at h
        rw [FieldLayout.mark?, hpresence]
        exact ih h values

theorem le_bitsetSize (count : Nat) : count ≤ 8 * bitsetSize count := by
  unfold bitsetSize
  omega

/-- The slot of a field has a position in the bitset of its record. -/
theorem Numbered.slot_range {fields : List FieldLayout}
    (h : Numbered 0 (fields.map FieldLayout.presence))
    {field : FieldLayout} (hfield : field ∈ fields) {slot : Nat}
    (hslot : field.presence = .nullable slot) : 1 ≤ slot ∧ slot ≤ 8 * bitsetBytesOf fields := by
  have hbound := h.bounds hfield hslot
  have hcount := le_bitsetSize (nullableCount fields)
  unfold bitsetBytesOf
  omega

/-- The marks of numbered fields have positions in the bitset of their record. -/
theorem Numbered.marksOf_range {fields : List FieldLayout}
    (h : Numbered 0 (fields.map FieldLayout.presence)) (values : List Value) :
    ∀ mark ∈ marksOf fields values, 1 ≤ mark.1 ∧ mark.1 ≤ 8 * bitsetBytesOf fields := by
  intro mark hmark
  obtain ⟨field, hfield, hslot⟩ := exists_of_mem_marksOf hmark
  exact h.slot_range hfield hslot

/-- **The bitset of a record answers for each nullable field whether it is null.** -/
theorem Numbered.bitset_answers {fields : List FieldLayout}
    (h : Numbered 0 (fields.map FieldLayout.presence))
    (values : List Value) :
    ∃ set : NullBitset (bitsetBytesOf fields),
      NullBitset.ofMarks? (marksOf fields values) = some set ∧
        bitsetOf fields values = set.toBytes ∧
        ∀ mark ∈ marksOf fields values, set.isNull? mark.1 = some mark.2 := by
  obtain ⟨set, hset, hanswers⟩ :=
    NullBitset.ofMarks?_answers (h.marksOf_pairwise values) (h.marksOf_range values)
  exact ⟨set, hset, by rw [bitsetOf, hset], hanswers⟩

/-! ## 2. Fields as codecs -/

variable (codecOf : Shape → Codec Value)

theorem fieldsBitsetBytes_layout (fields : List FieldLayout) :
    fieldsBitsetBytes (fields.map (FieldLayout.codec codecOf)) = bitsetBytesOf fields := by
  unfold fieldsBitsetBytes bitsetBytesOf
  rw [List.filter_map, List.length_map]
  rfl

/-- A record is read as a bitset for its nullable fields, and then the fields. -/
theorem Codec.read_record (fields : List FieldLayout) :
    (Codec.record (fields.map (FieldLayout.codec codecOf))).read = (do
      let set ← (NullBitset.read : Reader (NullBitset (bitsetBytesOf fields)))
      readFields set (fields.map (FieldLayout.codec codecOf))) := by
  rw [← fieldsBitsetBytes_layout codecOf fields]
  rfl

/-- The fixed sizes of the fields on the wire. -/
def wiredSizes (sizeOf : Shape → Option Nat) (fields : List FieldLayout) : List (Option Nat) :=
  (fields.filter FieldLayout.isWired).map fun field => sizeOf field.shape

theorem fieldsFixedSize_layout (fields : List FieldLayout) :
    fieldsFixedSize (fields.map (FieldLayout.codec codecOf)) =
      if bitsetBytesOf fields = 0 then
        Codec.sumFixedSizes (wiredSizes (fun shape => (codecOf shape).fixedSize) fields)
      else none := by
  unfold fieldsFixedSize wiredSizes
  rw [fieldsBitsetBytes_layout, List.filter_map, List.map_map]
  rfl

theorem fieldsMarks_layout (fields : List FieldLayout) (values : List Value) :
    fieldsMarks (fields.map (FieldLayout.codec codecOf)) values = marksOf fields values := by
  induction fields generalizing values with
  | nil => rfl
  | cons field fields ih =>
    cases values with
    | nil => rfl
    | cons value values =>
      have hmark : (field.codec codecOf).mark? value = field.mark? value := rfl
      rw [List.map_cons, fieldsMarks, ih, hmark, marksOf_cons]

/-! ## 3. Lowered structures -/

/-- How a planned field takes part. -/
def Schema.FieldPlan.presence (field : FieldPlan) : Presence := field.slot.elim .always .nullable

/-- A planned structure: the slots are numbered, and the fields have different names. -/
structure Schema.TypeSchema.IsPlan (schema : TypeSchema) : Prop where
  numbered : Numbered 0 (schema.fields.map FieldPlan.presence)
  names : (schema.fields.map FieldPlan.name).Nodup

namespace StructCodec

/-- A planned field as a lowered one. -/
def lowerField (field : FieldPlan) : String × Kind × Option Nat :=
  (field.name, field.kind, field.slot)

/-- The step of a planned field. -/
def fieldStep (field : FieldPlan) : Step := .field field.name field.kind field.slot

theorem fields_ofSchema (schema : TypeSchema) :
    (Schema.StructCode.ofSchema schema).fields = schema.fields.map lowerField := by
  have hsteps : ∀ found : Step → Option (String × Kind × Option Nat),
      (∀ field, found (fieldStep field) = some (lowerField field)) →
      (schema.fields.map fieldStep).filterMap found = schema.fields.map lowerField := by
    intro found hfound
    rw [List.filterMap_map, ← List.filterMap_eq_map]
    exact congrArg (fun f => schema.fields.filterMap f) (funext hfound)
  unfold Schema.StructCode.fields Schema.StructCode.ofSchema
  rw [List.filterMap_append]
  split
  · exact hsteps _ fun _ => rfl
  · exact hsteps _ fun _ => rfl

theorem bitsetBytes_ofSchema (schema : TypeSchema) :
    (Schema.StructCode.ofSchema schema).bitsetBytes = schema.bitsetBytes := by
  have hsteps : ∀ found : Step → Option Nat, (∀ field, found (fieldStep field) = none) →
      (schema.fields.map fieldStep).findSome? found = none := by
    intro found hfound
    rw [List.findSome?_eq_none_iff]
    intro step hstep
    obtain ⟨field, -, rfl⟩ := List.mem_map.mp hstep
    exact hfound field
  unfold Schema.StructCode.bitsetBytes Schema.StructCode.ofSchema
  by_cases hbytes : 0 < schema.bitsetBytes
  · rw [if_pos hbytes]
    rfl
  · rw [if_neg hbytes, List.nil_append]
    change ((schema.fields.map fieldStep).findSome? _).getD 0 = _
    rw [hsteps]
    · exact (Nat.eq_zero_of_not_pos hbytes).symm
    · intro field
      rfl

/-- The bitset of a planned structure has a bit for each of its nullable fields. -/
theorem bitsetBytesOf_layout (scope : String) (initial : String → Value) (schema : TypeSchema) :
    bitsetBytesOf ((schema.fields.map lowerField).map (layoutOf scope initial)) =
      schema.bitsetBytes := by
  have hnullable : ∀ field : FieldPlan,
      (layoutOf scope initial (lowerField field)).isNullable = field.isNullable := by
    intro field
    unfold FieldPlan.isNullable FieldLayout.isNullable layoutOf lowerField
    cases field.slot <;> rfl
  unfold bitsetBytesOf nullableCount TypeSchema.bitsetBytes TypeSchema.nullableCount
    TypeSchema.nullableFields
  rw [List.map_map, List.filter_map, List.length_map]
  congr 2
  exact List.filter_congr fun field _ => hnullable field

section

variable (scope : String) (initial : String → Value) (codecOf : Shape → Codec Value)

/-- The codec of a planned field. -/
def planCodec (field : FieldPlan) : FieldCodec :=
  (layoutOf scope initial (lowerField field)).codec codecOf

/-- The codecs of the kinds in a scope. -/
abbrev kindCodec (kind : Kind) : Codec Value := codecOf (kind.shape scope)

theorem writeField_eq (field : FieldPlan) (value : Value) :
    writeField (kindCodec scope codecOf) field.kind field.slot value =
      (planCodec scope initial codecOf field).write value := by
  unfold writeField planCodec FieldCodec.write FieldLayout.codec layoutOf lowerField
  cases field.slot <;> rfl

theorem fieldSize_eq (field : FieldPlan) (value : Value) :
    fieldSize (kindCodec scope codecOf) field.kind field.slot value =
      (planCodec scope initial codecOf field).size value := by
  unfold fieldSize planCodec FieldCodec.size FieldLayout.codec layoutOf lowerField
  cases field.slot <;> rfl

theorem overwriteField_eq (field : FieldPlan) {bytes : Nat} (set : NullBitset bytes) :
    overwriteField (kindCodec scope codecOf) field.kind field.slot ⟨bytes, set⟩ =
      (planCodec scope initial codecOf field).overwrite set := by
  unfold overwriteField planCodec FieldCodec.overwrite FieldLayout.codec layoutOf lowerField
  cases field.slot <;> rfl

/-- The steps of the fields write what the fields of a record write. -/
theorem runWrite_fieldSteps (all : List (String × Value)) (fields : List FieldPlan)
    (values : List Value) :
    runWrite (kindCodec scope codecOf) all (fields.map fieldStep) values =
      writeFields (fields.map (planCodec scope initial codecOf)) values := by
  induction fields generalizing values with
  | nil => cases values <;> rfl
  | cons field fields ih =>
    cases values with
    | nil => rfl
    | cons value values =>
      simp only [List.map_cons, fieldStep, runWrite, writeFields]
      rw [writeField_eq scope initial]
      congr 1
      funext _
      exact ih values

/-- The steps of the fields read over what the fields of a record read over. -/
theorem runOverwrite_fieldSteps {bytes : Nat} (set : NullBitset bytes) (fields : List FieldPlan)
    (values : List Value) (buffer : Buffer) (cursor : Nat) :
    runOverwrite (kindCodec scope codecOf) ⟨bytes, set⟩ (fields.map fieldStep) values buffer cursor =
      overwriteFields set (fields.map (planCodec scope initial codecOf)) values buffer cursor := by
  induction fields generalizing values cursor with
  | nil => cases values <;> rfl
  | cons field fields ih =>
    cases values with
    | nil => rfl
    | cons value values =>
      simp only [List.map_cons, fieldStep, runOverwrite, overwriteFields]
      rw [overwriteField_eq scope initial]
      cases ((planCodec scope initial codecOf field).overwrite set value buffer cursor).outcome with
      | ok _ => simp only [ih]
      | error failure => rfl

theorem sumFieldSizes_eq (fields : List FieldPlan) (values : List Value) :
    sumFieldSizes (kindCodec scope codecOf) (fields.map lowerField) values =
      fieldsSize (fields.map (planCodec scope initial codecOf)) values := by
  induction fields generalizing values with
  | nil => rfl
  | cons field fields ih =>
    cases values with
    | nil => rfl
    | cons value values =>
      simp only [List.map_cons, lowerField, sumFieldSizes, fieldsSize]
      rw [fieldSize_eq scope initial, ← ih]

end

/-- The slots that the step of a bitset lists. -/
def listedSlots (fields : List FieldPlan) : List (String × Nat) :=
  fields.filterMap fun field => field.slot.map fun slot => (field.name, slot)

/-- Without a bitset no slot is listed. -/
theorem listedSlots_eq_nil {schema : TypeSchema} (h : schema.bitsetBytes = 0) :
    listedSlots schema.fields = [] := by
  have hcount : schema.nullableFields.length = 0 := by
    unfold TypeSchema.bitsetBytes TypeSchema.nullableCount bitsetSize at h
    omega
  have hnil : schema.nullableFields = [] := List.eq_nil_of_length_eq_zero hcount
  unfold TypeSchema.nullableFields FieldPlan.isNullable at hnil
  rw [List.filter_eq_nil_iff] at hnil
  unfold listedSlots
  rw [List.filterMap_eq_nil_iff]
  intro field hfield
  have hslot := hnil field hfield
  cases hnone : field.slot with
  | none => rfl
  | some slot => simp [hnone] at hslot

/-- Looking the values up by name gives each field its own. -/
theorem marks_listedSlots {fields : List FieldPlan} {values : List Value}
    (scope : String) (initial : String → Value) (all : List (String × Value))
    (hlength : fields.length = values.length)
    (h : ∀ pair ∈ fields.zip values, all.lookup pair.1.name = some pair.2) :
    marks all (listedSlots fields) =
      marksOf ((fields.map lowerField).map (layoutOf scope initial)) values := by
  induction fields generalizing values with
  | nil => rfl
  | cons field fields ih =>
    cases values with
    | nil => cases hlength
    | cons value values =>
      have hlookup := h (field, value) List.mem_cons_self
      have hrest := ih (Nat.succ.inj hlength) fun pair hpair => h pair (List.mem_cons_of_mem _ hpair)
      rw [List.map_cons, List.map_cons, marksOf_cons, ← hrest]
      unfold listedSlots
      rw [List.filterMap_cons]
      cases hslot : field.slot with
      | none => simp [FieldLayout.mark?, layoutOf, lowerField, hslot]
      | some slot =>
        simp [FieldLayout.mark?, layoutOf, lowerField, hslot, marks, hlookup]

/-- Among different names each finds its own value. -/
theorem lookup_zip {names : List String} {values : List Value} (hnodup : names.Nodup) :
    ∀ pair ∈ names.zip values, (names.zip values).lookup pair.1 = some pair.2 := by
  induction names generalizing values with
  | nil => simp
  | cons name names ih =>
    cases values with
    | nil => simp
    | cons value values =>
      rw [List.nodup_cons] at hnodup
      intro pair hpair
      rw [List.zip_cons_cons] at hpair ⊢
      rcases List.mem_cons.mp hpair with rfl | hrest
      · simp
      · have hmem := (List.of_mem_zip hrest).1
        have hne : pair.1 ≠ name := fun heq => hnodup.1 (heq ▸ hmem)
        rw [List.lookup_cons, beq_false_of_ne hne]
        exact ih hnodup.2 pair hrest

end StructCodec

/-! ## 4. Records of either kind -/

/-- The codec measures, writes and reads over just as the record with the fields does; it reads as
that record reads or, if it is lowered, by reading over the initial values of the fields. -/
structure RecordCodec (codec : Codec (List Value)) (fields : List FieldCodec) : Prop where
  fixedSize : codec.fixedSize = fieldsFixedSize fields
  size : codec.size = (Codec.record fields).size
  write : ∀ values, fields.length = values.length →
    codec.write values = (Codec.record fields).write values
  overwrite : codec.overwrite = (Codec.record fields).overwrite
  read : codec.read = (Codec.record fields).read ∨ codec.read = fun buffer cursor =>
    ((Codec.record fields).overwrite (fields.map FieldCodec.initial) buffer cursor).toResult
  nullable : codec.nullable = .marker codec.size codec.write codec.read

theorem recordCodec_record (fields : List FieldCodec) :
    RecordCodec (Codec.record fields) fields :=
  ⟨rfl, rfl, fun _ _ => rfl, rfl, .inl rfl, rfl⟩

namespace StructCodec

section

variable (scope : String) (initial : String → Value) (codecOf : Shape → Codec Value)
  (schema : TypeSchema)

/-- The codecs of the fields of a planned structure. -/
def planCodecs : List FieldCodec :=
  ((schema.fields.map lowerField).map (layoutOf scope initial)).map (FieldLayout.codec codecOf)

theorem planCodecs_eq :
    planCodecs scope initial codecOf schema = schema.fields.map (planCodec scope initial codecOf) := by
  unfold planCodecs
  rw [List.map_map, List.map_map]
  rfl

theorem fieldsBitsetBytes_planCodecs :
    fieldsBitsetBytes (planCodecs scope initial codecOf schema) = schema.bitsetBytes := by
  rw [planCodecs, fieldsBitsetBytes_layout, bitsetBytesOf_layout]

/-- The steps of a planned structure write what the record of its fields writes. -/
theorem runWrite_ofSchema (h : schema.IsPlan) (values : List Value)
    (hlength : schema.fields.length = values.length) :
    runWrite (kindCodec scope codecOf) ((schema.fields.map FieldPlan.name).zip values)
        (Schema.StructCode.ofSchema schema).steps values =
      (Codec.record (planCodecs scope initial codecOf schema)).write values := by
  have hmarks : marks ((schema.fields.map FieldPlan.name).zip values) (listedSlots schema.fields) =
      fieldsMarks (planCodecs scope initial codecOf schema) values := by
    rw [planCodecs, fieldsMarks_layout]
    refine marks_listedSlots scope initial _ hlength fun pair hpair => ?_
    refine lookup_zip h.names (pair.1.name, pair.2) ?_
    rw [List.zip_map_left]
    exact List.mem_map.mpr ⟨pair, hpair, rfl⟩
  have hfields := runWrite_fieldSteps scope initial codecOf
    ((schema.fields.map FieldPlan.name).zip values) schema.fields values
  rw [← planCodecs_eq] at hfields
  show _ = (do
    writeMarks (fieldsBitsetBytes (planCodecs scope initial codecOf schema))
      (fieldsMarks (planCodecs scope initial codecOf schema) values)
    writeFields (planCodecs scope initial codecOf schema) values : Writer)
  rw [fieldsBitsetBytes_planCodecs, ← hmarks, ← hfields]
  unfold Schema.StructCode.ofSchema
  by_cases hbytes : 0 < schema.bitsetBytes
  · simp only [if_pos hbytes, List.cons_append, List.nil_append]
    rfl
  · have hzero : schema.bitsetBytes = 0 := Nat.eq_zero_of_not_pos hbytes
    -- without a bitset no field is nullable, and nothing is marked
    rw [hzero, listedSlots_eq_nil hzero]
    rfl

/-- The steps of a planned structure read over what the record of its fields reads over. -/
theorem runOverwrite_ofSchema :
    runOverwrite (kindCodec scope codecOf) ⟨0, .empty⟩ (Schema.StructCode.ofSchema schema).steps =
      (Codec.record (planCodecs scope initial codecOf schema)).overwrite := by
  funext target buffer cursor
  have hafter : ∀ bytes, bytes = schema.bitsetBytes →
      runOverwrite (kindCodec scope codecOf) ⟨0, .empty⟩ (Schema.StructCode.ofSchema schema).steps
          target buffer cursor =
        Overwritten.after (NullBitset.read : Reader (NullBitset bytes)) target buffer cursor
          fun set cursor => overwriteFields set (planCodecs scope initial codecOf schema) target
            buffer cursor := by
    rintro bytes rfl
    rw [planCodecs_eq]
    simp only [← runOverwrite_fieldSteps]
    unfold Schema.StructCode.ofSchema
    by_cases hbytes : 0 < schema.bitsetBytes
    · rw [if_pos hbytes]
      rfl
    · have hzero : schema.bitsetBytes = 0 := Nat.eq_zero_of_not_pos hbytes
      rw [hzero]
      rfl
  exact hafter _ (fieldsBitsetBytes_planCodecs scope initial codecOf schema)

theorem isWired_layoutOf (field : String × Kind × Option Nat) :
    (layoutOf scope initial field).isWired = true := by
  obtain ⟨name, kind, slot⟩ := field
  cases slot <;> rfl

/-- Every field of a lowered structure is on the wire. -/
theorem wiredSizes_layoutOf (sizeOf : Shape → Option Nat)
    (fields : List (String × Kind × Option Nat)) :
    wiredSizes sizeOf (fields.map (layoutOf scope initial)) =
      fields.map fun field => sizeOf (field.2.1.shape scope) := by
  have hwired : (fields.map (layoutOf scope initial)).filter FieldLayout.isWired =
      fields.map (layoutOf scope initial) := by
    rw [List.filter_eq_self]
    intro field hfield
    obtain ⟨lowered, -, rfl⟩ := List.mem_map.mp hfield
    exact isWired_layoutOf scope initial lowered
  unfold wiredSizes
  rw [hwired, List.map_map]
  rfl

theorem fixedSize_planCodecs :
    fieldsFixedSize (planCodecs scope initial codecOf schema) =
      if schema.bitsetBytes = 0 then
        Codec.sumFixedSizes ((schema.fields.map lowerField).map fun field =>
          (kindCodec scope codecOf field.2.1).fixedSize)
      else none := by
  unfold planCodecs
  rw [fieldsFixedSize_layout, bitsetBytesOf_layout, wiredSizes_layoutOf]

/-- The codec that runs the steps of a planned structure. -/
abbrev loweredCodec : Codec (List Value) :=
  (Schema.StructCode.ofSchema schema).codec (kindCodec scope codecOf)
    ((Schema.StructCode.ofSchema schema).fields.map fun field =>
      (fieldShape scope field.2.1 field.2.2).initial initial)

/-- A new structure is read over the initial values of its fields. -/
theorem read_loweredCodec :
    (loweredCodec scope initial codecOf schema).read = fun buffer cursor =>
      ((Codec.record (planCodecs scope initial codecOf schema)).overwrite
        ((planCodecs scope initial codecOf schema).map FieldCodec.initial) buffer cursor).toResult := by
  have hinitial : (Schema.StructCode.ofSchema schema).fields.map (fun field =>
      (fieldShape scope field.2.1 field.2.2).initial initial) =
      (planCodecs scope initial codecOf schema).map FieldCodec.initial := by
    rw [fields_ofSchema, planCodecs_eq, List.map_map, List.map_map]
    rfl
  rw [← runOverwrite_ofSchema, ← hinitial]
  rfl

/-- **A planned structure is run as the record of its fields.** -/
theorem recordCodec_ofSchema (h : schema.IsPlan) :
    RecordCodec (loweredCodec scope initial codecOf schema)
      (planCodecs scope initial codecOf schema) := by
  have hfixed : (loweredCodec scope initial codecOf schema).fixedSize =
      fieldsFixedSize (planCodecs scope initial codecOf schema) := by
    rw [fixedSize_planCodecs]
    unfold loweredCodec Schema.StructCode.codec
    simp only [fields_ofSchema, bitsetBytes_ofSchema]
  refine ⟨hfixed, ?_, fun values hlength => ?_, runOverwrite_ofSchema scope initial codecOf schema,
    .inr (read_loweredCodec scope initial codecOf schema), rfl⟩
  · funext values
    unfold loweredCodec Schema.StructCode.codec at hfixed ⊢
    dsimp only at hfixed ⊢
    rw [hfixed, fields_ofSchema, bitsetBytes_ofSchema, sumFieldSizes_eq scope initial,
      ← planCodecs_eq, ← fieldsBitsetBytes_planCodecs scope initial codecOf]
    rfl
  · have hnames : (Schema.StructCode.ofSchema schema).fields.map Prod.fst =
        schema.fields.map FieldPlan.name := by
      rw [fields_ofSchema, List.map_map]
      rfl
    rw [← runWrite_ofSchema scope initial codecOf schema h values ?_, ← hnames]
    · rfl
    · rw [← hlength, planCodecs_eq, List.length_map]

end

end StructCodec

namespace Definition

/-- A definition is planned if it is not lowered, or lowered from a plan. -/
def IsPlanned : Definition → Prop
  | .lowered _ code => ∃ schema : TypeSchema, code = .ofSchema schema ∧ schema.IsPlan
  | _ => True

variable (sharing : Sharing Value) (initial : String → Value) (named : String → Codec Value)

/-- The codecs of the fields of a layout. -/
abbrev fieldCodecs [DecimalForm] (fields : List FieldLayout) : List FieldCodec :=
  fields.map (FieldLayout.codec fun shape => shape.codec sharing named)

/-- **Behind every record of a catalogue is a record codec.** -/
theorem codec_layout [DecimalForm] {definition : Definition} (hplanned : definition.IsPlanned)
    {fields : List FieldLayout} (hlayout : definition.layout? initial = some fields) :
    ∃ inner, definition.codec sharing initial named = inner.lift Value.recordCase ∧
      RecordCodec inner (fieldCodecs sharing named fields) := by
  cases definition with
  | enumeration e => cases hlayout
  | record defs =>
    cases hlayout
    refine ⟨recordCodec sharing initial named defs, rfl, ?_⟩
    have hfields : (numberFields 0 defs).map
        (fun field => field.1.codec sharing initial named field.2) =
        fieldCodecs sharing named ((numberFields 0 defs).map (FieldDef.layout initial)) := by
      unfold fieldCodecs
      rw [List.map_map]
      refine List.map_congr_left fun field _ => ?_
      obtain ⟨⟨name, type⟩, presence⟩ := field
      cases type <;> rfl
    unfold recordCodec
    rw [hfields]
    exact recordCodec_record _
  | lowered scope code =>
    cases hlayout
    obtain ⟨schema, rfl, hplan⟩ := hplanned
    refine ⟨StructCodec.loweredCodec scope initial (fun shape => shape.codec sharing named) schema,
      rfl, ?_⟩
    have hrecord := StructCodec.recordCodec_ofSchema scope initial
      (fun shape => shape.codec sharing named) schema hplan
    unfold StructCodec.planCodecs at hrecord
    rw [← StructCodec.fields_ofSchema] at hrecord
    exact hrecord

/-- A definition is an enumeration, or it has fields. -/
theorem enumeration_or_layout (definition : Definition) : (∃ e, definition = .enumeration e) ∨
    ∃ fields, definition.layout? initial = some fields := by
  cases definition with
  | enumeration e => exact .inl ⟨e, rfl⟩
  | record fields => exact .inr ⟨_, rfl⟩
  | lowered scope code => exact .inr ⟨_, rfl⟩

/-- The slots of a planned record are numbered. -/
theorem layout_numbered {definition : Definition} (hplanned : definition.IsPlanned)
    {fields : List FieldLayout} (hlayout : definition.layout? initial = some fields) :
    Numbered 0 (fields.map FieldLayout.presence) := by
  cases definition with
  | enumeration e => cases hlayout
  | record defs =>
    cases hlayout
    have hnumbered := numbered_numberFields 0 defs
    rw [List.map_map]
    exact hnumbered
  | lowered scope code =>
    cases hlayout
    obtain ⟨schema, rfl, hplan⟩ := hplanned
    have hnumbered := hplan.numbered
    rw [StructCodec.fields_ofSchema, List.map_map, List.map_map]
    exact hnumbered

/-- A record starts with the initial values of its fields: on the wire, that of the shape. -/
theorem initial_layout {initial : String → Value} {definition : Definition}
    {fields : List FieldLayout} (hlayout : definition.layout? initial = some fields)
    (named : String → Value) : ∃ values, definition.initial named = .record values ∧
      fields.length = values.length ∧
      (∀ pair ∈ fields.zip values, ∀ content, pair.1.content? pair.2 = some content →
        content = pair.1.shape.initial named) ∧
      (named = initial → fields.map FieldLayout.initial = values) := by
  cases definition with
  | enumeration e => cases hlayout
  | record defs =>
    cases hlayout
    have hdefs : (defs.map fun field => field.type.shape.initial named) =
        (numberFields 0 defs).map fun field => field.1.type.shape.initial named := by
      conv => lhs; rw [← map_fst_numberFields 0 defs, List.map_map]
      rfl
    refine ⟨_, rfl, ?_, fun pair hpair content h => ?_, ?_⟩
    · rw [hdefs, List.length_map, List.length_map]
    · rw [hdefs, List.zip_map'] at hpair
      obtain ⟨⟨⟨name, type⟩, presence⟩, hfield, rfl⟩ := List.mem_map.mp hpair
      have hpresence := presence_numberFields hfield
      cases type with
      | plain shape =>
        cases (show presence = .always from hpresence)
        cases h
        rfl
      | nullable inner =>
        obtain ⟨slot, hslot⟩ := hpresence
        cases (show presence = .nullable slot from hslot)
        cases h
      | skipped shape =>
        cases (show presence = .skipped from hpresence)
        cases h
    · rintro rfl
      rw [hdefs, List.map_map]
      rfl
  | lowered scope code =>
    cases hlayout
    refine ⟨_, rfl, ?_, fun pair hpair content h => ?_, ?_⟩
    · rw [List.length_map, List.length_map]
    · rw [List.zip_map'] at hpair
      obtain ⟨⟨name, kind, slot⟩, hfield, rfl⟩ := List.mem_map.mp hpair
      cases slot <;> cases h
      rfl
    · rintro rfl
      rw [List.map_map]
      rfl

/-- A declaration without nullable fields has no slots, and what it adds up is the fields on the
wire. -/
theorem layout_of_not_hasNullable (sizeOf : String → Option Nat) (slot : Nat)
    {defs : List FieldDef} (h : hasNullable defs = false) :
    nullableCount ((numberFields slot defs).map (FieldDef.layout initial)) = 0 ∧
      (defs.filterMap fun field =>
        match field.type with
        | .skipped _ => none
        | type => some (type.shape.fixedSize sizeOf)) =
      wiredSizes (Shape.fixedSize sizeOf) ((numberFields slot defs).map (FieldDef.layout initial)) := by
  induction defs with
  | nil => exact ⟨rfl, rfl⟩
  | cons field defs ih =>
    obtain ⟨name, type⟩ := field
    unfold hasNullable at h ih
    rw [List.any_cons, Bool.or_eq_false_iff] at h
    obtain ⟨hcount, hsizes⟩ := ih h.2
    cases type with
    | nullable inner => cases h.1
    | plain shape =>
      refine ⟨?_, ?_⟩
      · rw [numberFields, List.map_cons, nullableCount_cons, hcount]
        rfl
      · rw [List.filterMap_cons, hsizes]
        rfl
    | skipped shape =>
      refine ⟨?_, ?_⟩
      · rw [numberFields, List.map_cons, nullableCount_cons, hcount]
        rfl
      · rw [List.filterMap_cons, hsizes]
        rfl

theorem bitsetSize_eq_zero {count : Nat} : bitsetSize count = 0 ↔ count = 0 := by
  unfold bitsetSize
  omega

/-- A record of fixed size has no nullable fields, and its size is the sum of those of the fields
on the wire. -/
theorem fixedSize_layout {definition : Definition} (hplanned : definition.IsPlanned)
    {fields : List FieldLayout} (hlayout : definition.layout? initial = some fields)
    {sizeOf : String → Option Nat} {size : Nat} (h : definition.fixedSize sizeOf = some size) :
    nullableCount fields = 0 ∧
      Codec.sumFixedSizes (wiredSizes (Shape.fixedSize sizeOf) fields) = some size := by
  cases definition with
  | enumeration e => cases hlayout
  | record defs =>
    cases hlayout
    change (if hasNullable defs then none else _) = some size at h
    cases hnone : hasNullable defs with
    | true =>
      rw [hnone, if_pos rfl] at h
      cases h
    | false =>
      obtain ⟨hcount, hsizes⟩ := layout_of_not_hasNullable initial sizeOf 0 hnone
      rw [hnone, if_neg Bool.false_ne_true] at h
      refine ⟨hcount, ?_⟩
      rw [← hsizes]
      exact h
  | lowered scope code =>
    cases hlayout
    obtain ⟨schema, rfl, -⟩ := hplanned
    change (if (StructCode.ofSchema schema).bitsetBytes = 0 then _ else none) = some size at h
    rw [StructCodec.bitsetBytes_ofSchema] at h
    by_cases hbytes : schema.bitsetBytes = 0
    · rw [if_pos hbytes] at h
      refine ⟨?_, ?_⟩
      · rw [StructCodec.fields_ofSchema]
        have hzero := StructCodec.bitsetBytesOf_layout scope initial schema
        rw [hbytes] at hzero
        exact bitsetSize_eq_zero.mp hzero
      · rw [StructCodec.wiredSizes_layoutOf]
        exact h
    · rw [if_neg hbytes] at h
      cases h

end Definition

/-- Every lowered structure of the catalogue is lowered from a plan. -/
def Catalogue.Planned (catalogue : Catalogue) : Prop :=
  ∀ name definition, catalogue.get? name = some definition → definition.IsPlanned

namespace Catalogue

variable {catalogue : Catalogue}

/-- The codec of a shape in which names may be entered `nestings` times. -/
abbrev within [DecimalForm] (catalogue : Catalogue) (sharing : Sharing Value) (nestings : Nat)
    (shape : Shape) :
    Codec Value :=
  shape.codec sharing (catalogue.codec sharing nestings)

/-- A name that may be entered once more is run as its definition, with the fixed size of the
name. -/
theorem codec_succ [DecimalForm] (sharing : Sharing Value) (nestings : Nat) {name : String}
    {definition : Definition} (h : catalogue.get? name = some definition) :
    catalogue.codec sharing (nestings + 1) name =
      { definition.codec sharing catalogue.initial (catalogue.codec sharing nestings) with
        fixedSize := catalogue.fixedSize name } := by
  rw [Catalogue.codec, h]
  rfl

/-- A name has the fields of its definition. -/
theorem layout?_of_get? {name : String} {definition : Definition}
    (h : catalogue.get? name = some definition) :
    catalogue.layout? name = definition.layout? catalogue.initial := by
  rw [layout?, h]

/-- The record that a name stands for is that of a definition. -/
theorem exists_of_layout? {name : String} {fields : List FieldLayout}
    (h : catalogue.layout? name = some fields) :
    ∃ definition, catalogue.get? name = some definition ∧
      definition.layout? catalogue.initial = some fields := by
  unfold layout? at h
  cases hname : catalogue.get? name with
  | none => simp [hname] at h
  | some definition => exact ⟨definition, rfl, by simpa [hname] using h⟩

end Catalogue

end Wireform
