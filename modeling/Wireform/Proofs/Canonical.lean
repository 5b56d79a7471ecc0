import Wireform.Proofs.Accepts
import Wireform.Proofs.Sizes

/-!
# Accepted bytes are canonical

A catalogue reads no second spelling of a value: what it reads, it reads from the bytes that it would
write.  There are three exceptions.  Maps may spell an entry twice or in another order, a decimal may
be read from bytes that are not its own, and the bitsets of records have bits that are ignored: those
that belong to no field.  The first two are left out here (`Catalogue.Plain`).  For the third there is
`Catalogue.significant`, the bits of an encoding that say anything: accepted bytes agree in these with
the bytes that are written, where all others are clear (`Catalogue.Spells`).

`Planned.accepts` goes by induction on the nestings, and then on the shape, as the locality of
readers does; `encode_undoes_read` joins it with what writers write.
-/
namespace Wireform

variable {α : Type}

/-! ## 1. Significant bits -/

/-- A mask that lets all bits of some bytes pass. -/
def allBits (bytes : List UInt8) : List UInt8 := List.replicate bytes.length 255

/-- What `bytes` say through the mask is `wire`. -/
structure Masks (mask bytes wire : List UInt8) : Prop where
  length : mask.length = bytes.length
  masked : List.zipWith (· &&& ·) bytes mask = wire

theorem and_allBits (b : UInt8) : b &&& 255 = b := by
  have h := @UInt8.and_neg_one b
  exact h

theorem masks_allBits (bytes : List UInt8) : Masks (allBits bytes) bytes bytes := by
  refine ⟨List.length_replicate, ?_⟩
  unfold allBits
  induction bytes with
  | nil => rfl
  | cons b rest ih =>
    rw [List.length_cons, List.replicate_succ, List.zipWith_cons_cons, ih, and_allBits]

theorem Masks.append {mask mask' bytes bytes' wire wire' : List UInt8} (h : Masks mask bytes wire)
    (h' : Masks mask' bytes' wire') : Masks (mask ++ mask') (bytes ++ bytes') (wire ++ wire') := by
  refine ⟨?_, ?_⟩
  · rw [List.length_append, List.length_append, h.length, h'.length]
  · rw [List.zipWith_append h.length.symm, h.masked, h'.masked]

/-- Parts that are masked one by one are masked together. -/
theorem Masks.flatten {mask wire : α → List UInt8} {items : List α} {parts : List (List UInt8)}
    (h : List.Forall₂ (fun item part => Masks (mask item) part (wire item)) items parts) :
    Masks (items.flatMap mask) parts.flatten (items.flatMap wire) := by
  induction h with
  | nil => exact ⟨rfl, rfl⟩
  | cons hfirst _ ih => exact hfirst.append ih

/-- The bits of a bitset that belong to a nullable field: those that are set when all of them are
null. -/
def slotBits (fields : List FieldLayout) : List UInt8 := bitsetOf fields (fields.map fun _ => .null)

namespace Catalogue

variable [DecimalForm] (catalogue : Catalogue)

mutual

/-- The bits in the encoding of a value, maps apart, that say anything: all of them, except for
those of bitsets that belong to no field. -/
def significant (shape : Shape) : Value → List UInt8
  | .present value => allBits shape.inner.nullForm.lead ++ significant shape.inner value
  | .list items => allBits (lengthBytes items.length) ++ significantItems shape.element items
  | .record values =>
    slotBits (catalogue.fieldsOf shape) ++ significantFields (catalogue.fieldsOf shape) values
  | value => allBits (catalogue.wire shape value)

/-- The bits of items that say anything. -/
def significantItems (shape : Shape) : List Value → List UInt8
  | [] => []
  | item :: rest => significant shape item ++ significantItems shape rest

/-- The bits of fields that say anything. -/
def significantFields : List FieldLayout → List Value → List UInt8
  | field :: fields, value :: values =>
    (match field.presence, value with
      | .always, value => significant field.shape value
      | .nullable _, .present inner => significant field.shape inner
      | _, _ => []) ++ significantFields fields values
  | _, _ => []

end

variable {catalogue}

theorem significantItems_eq (shape : Shape) (items : List Value) :
    catalogue.significantItems shape items = items.flatMap (catalogue.significant shape) := by
  induction items with
  | nil => rfl
  | cons item rest ih => rw [significantItems, ih, List.flatMap_cons]

theorem significantFields_cons (field : FieldLayout) (fields : List FieldLayout) (value : Value)
    (values : List Value) : catalogue.significantFields (field :: fields) (value :: values) =
      field.bytes catalogue.significant value ++ catalogue.significantFields fields values := by
  obtain ⟨presence, shape, initial⟩ := field
  cases presence <;> cases value <;> rfl

theorem significant_boxed (inner : Shape) (value : Value) :
    catalogue.significant (.boxed inner) value = catalogue.significant inner value := by
  cases value <;> rfl

theorem significant_shared (inner : Shape) (value : Value) :
    catalogue.significant (.shared inner) value = catalogue.significant inner value := by
  cases value <;> rfl

theorem significant_leaf {l : Leaf} {value : Value} (h : l.kind.Holds value) :
    catalogue.significant (.leaf l) value = allBits (l.kind.wire value) := by
  rw [← @wire_leaf catalogue _ l value h]
  cases h.isScalar <;> rfl

/-- Bytes from which a value can be read: it is of the shape and fits, and what the bytes say is its
wire format. -/
structure Spells (catalogue : Catalogue) (shape : Shape) (value : Value) (bytes : List UInt8) :
    Prop where
  hasShape : catalogue.HasShape shape value
  fits : catalogue.fits shape value = true
  masks : Masks (catalogue.significant shape value) bytes (catalogue.wire shape value)

namespace Spells

theorem leaf {l : Leaf} {value : Value} {bytes : List UInt8} (h : l.kind.Holds value)
    (hfits : l.kind.fits value = true) (hbytes : bytes = l.kind.wire value) :
    catalogue.Spells (.leaf l) value bytes := by
  refine ⟨.leaf h, (fits_leaf h).trans hfits, ?_⟩
  rw [wire_leaf h, significant_leaf h, hbytes]
  exact masks_allBits _

theorem boxed {inner : Shape} {value : Value} {bytes : List UInt8}
    (h : catalogue.Spells inner value bytes) : catalogue.Spells (.boxed inner) value bytes := by
  refine ⟨.boxed h.hasShape, ?_, ?_⟩
  · rw [fits_boxed]
    exact h.fits
  · rw [wire_boxed, significant_boxed]
    exact h.masks

theorem shared {inner : Shape} {value : Value} {bytes : List UInt8}
    (h : catalogue.Spells inner value bytes) : catalogue.Spells (.shared inner) value bytes := by
  refine ⟨.shared h.hasShape, ?_, ?_⟩
  · rw [fits_shared]
    exact h.fits
  · rw [wire_shared, significant_shared]
    exact h.masks

theorem option {inner : Shape} {value : Option Value} {bytes : List UInt8}
    (h : inner.nullForm.Spells (catalogue.Spells inner) value bytes) :
    catalogue.Spells (.option inner) (Value.optionCase.wrap value) bytes := by
  cases value with
  | none =>
    cases h
    exact ⟨.null, rfl, masks_allBits _⟩
  | some value =>
    obtain ⟨rest, rfl, hrest⟩ := h
    exact ⟨.present hrest.hasShape, hrest.fits, (masks_allBits _).append hrest.masks⟩

/-- Items that are spelled in turn. -/
theorem items {element : Shape} {items : List Value} {parts : List (List UInt8)}
    (h : List.Forall₂ (catalogue.Spells element) items parts) :
    (∀ item ∈ items, catalogue.HasShape element item) ∧
      (∀ item ∈ items, catalogue.fits element item = true) ∧
        Masks (catalogue.significantItems element items) parts.flatten
          (catalogue.wireItems element items) := by
  rw [significantItems_eq, wireItems_eq]
  refine ⟨?_, ?_, .flatten (h.imp fun _ _ hitem => hitem.masks)⟩
  · induction h with
    | nil => exact fun _ hmem => nomatch hmem
    | cons hfirst _ ih => exact List.forall_mem_cons.mpr ⟨hfirst.hasShape, ih⟩
  · induction h with
    | nil => exact fun _ hmem => nomatch hmem
    | cons hfirst _ ih => exact List.forall_mem_cons.mpr ⟨hfirst.fits, ih⟩

/-- Items behind their count. -/
theorem counted {shape element : Shape} (helement : shape.element = element) {items : List Value}
    {bytes : List UInt8} (h : Codec.Accepts.Counted (catalogue.Spells element) items bytes)
    (hshape : (∀ item ∈ items, catalogue.HasShape element item) →
      catalogue.HasShape shape (.list items)) : catalogue.Spells shape (.list items) bytes := by
  subst helement
  obtain ⟨hmax, parts, hparts, rfl⟩ := h
  obtain ⟨hitems, hfits, hmasks⟩ := Spells.items hparts
  refine ⟨hshape hitems, ?_, (masks_allBits _).append hmasks⟩
  rw [Catalogue.fits, Bool.and_eq_true, decide_eq_true_eq, fitsItems_iff]
  exact ⟨hmax, hfits⟩

theorem variant {name : String} {e : Enumeration} (hname : catalogue.get? name = some (.enumeration e))
    {v : Variant} (hv : v ∈ e.variants) :
    catalogue.Spells (.named name) (.variant v.discriminant)
      (e.repr.format.encode (e.repr.format.wrap v.discriminant)) := by
  rw [← wire_variant hname]
  exact ⟨.variant hname hv, rfl, masks_allBits _⟩

end Spells

/-! ## 2. Records -/

/-- Bytes from which the value of a field can be read, where the bitset is known. -/
structure SpellsField (catalogue : Catalogue) {size : Nat} (set : NullBitset size)
    (field : FieldLayout) (value : Value) (bytes : List UInt8) : Prop where
  takes : field.Takes value
  present : ∀ content, field.content? value = some content →
    catalogue.Spells field.shape content bytes
  absent : field.content? value = none → bytes = []
  mark : ∀ mark, field.mark? value = some mark → set.isNull? mark.1 = some mark.2

/-- Bytes from which the values of fields can be read, one field after the other. -/
inductive SpellsFields (catalogue : Catalogue) {size : Nat} (set : NullBitset size) :
    List FieldLayout → List Value → List UInt8 → Prop where
  | nil : SpellsFields catalogue set [] [] []
  | cons {field : FieldLayout} {fields : List FieldLayout} {value : Value} {values : List Value}
    {first rest : List UInt8} (hfirst : catalogue.SpellsField set field value first)
    (hrest : SpellsFields catalogue set fields values rest) :
    SpellsFields catalogue set (field :: fields) (value :: values) (first ++ rest)

theorem SpellsField.masks {size : Nat} {set : NullBitset size} {field : FieldLayout} {value : Value}
    {bytes : List UInt8} (h : catalogue.SpellsField set field value bytes) :
    Masks (field.bytes catalogue.significant value) bytes (field.bytes catalogue.wire value) := by
  unfold FieldLayout.bytes
  cases hcontent : field.content? value with
  | some content => exact (h.present content hcontent).masks
  | none =>
    rw [h.absent hcontent]
    exact ⟨rfl, rfl⟩

namespace SpellsFields

variable {size : Nat} {set : NullBitset size} {fields : List FieldLayout} {values : List Value}
  {bytes : List UInt8}

theorem length (h : catalogue.SpellsFields set fields values bytes) :
    fields.length = values.length := by
  induction h with
  | nil => rfl
  | cons _ _ ih => rw [List.length_cons, List.length_cons, ih]

theorem forall_zip (h : catalogue.SpellsFields set fields values bytes) :
    ∀ pair ∈ fields.zip values, ∃ bytes, catalogue.SpellsField set pair.1 pair.2 bytes := by
  induction h with
  | nil => exact fun _ hmem => nomatch hmem
  | cons hfirst _ ih =>
    rw [List.zip_cons_cons]
    exact List.forall_mem_cons.mpr ⟨⟨_, hfirst⟩, ih⟩

theorem masks (h : catalogue.SpellsFields set fields values bytes) :
    Masks (catalogue.significantFields fields values) bytes (catalogue.wireFields fields values) := by
  induction h with
  | nil => exact ⟨rfl, rfl⟩
  | cons hfirst _ ih =>
    rw [significantFields_cons, wireFields_cons]
    exact hfirst.masks.append ih

theorem marks (h : catalogue.SpellsFields set fields values bytes) :
    ∀ mark ∈ marksOf fields values, set.isNull? mark.1 = some mark.2 := by
  intro mark hmark
  obtain ⟨pair, hpair, hmark⟩ := List.mem_filterMap.mp hmark
  obtain ⟨_, hfield⟩ := h.forall_zip pair hpair
  exact hfield.mark mark hmark

end SpellsFields

omit [DecimalForm] in
/-- The marks of fields that are all null. -/
theorem marksOf_null (fields : List FieldLayout) {values : List Value}
    (hlength : fields.length = values.length) : marksOf fields (fields.map fun _ => .null) =
      (marksOf fields values).map fun mark => (mark.1, true) := by
  induction fields generalizing values with
  | nil => rfl
  | cons field fields ih =>
    cases values with
    | nil => cases hlength
    | cons value values =>
      rw [List.map_cons, marksOf_cons, marksOf_cons, List.map_append, ih (Nat.succ.inj hlength)]
      obtain ⟨presence, shape, initial⟩ := field
      cases presence <;> rfl

omit [DecimalForm] in
/-- **A bitset says what is written.** -/
theorem masks_bitset {fields : List FieldLayout} {values : List Value}
    (hnumbered : Numbered 0 (fields.map FieldLayout.presence))
    (hlength : fields.length = values.length) {set : NullBitset (bitsetBytesOf fields)}
    (hset : ∀ mark ∈ marksOf fields values, set.isNull? mark.1 = some mark.2) :
    Masks (slotBits fields) set.toBytes (bitsetOf fields values) := by
  obtain ⟨all, hall, hown⟩ := NullBitset.ofMarks?_eq_meet (hnumbered.marksOf_pairwise values)
    (hnumbered.marksOf_range values) hset
  have hslots : slotBits fields = all.toBytes := by
    rw [slotBits, bitsetOf, marksOf_null fields hlength, hall]
  have hbitset : bitsetOf fields values = (set.meet all).toBytes := by
    rw [bitsetOf, hown]
  rw [hslots, hbitset, NullBitset.toBytes_meet]
  exact ⟨by rw [NullBitset.length_toBytes, NullBitset.length_toBytes], rfl⟩

/-- A record is spelled by a bitset and the bytes of its fields. -/
theorem Spells.record {name : String} {fields : List FieldLayout} {values : List Value}
    {bytes : List UInt8} (hname : catalogue.layout? name = some fields)
    (hnumbered : Numbered 0 (fields.map FieldLayout.presence))
    {set : NullBitset (bitsetBytesOf fields)}
    (h : catalogue.SpellsFields set fields values bytes) :
    catalogue.Spells (.named name) (.record values) (set.toBytes ++ bytes) := by
  refine ⟨.record hname h.length (fun pair hpair => ?_) fun pair hpair content hcontent => ?_, ?_, ?_⟩
  · obtain ⟨_, hfield⟩ := h.forall_zip pair hpair
    exact hfield.takes
  · obtain ⟨_, hfield⟩ := h.forall_zip pair hpair
    exact (hfield.present content hcontent).hasShape
  · rw [Catalogue.fits, fieldsOf_named hname, fitsFields_iff]
    intro pair hpair content hcontent
    obtain ⟨_, hfield⟩ := h.forall_zip pair hpair
    exact (hfield.present content hcontent).fits
  · rw [significant, wire, fieldsOf_named hname]
    exact (masks_bitset hnumbered h.length h.marks).append h.masks

end Catalogue

namespace NullBitset

variable {size : Nat}

/-- A bitset is read from its own bytes. -/
theorem accepts_read :
    (read : Reader (NullBitset size)).Accepts fun set bytes => bytes = set.toBytes := by
  unfold read
  by_cases hsize : size = 0
  · rw [if_pos hsize]
    refine Reader.accepts_pure (List.eq_nil_of_length_eq_zero ?_).symm
    rw [length_toBytes, hsize]
  · rw [if_neg hsize]
    refine (Reader.accepts_readBytes size).map (f := ofBytes) ?_ fun _ => rfl
    rintro bytes taken ⟨hlength, rfl⟩
    exact (toBytes_ofBytes hlength).symm

/-- A bit is looked at without taking a byte. -/
theorem accepts_test (set : NullBitset size) (slot : Nat) :
    (set.test slot).Accepts fun isNull bytes => set.isNull? slot = some isNull ∧ bytes = [] := by
  unfold test
  cases hanswer : set.isNull? slot with
  | none => exact Reader.accepts_throw _
  | some isNull => exact Reader.accepts_pure ⟨rfl, rfl⟩

end NullBitset

namespace Codec.Accepts

open Catalogue (SpellsField SpellsFields)

variable [DecimalForm] {catalogue : Catalogue} {codecOf : Shape → Codec Value} {size : Nat}
  (set : NullBitset size)

theorem field {field : FieldLayout}
    (h : field.presence ≠ .skipped →
      (codecOf field.shape).read.Accepts (catalogue.Spells field.shape)) :
    ((field.codec codecOf).read set).Accepts (catalogue.SpellsField set field) := by
  obtain ⟨presence, shape, initial⟩ := field
  cases presence with
  | always =>
    refine (h nofun).mono fun value bytes hspells => ⟨trivial, ?_, nofun, nofun⟩
    rintro content ⟨⟩
    exact hspells
  | skipped =>
    refine Reader.accepts_pure ⟨trivial, ?_, fun _ => rfl, nofun⟩
    cases initial <;> exact nofun
  | nullable slot =>
    refine (set.accepts_test slot).bind ?_
    rintro isNull first ⟨hanswer, rfl⟩
    cases isNull with
    | true =>
      refine Reader.accepts_pure ⟨trivial, nofun, fun _ => rfl, ?_⟩
      rintro mark ⟨⟩
      exact hanswer
    | false =>
      refine (h nofun).map (f := Value.present) (fun value bytes hspells => ⟨trivial, ?_, nofun, ?_⟩)
        fun _ => rfl
      · rintro content ⟨⟩
        exact hspells
      · rintro mark ⟨⟩
        exact hanswer

theorem fields {fields : List FieldLayout} (h : ∀ field ∈ fields, field.presence ≠ .skipped →
      (codecOf field.shape).read.Accepts (catalogue.Spells field.shape)) :
    (readFields set (fields.map (FieldLayout.codec codecOf))).Accepts
      (catalogue.SpellsFields set fields) := by
  induction fields with
  | nil => exact Reader.accepts_pure .nil
  | cons head rest ih =>
    have hhead := field set (h head List.mem_cons_self)
    have hrest := ih fun f hf => h f (List.mem_cons_of_mem _ hf)
    refine hhead.bind fun value first hfirst => hrest.map (f := (value :: ·)) ?_ fun _ => rfl
    exact fun values bytes hvalues => .cons hfirst hvalues

/-- A record is read from the bytes that spell it, also one that is run step by step. -/
theorem record {codec : Codec (List Value)} {name : String} {fields : List FieldLayout}
    (hrecord : RecordCodec codec (fields.map (FieldLayout.codec codecOf)))
    (halike : ∀ buffer cursor, Reading.Alike
      ((Codec.record (fields.map (FieldLayout.codec codecOf))).read buffer cursor)
      (codec.read buffer cursor))
    (hname : catalogue.layout? name = some fields)
    (hnumbered : Numbered 0 (fields.map FieldLayout.presence))
    (h : ∀ field ∈ fields, field.presence ≠ .skipped →
      (codecOf field.shape).read.Accepts (catalogue.Spells field.shape)) :
    codec.Accepts .marker fun values bytes =>
      catalogue.Spells (.named name) (.record values) bytes := by
  refine of_marker (by rw [hrecord.nullable]; rfl) (Reader.Accepts.of_alike ?_ halike)
  rw [read_record]
  refine NullBitset.accepts_read.bind ?_
  rintro set first rfl
  exact (Accepts.fields set h).mono fun values bytes hfields => .record hname hnumbered hfields

end Codec.Accepts

/-! ## 3. Catalogues -/

namespace Catalogue

variable (catalogue : Catalogue)

/-- The shape has only one spelling for each value: no part of it is a map or a decimal. -/
structure Plain (shape : Shape) : Prop where
  mapping : ∀ kind key value, ¬ catalogue.Contains shape (.mapping kind key value)
  decimal : ¬ catalogue.Contains shape (.leaf (.primitive .decimal))

variable {catalogue}

theorem Plain.part {shape part : Shape} (h : catalogue.Plain shape)
    (hpart : catalogue.Part shape part) : catalogue.Plain part :=
  ⟨fun kind key value hcontains => h.mapping kind key value (.head hpart hcontains),
    fun hcontains => h.decimal (.head hpart hcontains)⟩

theorem kind_ne_decimal {l : Leaf} (h : l ≠ .primitive .decimal) : l.kind ≠ .decimal := by
  cases l with
  | primitive p => cases p <;> first | exact absurd rfl h | exact nofun
  | _ => exact nofun

open Samples (chain chain_planned contains_link)

section

variable [DecimalForm] (sharing : Sharing Value)

/-- If the names are read from the bytes that spell them, all shapes are. -/
theorem accepts_of_named {nestings : Nat}
    (hnamed : ∀ name, catalogue.Plain (.named name) → (catalogue.codec sharing nestings name).Accepts
      .marker (catalogue.Spells (.named name))) {shape : Shape} (hplain : catalogue.Plain shape) :
    (catalogue.within sharing nestings shape).Accepts shape.nullForm (catalogue.Spells shape) := by
  induction shape with
  | leaf l =>
    have hdecimal : l ≠ .primitive .decimal := by
      rintro rfl
      exact hplain.decimal .refl
    have hleaf := Codec.Accepts.leaf l.kind_hasWidth (kind_ne_decimal hdecimal)
    show l.codec.Accepts l.kind.nullForm _
    rw [l.codec_kind]
    exact hleaf.mono fun _ _ h => .leaf h.1 h.2.1 h.2.2
  | option inner ih =>
    exact (ih (hplain.part .option)).option.lift Value.optionCase fun _ _ => .option
  | boxed inner ih => exact (ih (hplain.part .boxed)).mono fun _ _ => .boxed
  | shared inner ih =>
    have hinner := (ih (hplain.part .shared)).mono fun _ _ h => Spells.shared h
    exact ⟨hinner.read, hinner.nullable⟩
  | sequence kind element ih =>
    exact ((ih (hplain.part .sequence)).sequence kind).lift Value.listCase
      fun items bytes h => .counted rfl h .sequence
  | array length element ih =>
    exact ((ih (hplain.part .array)).array length).lift Value.listCase
      fun items bytes h => .counted rfl h.2 (.array h.1)
  | mapping kind key value _ _ => exact absurd .refl (hplain.mapping kind key value)
  | named name => exact hnamed name hplain

/-- **Whatever a catalogue reads, it reads from bytes that spell it**, however many nestings there
are. -/
theorem Planned.accepts (hplanned : catalogue.Planned) (nestings : Nat) {shape : Shape}
    (hplain : catalogue.Plain shape) : (catalogue.within sharing nestings shape).Accepts
      shape.nullForm (catalogue.Spells shape) := by
  have hexhausted : ∀ name, (Codec.exhausted : Codec Value).Accepts .marker
      (catalogue.Spells (.named name)) := fun _ => .of_marker rfl (Reader.accepts_throw _)
  refine accepts_of_named sharing (fun name hname => ?_) hplain
  clear hplain
  induction nestings generalizing name with
  | zero => exact ⟨(hexhausted name).read, (hexhausted name).nullable⟩
  | succ nestings ih =>
    cases hdefinition : catalogue.get? name with
    | none =>
      rw [Catalogue.codec, hdefinition]
      exact ⟨(hexhausted name).read, (hexhausted name).nullable⟩
    | some definition =>
      rw [codec_succ sharing nestings hdefinition]
      rcases definition.enumeration_or_layout catalogue.initial with ⟨e, rfl⟩ | ⟨fields, hlayout⟩
      · have hspells : ∀ n bytes, (∃ v ∈ e.variants, v.discriminant = n) ∧
            bytes = e.repr.format.encode (e.repr.format.wrap n) →
              catalogue.Spells (.named name) (.variant n) bytes := by
          rintro n bytes ⟨⟨v, hv, rfl⟩, rfl⟩
          exact .variant hdefinition hv
        have hvariant := (Codec.Accepts.enumeration e).lift Value.variantCase hspells
        exact ⟨hvariant.read, hvariant.nullable⟩
      · obtain ⟨inner, hinner, hrecord, halike⟩ :=
          hplanned.codec_record sharing nestings hdefinition hlayout
        have hfields : catalogue.layout? name = some fields :=
          (layout?_of_get? hdefinition).trans hlayout
        have hnumbered := Definition.layout_numbered catalogue.initial
          (hplanned name definition hdefinition) hlayout
        have hrecords := Codec.Accepts.record hrecord halike hfields hnumbered
          fun field hfield hwired => (accepts_of_named sharing ih
            (hname.part (.field hfields hfield hwired))).read
        have hvalue := hrecords.lift Value.recordCase fun _ _ h => h
        rw [hinner]
        exact ⟨hvalue.read, hvalue.nullable⟩

/-- **Encoding undoes decoding.**  Let a value of a shape without maps and decimals be read, at any
position of any buffer.  The value is of the shape, it takes just as many bytes as were read, and it
is encoded, wherever there is room for it.  Its encoding is what was read, but for the bits that say
nothing: those of the bitsets of records that belong to no field. -/
theorem encode_undoes_read (hplanned : catalogue.Planned) {shape : Shape}
    (hmapping : ∀ kind key value, ¬ catalogue.Contains shape (.mapping kind key value))
    (hdecimal : ¬ catalogue.Contains shape (.leaf (.primitive .decimal))) {buffer : Buffer}
    {start stop : Nat} {value : Value}
    (hread : (catalogue.codecOf sharing shape).read buffer start = .ok value stop) :
    catalogue.HasShape shape value ∧ start ≤ stop ∧
      (catalogue.codecOf sharing shape).size value = stop - start ∧
      (catalogue.significant shape value).length = stop - start ∧
      ∃ bytes, bytes = List.zipWith (· &&& ·) ((buffer.drop start).take (stop - start))
          (catalogue.significant shape value) ∧
        (∀ typeName, (catalogue.codecOf sharing shape).encode typeName value = .ok bytes) ∧
        ∀ out : Output, stop - start ≤ out.buffer.length - out.cursor →
          (catalogue.codecOf sharing shape).write value out = .ok () (out.put bytes) := by
  have haccepts := hplanned.accepts sharing (catalogue.nestingsOf buffer) ⟨hmapping, hdecimal⟩
  obtain ⟨taken, rfl, hholds, hshape, hfits, hlength, hmasked⟩ :=
    haccepts.read buffer start value stop hread
  have hwrites := hplanned.writes_codecOf sharing hshape
  have hwire : (catalogue.wire shape value).length = taken.length := by
    rw [← hmasked, List.length_zipWith, hlength, Nat.min_self]
  rw [Nat.add_sub_cancel_left, hholds.take_eq]
  refine ⟨hshape, Nat.le_add_right _ _, hwrites.size.trans hwire, hlength, _, rfl, ?_, ?_⟩
  · rw [hmasked]
    exact hwrites.encode_eq hfits
  · intro out hroom
    rw [hmasked]
    exact ((hwrites.puts out).emits hfits).fits (hwire.trans_le hroom)

end

/-- A link whose bitset has seven bits that belong to no field, six of them set. -/
theorem encode_undoes_read_link :
    (chain.Planned ∧
      (∀ kind key value, ¬ chain.Contains (.named "Link") (.mapping kind key value)) ∧
      ¬ chain.Contains (.named "Link") (.leaf (.primitive .decimal)) ∧
      (chain.codecOf Sharing.none (.named "Link")).read [9, 251, 7, 0, 0, 0] 1 =
        .ok (.record [.int 7, .null, .list []]) 6) ∧
      chain.significant (.named "Link") (.record [.int 7, .null, .list []]) =
        [1, 255, 255, 255, 255] ∧
      (chain.codecOf Sharing.none (.named "Link")).encode "Link"
        (.record [.int 7, .null, .list []]) = .ok [1, 7, 0, 0, 0] := by
  have hmapping : ∀ kind key value, ¬ chain.Contains (.named "Link") (.mapping kind key value) := by
    intro kind key value h
    rcases contains_link rfl h with h | h | h <;> cases h
  have hdecimal : ¬ chain.Contains (.named "Link") (.leaf (.primitive .decimal)) := by
    intro h
    rcases contains_link rfl h with h | h | h <;> cases h
  have hread : (chain.codecOf Sharing.none (.named "Link")).read [9, 251, 7, 0, 0, 0] 1 =
      .ok (.record [.int 7, .null, .list []]) 6 := rfl
  have hsignificant : chain.significant (.named "Link") (.record [.int 7, .null, .list []]) =
      [1, 255, 255, 255, 255] := rfl
  obtain ⟨-, -, -, -, bytes, hbytes, hencode, -⟩ :=
    encode_undoes_read Sharing.none chain_planned hmapping hdecimal hread
  have hsame : bytes = [1, 7, 0, 0, 0] := by
    rw [hbytes, hsignificant]
    rfl
  subst hsame
  exact ⟨⟨chain_planned, hmapping, hdecimal, hread⟩, hsignificant, hencode "Link"⟩

end Catalogue

end Wireform
