import Wireform.Proofs.Nesting
import Wireform.Samples.Decimals

/-!
# What codecs write

`Codec.Writes codec form value good bytes` is the whole of what a codec promises about one value:
its announced size is the number of `bytes`, the fixed size of its type is that number too, and the
writer puts just these bytes, or refuses the value if it is not `good`; and the same of the value
as an optional one, with the lead of the null `form` in front.

The codecs are built from codecs, and what they write from what those write.  For a catalogue the
bytes are the wire format, and the good values those that fit: by induction on how a value comes to
have its shape, with as many nestings as it is high.
-/
namespace Wireform

variable {α β : Type}

/-- An optional value that is there is measured and written behind the lead. -/
structure NullLayout.Writes (layout : NullLayout α) (form : NullForm) (value : α) (good : Prop)
    (bytes : List UInt8) : Prop where
  size : layout.size (some value) = (form.lead ++ bytes).length
  puts : (layout.write (some value)).Puts good (form.lead ++ bytes)

/-- An optional value that is not there is measured and written as null. -/
structure NullLayout.WritesNull (layout : NullLayout α) (form : NullForm) : Prop where
  size : layout.size none = form.null.length
  puts : (layout.write none).Puts True form.null

/-- The value is measured and written as `bytes`, if it is good. -/
structure Codec.Writes (codec : Codec α) (form : NullForm) (value : α) (good : Prop)
    (bytes : List UInt8) : Prop where
  fixed : ∀ size, codec.fixedSize = some size → bytes.length = size
  size : codec.size value = bytes.length
  puts : (codec.write value).Puts good bytes
  nullable : codec.nullable.Writes form value good bytes

/-! ## 1. Null layouts -/

namespace NullLayout

variable {size : α → Nat} {write : α → Writer}

theorem writes_marker {read : Reader α} {value : α} {good : Prop} {bytes : List UInt8}
    (hsize : size value = bytes.length) (hputs : (write value).Puts good bytes) :
    (NullLayout.marker size write read).Writes .marker value good bytes := by
  constructor
  · show 1 + size value = (IntFormat.u8.encode 1 ++ bytes).length
    rw [hsize, List.length_append, IntFormat.length_encode]
    rfl
  · exact ((Writer.puts_writeByte 1).bind hputs).congr ⟨And.right, fun h => ⟨trivial, h⟩⟩

theorem writesNull_marker {read : Reader α} :
    (NullLayout.marker size write read).WritesNull .marker :=
  ⟨rfl, Writer.puts_writeByte 0⟩

theorem writes_inBand {body : Nat → Reader α} {value : α} {good : Prop} {bytes : List UInt8}
    (hsize : size value = bytes.length) (hputs : (write value).Puts good bytes) :
    (NullLayout.inBand size write body).Writes .inBand value good bytes :=
  ⟨hsize, hputs⟩

theorem writesNull_inBand {body : Nat → Reader α} :
    (NullLayout.inBand size write body).WritesNull .inBand :=
  ⟨rfl, Writer.puts_writeNullLength⟩

theorem Writes.lift {layout : NullLayout α} {form : NullForm} {value : α} {good : Prop}
    {bytes : List UInt8} (h : layout.Writes form value good bytes) (case : Case α β) :
    (layout.lift case).Writes form (case.wrap value) good bytes := by
  constructor
  · rw [NullLayout.lift]
    simp only [case.get?_wrap]
    exact h.size
  · rw [NullLayout.lift]
    simp only [case.get?_wrap]
    exact h.puts

theorem WritesNull.lift {layout : NullLayout α} {form : NullForm} (h : layout.WritesNull form)
    (case : Case α β) : (layout.lift case).WritesNull form :=
  ⟨h.size, h.puts⟩

end NullLayout

namespace Codec

/-! ## 2. Building codecs -/

/-- A codec that marks absence by a byte. -/
theorem writes_of_marker {codec : Codec α} {value : α} {good : Prop} {bytes : List UInt8}
    (hnullable : codec.nullable = .marker codec.size codec.write codec.read)
    (hfixed : ∀ size, codec.fixedSize = some size → bytes.length = size)
    (hsize : codec.size value = bytes.length) (hputs : (codec.write value).Puts good bytes) :
    codec.Writes .marker value good bytes :=
  ⟨hfixed, hsize, hputs, by rw [hnullable]; exact NullLayout.writes_marker hsize hputs⟩

/-- A codec of values that all take `width` bytes. -/
theorem writes_ofWidth {width : Nat} {write : α → Writer} {read : Reader α} {value : α}
    {good : Prop} {bytes : List UInt8} (hlength : bytes.length = width)
    (hputs : (write value).Puts good bytes) :
    (Codec.ofWidth width write read).Writes .marker value good bytes :=
  writes_of_marker rfl (fun _ hsize => hlength.trans (Option.some.inj hsize)) hlength.symm hputs

theorem Writes.lift {codec : Codec α} {form : NullForm} {value : α} {good : Prop}
    {bytes : List UInt8} (h : codec.Writes form value good bytes) (case : Case α β) :
    (codec.lift case).Writes form (case.wrap value) good bytes := by
  refine ⟨h.fixed, ?_, ?_, h.nullable.lift case⟩
  · rw [Codec.lift]
    simp only [case.get?_wrap]
    exact h.size
  · rw [Codec.lift]
    simp only [case.get?_wrap]
    exact h.puts

theorem writes_option_none {inner : Codec α} {form : NullForm}
    (h : inner.nullable.WritesNull form) :
    (Codec.option inner).Writes .marker none True form.null :=
  writes_of_marker rfl (fun _ hsize => (nomatch hsize)) h.size h.puts

theorem Writes.option {inner : Codec α} {form : NullForm} {value : α} {good : Prop}
    {bytes : List UInt8} (h : inner.Writes form value good bytes) :
    (Codec.option inner).Writes .marker (some value) good (form.lead ++ bytes) :=
  writes_of_marker rfl (fun _ hsize => (nomatch hsize)) h.nullable.size h.nullable.puts

theorem writes_text (typeName text : String) :
    (Codec.text typeName).Writes .inBand text ((textBytes text).length ≤ maxLength)
      (lengthBytes (textBytes text).length ++ textBytes text) := by
  have hsize : (Codec.text typeName).size text =
      (lengthBytes (textBytes text).length ++ textBytes text).length := by
    rw [List.length_append, length_lengthBytes]
    rfl
  exact ⟨fun _ hfixed => (nomatch hfixed), hsize, Writer.puts_writeText text,
    NullLayout.writes_inBand hsize (Writer.puts_writeText text)⟩

/-- A number that has to be in range is written if it is. -/
theorem puts_checked {format : IntFormat} (hwidth : 0 < format.width) (n : Int)
    {fault : EncodeFault} (hlimit : fault.IsLimit) :
    Writer.Puts (if format.contains n then writeInt format n else throw (.wire (.encode fault)))
      (format.contains n = true) (format.encode n) := by
  intro out
  constructor
  · intro hgood
    rw [if_pos hgood]
    exact (Writer.puts_writeInt hwidth n out).emits trivial
  · intro hbad _
    rw [if_neg hbad]
    exact ⟨fault, out, hlimit, rfl⟩

/-- Whether a value is good may be said in other words, and so may its bytes. -/
theorem Writes.congr {codec : Codec α} {form : NullForm} {value : α} {good good' : Prop}
    {bytes bytes' : List UInt8} (h : codec.Writes form value good bytes) (hgood : good ↔ good')
    (hbytes : bytes = bytes') : codec.Writes form value good' bytes' := by
  have heq : good = good' := propext hgood
  rw [← heq, ← hbytes]
  exact h

/-- A value that always fits. -/
theorem Writes.unchecked {codec : Codec α} {form : NullForm} {value : α} {bytes : List UInt8}
    (h : codec.Writes form value True bytes) : codec.Writes form value (true = true) bytes :=
  h.congr (by simp) rfl

/-- **A leaf is written as its bytes.** -/
theorem writes_leaf [DecimalForm] {kind : LeafKind} (hwidth : kind.HasWidth) {value : Value}
    (h : kind.Holds value) :
    kind.codec.Writes kind.nullForm value (kind.fits value = true) (kind.wire value) := by
  cases kind <;> cases value <;> simp only [LeafKind.Holds] at h
  case int.int format n =>
    have hint : (Codec.int format).Writes .marker n True (format.encode n) :=
      writes_ofWidth (format.length_encode n) (Writer.puts_writeInt hwidth n)
    exact (hint.lift Value.intCase).unchecked
  case bits.bits width n =>
    have hbits : (Codec.bits width).Writes .marker n True (IntFormat.encode ⟨width, false⟩ n) :=
      writes_ofWidth (IntFormat.length_encode _ _) (Writer.puts_writeInt (by exact hwidth) n)
    exact (hbits.lift Value.bitsCase).unchecked
  case bool.bool b =>
    have hbool : Codec.bool.Writes .marker b True (IntFormat.u8.encode (if b then 1 else 0)) := by
      refine writes_ofWidth (IntFormat.length_encode _ _) ?_
      have hputs := Writer.puts_writeByte (if b then 1 else 0)
      cases b <;> exact hputs
    exact (hbool.lift Value.boolCase).unchecked
  case char.char c =>
    have hchar : Codec.char.Writes .marker c True (IntFormat.u32.encode c.toNat) :=
      writes_ofWidth (IntFormat.length_encode _ _) (Writer.puts_writeInt (by decide) _)
    exact (hchar.lift Value.charCase).unchecked
  case text.text name s =>
    exact ((writes_text name s).lift Value.textCase).congr (by simp [LeafKind.fits]) rfl
  case duration.int n =>
    obtain ⟨nanos, rfl⟩ := Int.eq_ofNat_of_zero_le h
    have hduration : Codec.duration.Writes .marker nanos (IntFormat.u64.contains nanos = true)
        (IntFormat.u64.encode nanos) :=
      writes_ofWidth (IntFormat.length_encode _ _) (puts_checked (by decide) _ trivial)
    exact hduration.lift Value.natCase
  case instant.int n =>
    have hinstant : Codec.instant.Writes .marker n (IntFormat.i64.contains n = true)
        (IntFormat.i64.encode n) :=
      writes_ofWidth (IntFormat.length_encode _ _) (puts_checked (by decide) _ trivial)
    exact hinstant.lift Value.intCase
  case decimal.decimal d =>
    have hdecimal : Codec.decimal.Writes .marker d True (DecimalForm.toBytes d) :=
      writes_ofWidth (DecimalForm.length_toBytes d)
        (Writer.puts_writeBytes (DecimalForm.toBytes_ne_nil d))
    exact (hdecimal.lift Value.decimalCase).unchecked

/-! ## 3. Sequences and maps -/

section

variable {good : α → Prop} {bytes : α → List UInt8}

/-- Items are written one after the other, if they are all good. -/
theorem puts_writeItems {write : α → Writer} {items : List α}
    (h : ∀ item ∈ items, (write item).Puts (good item) (bytes item)) :
    (writeItems write items).Puts (∀ item ∈ items, good item) (items.flatMap bytes) := by
  induction items with
  | nil => exact Writer.puts_pure.congr (by simp)
  | cons item rest ih =>
    have hrest := ih fun i hi => h i (List.mem_cons_of_mem _ hi)
    rw [List.flatMap_cons]
    exact ((h item List.mem_cons_self).bind hrest).congr List.forall_mem_cons.symm

/-- Items of one size take that many bytes each. -/
theorem length_flatMap_of_fixed {items : List α} {size : Nat}
    (h : ∀ item ∈ items, (bytes item).length = size) :
    (items.flatMap bytes).length = items.length * size := by
  induction items with
  | nil => simp
  | cons item rest ih =>
    have hrest := ih fun i hi => h i (List.mem_cons_of_mem _ hi)
    rw [List.flatMap_cons, List.length_append, h item List.mem_cons_self, hrest, List.length_cons,
      Nat.succ_mul, Nat.add_comm]

/-- Sizes that are added up item by item are those of the bytes. -/
theorem foldr_size {items : List α} {size : α → Nat}
    (h : ∀ item ∈ items, size item = (bytes item).length) :
    items.foldr (fun item total => size item + total) 0 = (items.flatMap bytes).length := by
  induction items with
  | nil => rfl
  | cons item rest ih =>
    have hrest := ih fun i hi => h i (List.mem_cons_of_mem _ hi)
    rw [List.foldr_cons, hrest, h item List.mem_cons_self, List.flatMap_cons, List.length_append]

variable {form : NullForm} {element : Codec α} {items : List α}

/-- Both ways of measuring a sequence give the number of its bytes. -/
theorem itemsSize_eq (h : ∀ item ∈ items, element.Writes form item (good item) (bytes item)) :
    element.itemsSize items = (lengthBytes items.length ++ items.flatMap bytes).length := by
  unfold itemsSize
  rw [List.length_append, length_lengthBytes]
  congr 1
  cases hfixed : element.fixedSize with
  | some size =>
    exact (length_flatMap_of_fixed fun item hitem => (h item hitem).fixed size hfixed).symm
  | none => exact foldr_size fun item hitem => (h item hitem).size

theorem puts_writeSequence
    (h : ∀ item ∈ items, element.Writes form item (good item) (bytes item)) :
    (element.writeSequence items).Puts (items.length ≤ maxLength ∧ ∀ item ∈ items, good item)
      (lengthBytes items.length ++ items.flatMap bytes) :=
  (Writer.puts_writeLength items.length).bind (puts_writeItems fun item hitem => (h item hitem).puts)

theorem writes_sequence (kind : SequenceKind)
    (h : ∀ item ∈ items, element.Writes form item (good item) (bytes item)) :
    (Codec.sequence kind element).Writes .inBand items
      (items.length ≤ maxLength ∧ ∀ item ∈ items, good item)
      (lengthBytes items.length ++ items.flatMap bytes) :=
  ⟨fun _ hfixed => (nomatch hfixed), itemsSize_eq h, puts_writeSequence h,
    NullLayout.writes_inBand (itemsSize_eq h) (puts_writeSequence h)⟩

theorem writes_array {length : Nat} (hlength : items.length = length)
    (h : ∀ item ∈ items, element.Writes form item (good item) (bytes item)) :
    (Codec.array length element).Writes .inBand items
      (items.length ≤ maxLength ∧ ∀ item ∈ items, good item)
      (lengthBytes items.length ++ items.flatMap bytes) := by
  refine ⟨fun size hfixed => ?_, itemsSize_eq h, puts_writeSequence h,
    NullLayout.writes_inBand (itemsSize_eq h) (puts_writeSequence h)⟩
  obtain ⟨each, heach, rfl⟩ := Option.map_eq_some_iff.mp hfixed
  rw [List.length_append, length_lengthBytes, ← hlength,
    length_flatMap_of_fixed fun item hitem => (h item hitem).fixed each heach]

end

section

variable {κ ν : Type} {keyForm valueForm : NullForm} {key : Codec κ} {value : Codec ν}
  {entries : List (κ × ν)} (goodKey : κ → Prop) (goodValue : ν → Prop)
  (keyBytes : κ → List UInt8) (valueBytes : ν → List UInt8)

/-- Both ways of measuring a map give the number of its bytes. -/
theorem entriesSize_eq
    (hkey : ∀ entry ∈ entries, key.Writes keyForm entry.1 (goodKey entry.1) (keyBytes entry.1))
    (hvalue : ∀ entry ∈ entries,
      value.Writes valueForm entry.2 (goodValue entry.2) (valueBytes entry.2)) :
    entriesSize key value entries = (lengthBytes entries.length ++
      entries.flatMap fun entry => keyBytes entry.1 ++ valueBytes entry.2).length := by
  have hsum : entries.foldr
      (fun entry total => key.size entry.1 + value.size entry.2 + total) 0 =
        (entries.flatMap fun entry => keyBytes entry.1 ++ valueBytes entry.2).length :=
    foldr_size fun entry hentry => by
      rw [(hkey entry hentry).size, (hvalue entry hentry).size, List.length_append]
  unfold entriesSize
  rw [List.length_append, length_lengthBytes]
  congr 1
  cases hfixedKey : key.fixedSize with
  | none => exact hsum
  | some keySize =>
    cases hfixedValue : value.fixedSize with
    | none => exact hsum
    | some valueSize =>
      refine (length_flatMap_of_fixed fun entry hentry => ?_).symm
      rw [List.length_append, (hkey entry hentry).fixed keySize hfixedKey,
        (hvalue entry hentry).fixed valueSize hfixedValue]

theorem writes_mapping [Ord κ] (kind : MapKind)
    (hkey : ∀ entry ∈ entries, key.Writes keyForm entry.1 (goodKey entry.1) (keyBytes entry.1))
    (hvalue : ∀ entry ∈ entries,
      value.Writes valueForm entry.2 (goodValue entry.2) (valueBytes entry.2)) :
    (Codec.mapping kind key value).Writes .inBand entries
      (entries.length ≤ maxLength ∧ ∀ entry ∈ entries, goodKey entry.1 ∧ goodValue entry.2)
      (lengthBytes entries.length ++
        entries.flatMap fun entry => keyBytes entry.1 ++ valueBytes entry.2) := by
  have hsize := entriesSize_eq goodKey goodValue keyBytes valueBytes hkey hvalue
  have hentries : (writeItems (writeEntry key value) entries).Puts
      (∀ entry ∈ entries, goodKey entry.1 ∧ goodValue entry.2)
      (entries.flatMap fun entry => keyBytes entry.1 ++ valueBytes entry.2) :=
    puts_writeItems fun entry hentry => (hkey entry hentry).puts.bind (hvalue entry hentry).puts
  have hputs : (writeEntries key value entries).Puts _ _ :=
    (Writer.puts_writeLength entries.length).bind hentries
  exact ⟨fun _ hfixed => (nomatch hfixed), hsize, hputs, NullLayout.writes_inBand hsize hputs⟩

end

/-! ## 4. Enumerations and records -/

theorem writes_enumeration (e : Enumeration) (n : Int) :
    e.codec.Writes .marker n True (e.repr.format.encode (e.repr.format.wrap n)) :=
  writes_ofWidth (IntFormat.length_encode _ _) (Writer.puts_writeInt e.repr.size_pos _)

section

variable {codecOf : Shape → Codec Value} {form : Shape → NullForm} {good : Shape → Value → Prop}
  {bytes : Shape → Value → List UInt8}

/-- What a codec promises of what a field has on the wire. -/
def FieldWrites (codecOf : Shape → Codec Value) (form : Shape → NullForm)
    (good : Shape → Value → Prop) (bytes : Shape → Value → List UInt8) (field : FieldLayout)
    (value : Value) : Prop :=
  field.Takes value ∧ ∀ content, field.content? value = some content →
    (codecOf field.shape).Writes (form field.shape) content (good field.shape content)
      (bytes field.shape content)

theorem FieldWrites.size {field : FieldLayout} {value : Value}
    (h : FieldWrites codecOf form good bytes field value) :
    (field.codec codecOf).size value = (field.bytes bytes value).length := by
  obtain ⟨htakes, hcontent⟩ := h
  obtain ⟨presence, shape, initial⟩ := field
  cases presence with
  | always => exact (hcontent value rfl).size
  | skipped => cases value <;> rfl
  | nullable slot =>
    cases value with
    | present inner => exact (hcontent inner rfl).size
    | _ => rfl

theorem FieldWrites.puts {field : FieldLayout} {value : Value}
    (h : FieldWrites codecOf form good bytes field value) :
    ((field.codec codecOf).write value).Puts
      (∀ content, field.content? value = some content → good field.shape content)
      (field.bytes bytes value) := by
  obtain ⟨htakes, hcontent⟩ := h
  obtain ⟨presence, shape, initial⟩ := field
  cases presence with
  | always =>
    exact (hcontent value rfl).puts.congr
      ⟨fun hgood content heq => Option.some.inj heq ▸ hgood, fun hgood => hgood value rfl⟩
  | skipped =>
    refine Writer.puts_pure.congr ⟨fun _ content heq => ?_, fun _ => trivial⟩
    cases value <;> cases heq
  | nullable slot =>
    cases value with
    | present inner =>
      exact (hcontent inner rfl).puts.congr
        ⟨fun hgood content heq => Option.some.inj heq ▸ hgood, fun hgood => hgood inner rfl⟩
    | null => exact Writer.puts_pure.congr ⟨fun _ _ heq => (nomatch heq), fun _ => trivial⟩
    | _ => exact htakes.elim

variable {fields : List FieldLayout} {values : List Value}

theorem puts_writeFields (hlength : fields.length = values.length)
    (h : ∀ pair ∈ fields.zip values, FieldWrites codecOf form good bytes pair.1 pair.2) :
    (writeFields (fields.map (FieldLayout.codec codecOf)) values).Puts
      (∀ pair ∈ fields.zip values, ∀ content, pair.1.content? pair.2 = some content →
        good pair.1.shape content)
      ((fields.zip values).flatMap fun pair => pair.1.bytes bytes pair.2) := by
  induction fields generalizing values with
  | nil =>
    cases values with
    | nil => exact Writer.puts_pure.congr (by simp)
    | cons value values => cases hlength
  | cons field fields ih =>
    cases values with
    | nil => cases hlength
    | cons value values =>
      rw [List.zip_cons_cons] at h ⊢
      have hrest := ih (Nat.succ.inj hlength) fun pair hpair => h pair (List.mem_cons_of_mem _ hpair)
      have hfield := (h (field, value) List.mem_cons_self).puts
      rw [List.flatMap_cons]
      exact (hfield.bind hrest).congr (by rw [List.forall_mem_cons])

theorem fieldsSize_eq (h : ∀ pair ∈ fields.zip values,
      FieldWrites codecOf form good bytes pair.1 pair.2) :
    fieldsSize (fields.map (FieldLayout.codec codecOf)) values =
      ((fields.zip values).flatMap fun pair => pair.1.bytes bytes pair.2).length := by
  induction fields generalizing values with
  | nil => rfl
  | cons field fields ih =>
    cases values with
    | nil => rfl
    | cons value values =>
      rw [List.zip_cons_cons] at h ⊢
      have hrest := ih fun pair hpair => h pair (List.mem_cons_of_mem _ hpair)
      rw [List.map_cons, fieldsSize, hrest, (h (field, value) List.mem_cons_self).size,
        List.flatMap_cons, List.length_append]

/-- Fields of fixed sizes, none of them nullable, take the sum of those sizes. -/
theorem length_of_sumFixedSizes {sizeOf : Shape → Option Nat} (hlength : fields.length = values.length)
    (hnone : nullableCount fields = 0)
    (h : ∀ pair ∈ fields.zip values, ∀ content, pair.1.content? pair.2 = some content →
      ∀ size, sizeOf pair.1.shape = some size → (bytes pair.1.shape content).length = size)
    {size : Nat} (hsum : Codec.sumFixedSizes (wiredSizes sizeOf fields) = some size) :
    ((fields.zip values).flatMap fun pair => pair.1.bytes bytes pair.2).length = size := by
  induction fields generalizing values size with
  | nil =>
    cases hsum
    rfl
  | cons field fields ih =>
    cases values with
    | nil => cases hlength
    | cons value values =>
      rw [List.zip_cons_cons] at h ⊢
      have hrest := fun pair hpair => h pair (List.mem_cons_of_mem _ hpair)
      have hcontent := h (field, value) List.mem_cons_self
      rw [nullableCount_cons] at hnone
      rw [List.flatMap_cons, List.length_append]
      obtain ⟨presence, shape, initial⟩ := field
      cases presence with
      | nullable slot => simp [FieldLayout.isNullable] at hnone
      | skipped =>
        have hempty : FieldLayout.bytes bytes ⟨.skipped, shape, initial⟩ value = [] := by
          cases value <;> rfl
        rw [hempty, List.length_nil, Nat.zero_add]
        exact ih (Nat.succ.inj hlength) (by omega) hrest hsum
      | always =>
        change Codec.sumFixedSizes (sizeOf shape :: wiredSizes sizeOf fields) = some size at hsum
        cases hfixed : sizeOf shape with
        | none =>
          rw [hfixed] at hsum
          cases hsum
        | some first =>
          rw [hfixed] at hsum
          obtain ⟨more, hmore, rfl⟩ := Option.map_eq_some_iff.mp hsum
          have hfirst : (FieldLayout.bytes bytes ⟨.always, shape, initial⟩ value).length = first :=
            hcontent value rfl first hfixed
          rw [hfirst, ih (Nat.succ.inj hlength) (by omega) hrest hmore]

/-- **A record is written as its bitset and the bytes of its fields.** -/
theorem writes_record {codec : Codec (List Value)}
    (hrecord : RecordCodec codec (fields.map (FieldLayout.codec codecOf)))
    (hnumbered : Numbered 0 (fields.map FieldLayout.presence))
    (hlength : fields.length = values.length)
    (h : ∀ pair ∈ fields.zip values, FieldWrites codecOf form good bytes pair.1 pair.2) :
    codec.Writes .marker values
      (∀ pair ∈ fields.zip values, ∀ content, pair.1.content? pair.2 = some content →
        good pair.1.shape content)
      (bitsetOf fields values ++
        (fields.zip values).flatMap fun pair => pair.1.bytes bytes pair.2) := by
  obtain ⟨set, hset, hbitset, -⟩ := hnumbered.bitset_answers values
  have hbitsetLength : (bitsetOf fields values).length = bitsetBytesOf fields := by
    rw [hbitset, NullBitset.length_toBytes]
  have hfixed : ∀ size, fieldsFixedSize (fields.map (FieldLayout.codec codecOf)) = some size →
      (bitsetOf fields values ++
        (fields.zip values).flatMap fun pair => pair.1.bytes bytes pair.2).length = size := by
    intro size hsize
    rw [fieldsFixedSize_layout] at hsize
    by_cases hnone : bitsetBytesOf fields = 0
    · rw [if_pos hnone] at hsize
      rw [List.length_append, hbitsetLength, hnone, Nat.zero_add]
      exact length_of_sumFixedSizes hlength (Definition.bitsetSize_eq_zero.mp hnone)
        (fun pair hpair content hcontent => ((h pair hpair).2 content hcontent).fixed) hsize
    · rw [if_neg hnone] at hsize
      cases hsize
  refine writes_of_marker hrecord.nullable (fun size hsize => ?_) ?_ ?_
  · exact hfixed size (hrecord.fixedSize ▸ hsize)
  · rw [hrecord.size]
    unfold Codec.record
    dsimp only
    cases hsize : fieldsFixedSize (fields.map (FieldLayout.codec codecOf)) with
    | some size => exact (hfixed size hsize).symm
    | none =>
      rw [fieldsBitsetBytes_layout, fieldsSize_eq h, List.length_append, hbitsetLength]
  · rw [hrecord.write values (by rw [List.length_map]; exact hlength)]
    have hmarks : Writer.Puts (writeMarks (bitsetBytesOf fields) (marksOf fields values)) True
        (bitsetOf fields values) := by
      unfold writeMarks
      rw [hset, hbitset]
      exact set.puts_write
    have hfields := puts_writeFields hlength h
    have hputs : Writer.Puts (do
        writeMarks (bitsetBytesOf fields) (marksOf fields values)
        writeFields (fields.map (FieldLayout.codec codecOf)) values) _ _ := hmarks.bind hfields
    show Writer.Puts (do
      writeMarks (fieldsBitsetBytes (fields.map (FieldLayout.codec codecOf)))
        (fieldsMarks (fields.map (FieldLayout.codec codecOf)) values)
      writeFields (fields.map (FieldLayout.codec codecOf)) values) _ _
    rw [fieldsBitsetBytes_layout, fieldsMarks_layout]
    exact hputs.congr ⟨And.right, fun hgood => ⟨trivial, hgood⟩⟩

end

end Codec

/-! ## 5. Sizes -/

namespace Codec

/-- The size that a codec announces for a value is exact: it is how far writing the value moves the
cursor where there is room, also as an optional value; it is the fixed size, if there is one; and a
whole value is encoded just if it is encodable, into that many bytes. -/
structure SizedExactly (codec : Codec α) (value : α) (encodable : Prop) : Prop where
  written : encodable → ∀ out : Output, codec.size value ≤ out.room →
    ∃ out', codec.write value out = .ok () out' ∧ out'.cursor = out.cursor + codec.size value
  fixed : ∀ size, codec.fixedSize = some size → codec.size value = size
  optional : encodable → ∀ out : Output, codec.nullable.size (some value) ≤ out.room →
    ∃ out', codec.nullable.write (some value) out = .ok () out' ∧
      out'.cursor = out.cursor + codec.nullable.size (some value)
  encodes : encodable → ∀ typeName, ∃ bytes, codec.encode typeName value = .ok bytes ∧
    bytes.length = codec.size value
  refuses : ¬ encodable → ∀ typeName, ∃ fault : EncodeFault, fault.IsLimit ∧
    codec.encode typeName value = .error (.wire (.encode fault))

theorem splice_replicate (bytes : List UInt8) :
    splice (List.replicate bytes.length 0) 0 bytes = bytes := by
  simp [splice]

/-- A good value is encoded as its bytes. -/
theorem Writes.encode_eq {codec : Codec α} {form : NullForm} {value : α} {good : Prop}
    {bytes : List UInt8} (h : codec.Writes form value good bytes) (hgood : good)
    (typeName : String) : codec.encode typeName value = .ok bytes := by
  have hfits := (h.puts ⟨List.replicate bytes.length 0, 0⟩).emits hgood |>.fits
    (by simp [Output.room])
  unfold encode Writer.run
  rw [h.size]
  dsimp only
  rw [hfits]
  simp [Output.put, splice_replicate]

/-- A value that is not good is not encoded. -/
theorem Writes.encode_refuses {codec : Codec α} {form : NullForm} {value : α} {good : Prop}
    {bytes : List UInt8} (h : codec.Writes form value good bytes) (hbad : ¬ good)
    (typeName : String) : ∃ fault : EncodeFault, fault.IsLimit ∧
      codec.encode typeName value = .error (.wire (.encode fault)) := by
  obtain ⟨fault, out', hlimit, hwrite⟩ :=
    (h.puts ⟨List.replicate bytes.length 0, 0⟩).refuses hbad (by simp [Output.room])
  refine ⟨fault, hlimit, ?_⟩
  unfold encode Writer.run
  rw [h.size]
  dsimp only
  rw [hwrite]

/-- Only a good value is encoded, and only as its bytes. -/
theorem Writes.of_encode {codec : Codec α} {form : NullForm} {value : α} {good : Prop}
    {bytes encoded : List UInt8} (h : codec.Writes form value good bytes) {typeName : String}
    (hencode : codec.encode typeName value = .ok encoded) : good ∧ encoded = bytes := by
  by_cases hgood : good
  · rw [h.encode_eq hgood] at hencode
    exact ⟨hgood, (Except.ok.inj hencode).symm⟩
  · obtain ⟨fault, -, hrefused⟩ := h.encode_refuses hgood typeName
    rw [hrefused] at hencode
    cases hencode

theorem Writes.sizedExactly {codec : Codec α} {form : NullForm} {value : α} {good : Prop}
    {bytes : List UInt8} (h : codec.Writes form value good bytes) :
    codec.SizedExactly value good where
  written := by
    intro hgood out hroom
    rw [h.size] at hroom ⊢
    exact ⟨_, ((h.puts out).emits hgood).fits hroom, rfl⟩
  fixed := fun size hsize => h.size.trans (h.fixed size hsize)
  optional := by
    intro hgood out hroom
    rw [h.nullable.size] at hroom ⊢
    exact ⟨_, ((h.nullable.puts out).emits hgood).fits hroom, rfl⟩
  encodes := fun hgood typeName => ⟨bytes, h.encode_eq hgood typeName, h.size.symm⟩
  refuses := h.encode_refuses

/-- Adding up sizes by multiplication is adding them up. -/
theorem itemsSize_eq_sum {element : Codec α} {form : NullForm} {good : α → Prop}
    {bytes : α → List UInt8} {items : List α}
    (h : ∀ item ∈ items, element.Writes form item (good item) (bytes item)) :
    element.itemsSize items = lengthPrefixSize + (items.map element.size).sum := by
  rw [itemsSize_eq h, List.length_append, length_lengthBytes, List.length_flatMap]
  congr 2
  exact List.map_congr_left fun item hitem => (h item hitem).size.symm

end Codec

/-! ## 6. Catalogues -/

namespace Catalogue

open Samples (chain chain_planned frameValue frameValue_hasShape)

section

variable [DecimalForm] {catalogue : Catalogue} (sharing : Sharing Value)

/-- The fixed size of a shape's codec is that of the shape. -/
theorem fixedSize_within (nestings : Nat) (shape : Shape) :
    (catalogue.within sharing nestings shape).fixedSize = shape.fixedSize catalogue.fixedSize := by
  induction shape with
  | leaf l => exact l.codec_fixedSize
  | option inner _ => rfl
  | boxed inner ih => exact ih
  | shared inner ih => exact ih
  | sequence kind element _ => rfl
  | array length element ih =>
    exact congrArg (Option.map fun size => lengthPrefixSize + length * size) ih
  | mapping kind key value _ _ => rfl
  | named name => cases nestings <;> rfl

/-- Null is written in the form of its shape. -/
theorem writesNull_within (nestings : Nat) (shape : Shape) :
    (catalogue.within sharing nestings shape).nullable.WritesNull shape.nullForm := by
  induction shape with
  | leaf l =>
    show l.codec.nullable.WritesNull l.kind.nullForm
    rw [l.codec_kind]
    cases l.kind <;> first
      | exact NullLayout.writesNull_marker.lift _
      | exact NullLayout.writesNull_inBand.lift _
  | option inner _ => exact NullLayout.writesNull_marker.lift Value.optionCase
  | boxed inner ih => exact ih
  | shared inner ih => exact ih
  | sequence kind element _ => exact NullLayout.writesNull_inBand.lift Value.listCase
  | array length element _ => exact NullLayout.writesNull_inBand.lift Value.listCase
  | mapping kind key value _ _ => exact NullLayout.writesNull_inBand.lift Value.entriesCase
  | named name =>
    cases nestings with
    | zero => exact NullLayout.writesNull_marker
    | succ nestings =>
      cases hname : catalogue.get? name with
      | none =>
        have hnull : (Codec.exhausted : Codec Value).nullable.WritesNull .marker :=
          NullLayout.writesNull_marker
        show (catalogue.codec sharing (nestings + 1) name).nullable.WritesNull .marker
        rw [Catalogue.codec, hname]
        exact hnull
      | some definition =>
        show (catalogue.codec sharing (nestings + 1) name).nullable.WritesNull .marker
        rw [codec_succ sharing nestings hname]
        cases definition <;> exact NullLayout.writesNull_marker.lift _

/-- **A fixed size is the size of every value.** -/
theorem Planned.length_wire_of_fixedSize (hplanned : catalogue.Planned) {shape : Shape}
    {value : Value} (h : catalogue.HasShape shape value) (depth : Nat) {size : Nat}
    (hsize : shape.fixedSize (catalogue.fixedSizeAt depth) = some size) :
    (catalogue.wire shape value).length = size := by
  induction h generalizing depth size with
  | @leaf l value h =>
    have hwrites := Codec.writes_leaf l.kind_hasWidth h
    rw [wire_leaf h]
    exact hwrites.fixed size (by rw [← l.codec_kind, l.codec_fixedSize]; exact hsize)
  | null => cases hsize
  | present h ih => cases hsize
  | boxed h ih =>
    rw [wire_boxed]
    exact ih depth hsize
  | shared h ih =>
    rw [wire_shared]
    exact ih depth hsize
  | sequence h ih => cases hsize
  | @array length element items hlength h ih =>
    obtain ⟨each, heach, rfl⟩ := Option.map_eq_some_iff.mp hsize
    show (lengthBytes items.length ++ catalogue.wireItems element items).length = _
    rw [List.length_append, length_lengthBytes, wireItems_eq, ← hlength,
      Codec.length_flatMap_of_fixed fun item hitem => ih item hitem depth heach]
  | mapping hkey hvalue ihkey ihvalue => cases hsize
  | @variant name e v hname h =>
    cases depth with
    | zero => cases hsize
    | succ depth =>
      rw [Shape.fixedSize, fixedSizeAt, hname] at hsize
      cases hsize
      rw [wire_variant hname]
      exact IntFormat.length_encode _ _
  | @record name fields values hname hlength htakes h ih =>
    cases depth with
    | zero => cases hsize
    | succ depth =>
      obtain ⟨definition, hdefinition, hlayout⟩ := exists_of_layout? hname
      have hisPlanned := hplanned name definition hdefinition
      rw [Shape.fixedSize, fixedSizeAt, hdefinition] at hsize
      obtain ⟨hcount, hsum⟩ := Definition.fixedSize_layout catalogue.initial hisPlanned hlayout hsize
      obtain ⟨set, -, hbitset, -⟩ :=
        (Definition.layout_numbered catalogue.initial hisPlanned hlayout).bitset_answers values
      have hbytes : bitsetBytesOf fields = 0 := Definition.bitsetSize_eq_zero.mpr hcount
      show (bitsetOf (catalogue.fieldsOf (.named name)) values ++
        catalogue.wireFields (catalogue.fieldsOf (.named name)) values).length = size
      rw [fieldsOf_named hname, wireFields_eq, List.length_append, hbitset,
        NullBitset.length_toBytes, hbytes, Nat.zero_add]
      exact Codec.length_of_sumFixedSizes hlength hcount
        (fun pair hpair content hcontent size hsize => ih pair hpair content hcontent depth hsize)
        hsum

/-- A name takes its fixed size from its entry. -/
theorem Planned.length_wire_of_named (hplanned : catalogue.Planned) {name : String} {value : Value}
    (h : catalogue.HasShape (.named name) value) {size : Nat}
    (hsize : catalogue.fixedSize name = some size) :
    (catalogue.wire (.named name) value).length = size :=
  hplanned.length_wire_of_fixedSize h catalogue.entries.length hsize

/-- A variant is written as its bytes, with one nesting. -/
theorem Planned.writes_variant (hplanned : catalogue.Planned) (nestings : Nat) {name : String}
    {e : Enumeration} {v : Variant} (hname : catalogue.get? name = some (.enumeration e))
    (h : v ∈ e.variants) :
    (catalogue.within sharing (nestings + 1) (.named name)).Writes .marker (.variant v.discriminant)
      (catalogue.fits (.named name) (.variant v.discriminant) = true)
      (catalogue.wire (.named name) (.variant v.discriminant)) := by
  have hbytes := wire_variant hname v.discriminant
  have hvariant := ((Codec.writes_enumeration e v.discriminant).lift Value.variantCase).unchecked
  show (catalogue.codec sharing (nestings + 1) name).Writes _ _ _ _
  rw [codec_succ sharing nestings hname, hbytes]
  refine ⟨fun size hsize => ?_, hvariant.size, hvariant.puts, hvariant.nullable⟩
  rw [← hbytes]
  exact hplanned.length_wire_of_named (.variant hname h) hsize

/-- A record is written as its bitset and its fields, with one nesting more than these. -/
theorem Planned.writes_record (hplanned : catalogue.Planned) {nestings : Nat} {name : String}
    {fields : List FieldLayout} {values : List Value}
    (hname : catalogue.layout? name = some fields) (hlength : fields.length = values.length)
    (hvalue : catalogue.HasShape (.named name) (.record values))
    (h : ∀ pair ∈ fields.zip values,
      Codec.FieldWrites (catalogue.within sharing nestings) Shape.nullForm
        (fun shape value => catalogue.fits shape value = true) catalogue.wire pair.1 pair.2) :
    (catalogue.within sharing (nestings + 1) (.named name)).Writes .marker (.record values)
      (catalogue.fits (.named name) (.record values) = true)
      (catalogue.wire (.named name) (.record values)) := by
  obtain ⟨definition, hdefinition, hlayout⟩ := exists_of_layout? hname
  have hisPlanned := hplanned name definition hdefinition
  obtain ⟨inner, hinner, hrecord⟩ := definition.codec_layout sharing catalogue.initial
    (catalogue.codec sharing nestings) hisPlanned hlayout
  have hfields := Codec.writes_record hrecord
    (Definition.layout_numbered catalogue.initial hisPlanned hlayout) hlength h
  have hwrites : (inner.lift Value.recordCase).Writes .marker (.record values)
      (catalogue.fits (.named name) (.record values) = true)
      (catalogue.wire (.named name) (.record values)) :=
    (hfields.lift Value.recordCase).congr
      (by rw [fits, fieldsOf_named hname, fitsFields_iff])
      (by rw [wire, fieldsOf_named hname, wireFields_eq])
  show (catalogue.codec sharing (nestings + 1) name).Writes _ _ _ _
  rw [codec_succ sharing nestings hdefinition, hinner]
  refine ⟨fun size hsize => ?_, hwrites.size, hwrites.puts, hwrites.nullable⟩
  exact hplanned.length_wire_of_named hvalue hsize

/-- **What a catalogue writes is the wire format**, with as many nestings as the value is high. -/
theorem Planned.writes (hplanned : catalogue.Planned) {shape : Shape} {value : Value}
    (h : catalogue.HasShape shape value) {nestings : Nat} (hheight : value.height ≤ nestings) :
    (catalogue.within sharing nestings shape).Writes shape.nullForm value
      (catalogue.fits shape value = true) (catalogue.wire shape value) := by
  induction h generalizing nestings with
  | @leaf l value h =>
    rw [wire_leaf h, fits_leaf h]
    show l.codec.Writes _ _ _ _
    rw [l.codec_kind]
    exact Codec.writes_leaf l.kind_hasWidth h
  | @null inner =>
    have hnull := @writesNull_within _ catalogue sharing nestings inner
    exact ((Codec.writes_option_none hnull).lift Value.optionCase).unchecked
  | present h ih =>
    rw [Value.height] at hheight
    exact (ih (by omega)).option.lift Value.optionCase
  | boxed h ih =>
    rw [wire_boxed, fits_boxed]
    exact ih hheight
  | shared h ih =>
    rw [wire_shared, fits_shared]
    have hinner := ih hheight
    exact ⟨hinner.fixed, hinner.size, hinner.puts, hinner.nullable⟩
  | @sequence kind element items h ih =>
    rw [Value.height] at hheight
    have hle : Value.heightOfItems items ≤ nestings := by omega
    have hitems := Codec.writes_sequence kind fun item hitem =>
      ih item hitem ((height_le_of_mem_items hitem).trans hle)
    refine (hitems.lift Value.listCase).congr ?_ ?_
    · rw [fits, Bool.and_eq_true, decide_eq_true_eq, fitsItems_iff]
      rfl
    · rw [wire, wireItems_eq]
      rfl
  | @array length element items hlength h ih =>
    rw [Value.height] at hheight
    have hle : Value.heightOfItems items ≤ nestings := by omega
    have hitems := Codec.writes_array hlength fun item hitem =>
      ih item hitem ((height_le_of_mem_items hitem).trans hle)
    refine (hitems.lift Value.listCase).congr ?_ ?_
    · rw [fits, Bool.and_eq_true, decide_eq_true_eq, fitsItems_iff]
      rfl
    · rw [wire, wireItems_eq]
      rfl
  | @mapping kind key value entries hkey hvalue ihkey ihvalue =>
    rw [Value.height] at hheight
    have hle : Value.heightOfEntries entries ≤ nestings := by omega
    have hentries := Codec.writes_mapping (fun k => catalogue.fits key k = true)
      (fun v => catalogue.fits value v = true) (catalogue.wire key) (catalogue.wire value) kind
      (fun entry hentry => ihkey entry hentry ((height_le_of_mem_entries hentry).1.trans hle))
      (fun entry hentry => ihvalue entry hentry ((height_le_of_mem_entries hentry).2.trans hle))
    refine (hentries.lift Value.entriesCase).congr ?_ ?_
    · rw [fits, Bool.and_eq_true, decide_eq_true_eq, fitsEntries_iff]
      rfl
    · rw [wire, wireEntries_eq]
      rfl
  | variant hname h =>
    cases nestings with
    | zero => simp [Value.height] at hheight
    | succ nestings => exact hplanned.writes_variant sharing nestings hname h
  | @record name fields values hname hlength htakes h ih =>
    cases nestings with
    | zero => simp [Value.height] at hheight
    | succ nestings =>
      rw [Value.height] at hheight
      have hle : Value.heightOfItems values ≤ nestings := by omega
      refine hplanned.writes_record sharing hname hlength (.record hname hlength htakes h)
        fun pair hpair => ⟨htakes pair hpair, fun content hcontent => ?_⟩
      have hvalue := height_le_of_mem_items (List.of_mem_zip hpair).2
      exact ih pair hpair content hcontent
        (((height_content_le hcontent).trans hvalue).trans hle)

/-- What the codec of a shape writes is the wire format. -/
theorem Planned.writes_codecOf (hplanned : catalogue.Planned) {shape : Shape} {value : Value}
    (h : catalogue.HasShape shape value) :
    (catalogue.codecOf sharing shape).Writes shape.nullForm value
      (catalogue.fits shape value = true) (catalogue.wire shape value) := by
  have hwrites := hplanned.writes sharing h (Nat.le_refl _)
  refine ⟨fun size hsize => hwrites.fixed size ?_, hwrites.size, hwrites.puts,
    ⟨hwrites.nullable.size, hwrites.nullable.puts⟩⟩
  rw [fixedSize_within]
  exact hsize

/-- **Announced sizes are exact**, for every value of every shape; null takes as many bytes as it
says; and what sequences and maps multiply is what they would add up. -/
theorem announced_size_exact (hplanned : catalogue.Planned) :
    (∀ shape value, catalogue.HasShape shape value →
      (catalogue.codecOf sharing shape).SizedExactly value (catalogue.fits shape value = true)) ∧
    (∀ shape (out : Output), (catalogue.codecOf sharing shape).nullable.size none ≤ out.room →
      ∃ out', (catalogue.codecOf sharing shape).nullable.write none out = .ok () out' ∧
        out'.cursor = out.cursor + (catalogue.codecOf sharing shape).nullable.size none) ∧
    (∀ element items, (∀ item ∈ items, catalogue.HasShape element item) →
      (catalogue.codecOf sharing element).itemsSize items =
        lengthPrefixSize + (items.map (catalogue.codecOf sharing element).size).sum) ∧
    ∀ key value (entries : List (Value × Value)),
      (∀ entry ∈ entries, catalogue.HasShape key entry.1) →
      (∀ entry ∈ entries, catalogue.HasShape value entry.2) →
      Codec.entriesSize (catalogue.codecOf sharing key) (catalogue.codecOf sharing value) entries =
        lengthPrefixSize + (entries.map fun entry =>
          (catalogue.codecOf sharing key).size entry.1 +
            (catalogue.codecOf sharing value).size entry.2).sum := by
  refine ⟨fun shape value h => (hplanned.writes_codecOf sharing h).sizedExactly,
    fun shape out hroom => ?_, fun element items h => ?_, fun key value entries hkey hvalue => ?_⟩
  · have hnull := @writesNull_within _ catalogue sharing (Value.slotHeight none) shape
    have hsize : (catalogue.codecOf sharing shape).nullable.size none = shape.nullForm.null.length :=
      hnull.size
    rw [hsize] at hroom ⊢
    exact ⟨_, ((hnull.puts out).emits trivial).fits hroom, rfl⟩
  · exact Codec.itemsSize_eq_sum fun item hitem => hplanned.writes_codecOf sharing (h item hitem)
  · have hkeys := fun entry hentry => hplanned.writes_codecOf sharing (hkey entry hentry)
    have hvalues := fun entry hentry => hplanned.writes_codecOf sharing (hvalue entry hentry)
    rw [Codec.entriesSize_eq (fun k => catalogue.fits key k = true)
      (fun v => catalogue.fits value v = true) (catalogue.wire key) (catalogue.wire value) hkeys
      hvalues, List.length_append, length_lengthBytes, List.length_flatMap]
    congr 2
    refine List.map_congr_left fun entry hentry => ?_
    rw [List.length_append, (hkeys entry hentry).size, (hvalues entry hentry).size]

end

/-- A frame takes as many bytes as it says. -/
theorem announced_size_exact_frame :
    chain.Planned ∧ chain.HasShape (.named "Frame") frameValue ∧
      (chain.codecOf Sharing.none (.named "Frame")).SizedExactly frameValue
        (chain.fits (.named "Frame") frameValue = true) ∧
      chain.fits (.named "Frame") frameValue = true ∧
      (chain.codecOf Sharing.none (.named "Frame")).size frameValue = 28 :=
  ⟨chain_planned, frameValue_hasShape,
    (announced_size_exact Sharing.none chain_planned).1 _ _ frameValue_hasShape, by decide, by decide⟩

end Catalogue

end Wireform
