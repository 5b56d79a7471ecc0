import Wireform.Proofs.InPlace
import Wireform.Proofs.Stumbling
import Wireform.Proofs.WireForm

/-!
# What codecs read

`Codec.Reads codec form bytes value` says that the codec reads `value` from `bytes` wherever they
stand, and the optional value from the lead of its null form and `bytes`.  `Codec.ReadsIf` says this
of bytes that are good for the codec, and of others that it stumbles over a count in them.

The bytes of a value are read in every type of one wire form, in whichever catalogue of
interchangeable records, provided that every array in it has the length that it asks for: that is to
say, if the value is one of that type (`exists_recovers`).  What they are read as is the same value
everywhere.  Together with what is known of writers this is half a round trip: in a catalogue of its
own the bytes of a value are read as the value that they stand for, `Catalogue.restored`.

The only condition beyond those of writing is on enumerations: a reader takes the first variant
that has the bytes, so no two may have the same ones.  Where two do, the bytes of a value are still
read, as some value (`Planned.exists_readsBack`).
-/
namespace Wireform

variable {α β : Type}

/-- An optional value that is not there is read from the bytes of null. -/
def NullLayout.ReadsNull (layout : NullLayout α) (form : NullForm) : Prop :=
  layout.read.Yields none form.null

/-- The value is read from `bytes`, and from the lead and `bytes` as an optional one. -/
structure Codec.Reads (codec : Codec α) (form : NullForm) (bytes : List UInt8) (value : α) :
    Prop where
  read : codec.read.Yields value bytes
  nullable : codec.nullable.read.Yields (some value) (form.lead ++ bytes)

/-- The value is read from `bytes` if they are good for the codec; if not, it stumbles over them. -/
structure Codec.ReadsIf (codec : Codec α) (good : Prop) (form : NullForm) (bytes : List UInt8)
    (value : α) : Prop where
  read : codec.read.YieldsIf good value bytes
  nullable : codec.nullable.read.YieldsIf good (some value) (form.lead ++ bytes)

/-! ## 1. Null layouts -/

namespace NullLayout

variable {size : α → Nat} {write : α → Writer}

theorem yieldsIf_marker {read : Reader α} {good : Prop} {value : α} {bytes : List UInt8}
    (h : read.YieldsIf good value bytes) :
    (NullLayout.marker size write read).read.YieldsIf good (some value)
      (NullForm.marker.lead ++ bytes) := by
  have hbyte : readByte.Yields 1 NullForm.marker.lead := Reader.yields_readByte (by decide)
  constructor
  case yields => exact fun hgood => .of_get fun offset => hbyte.bind ((h.yields hgood).map rfl)
  case stumbles =>
    intro hbad
    obtain ⟨before, expected, found, hbefore, hrefuses⟩ := h.stumbles hbad
    refine ⟨NullForm.marker.lead ++ before, expected, found, ?_,
      .of_get fun offset => hbyte.bind_refuses (hrefuses.bind _)⟩
    rw [List.append_assoc]
    exact (List.prefix_append_right_inj _).mpr hbefore

theorem readsNull_marker {read : Reader α} :
    (NullLayout.marker size write read).ReadsNull .marker :=
  .of_get fun offset => (Reader.yields_readByte (n := 0) (by decide)).map rfl

theorem readsNull_inBand {body : Nat → Reader α} :
    (NullLayout.inBand size write body).ReadsNull .inBand :=
  Reader.yields_readLength_null.map rfl

theorem yields_inBand {body : Nat → Reader α} {length : Nat} {value : α} {rest : List UInt8}
    (hlength : length ≤ maxLength) (h : (body length).YieldsInside value rest) :
    (NullLayout.inBand size write body).read.Yields (some value) (lengthBytes length ++ rest) := by
  refine (Reader.yields_readLength hlength).bind_inside (lengthBytes_ne_nil length) ?_
  exact fun buffer cursor hcursor => (h buffer cursor hcursor).map rfl

theorem yieldsIf_inBand {body : Nat → Reader α} {length : Nat} {good : Prop} {value : α}
    {rest : List UInt8} (hlength : length ≤ maxLength)
    (h : (body length).YieldsIf good value rest) :
    (NullLayout.inBand size write body).read.YieldsIf good (some value)
      (lengthBytes length ++ rest) :=
  (Reader.yields_readLength hlength).bind_if (h.map rfl)

theorem ReadsNull.lift {layout : NullLayout α} {form : NullForm} (h : layout.ReadsNull form)
    (case : Case α β) : (layout.lift case).ReadsNull form :=
  Reader.Yields.map h rfl

end NullLayout

namespace Codec

/-! ## 2. Building codecs -/

section

variable {codec : Codec α} {good good' : Prop} {form : NullForm} {bytes : List UInt8} {value : α}

theorem Reads.readsIf (h : codec.Reads form bytes value) : codec.ReadsIf True form bytes value :=
  ⟨h.read.yieldsIf, h.nullable.yieldsIf⟩

theorem ReadsIf.reads (h : codec.ReadsIf good form bytes value) (hgood : good) :
    codec.Reads form bytes value :=
  ⟨h.read.yields hgood, h.nullable.yields hgood⟩

theorem ReadsIf.congr (h : codec.ReadsIf good form bytes value) (hiff : good ↔ good') :
    codec.ReadsIf good' form bytes value :=
  ⟨h.read.congr hiff, h.nullable.congr hiff⟩

/-- A codec that marks absence by a byte. -/
theorem readsIf_of_marker (hnullable : codec.nullable = .marker codec.size codec.write codec.read)
    (hread : codec.read.YieldsIf good value bytes) : codec.ReadsIf good .marker bytes value :=
  ⟨hread, by rw [hnullable]; exact NullLayout.yieldsIf_marker hread⟩

theorem reads_of_marker (hnullable : codec.nullable = .marker codec.size codec.write codec.read)
    (hread : codec.read.Yields value bytes) : codec.Reads .marker bytes value :=
  (readsIf_of_marker hnullable hread.yieldsIf).reads trivial

theorem ReadsIf.lift (h : codec.ReadsIf good form bytes value) (case : Case α β) :
    (codec.lift case).ReadsIf good form bytes (case.wrap value) :=
  ⟨h.read.map rfl, h.nullable.map rfl⟩

theorem Reads.lift (h : codec.Reads form bytes value) (case : Case α β) :
    (codec.lift case).Reads form bytes (case.wrap value) :=
  (h.readsIf.lift case).reads trivial

theorem reads_option_none (h : codec.nullable.ReadsNull form) :
    (Codec.option codec).Reads .marker form.null none :=
  reads_of_marker rfl h

theorem ReadsIf.option (h : codec.ReadsIf good form bytes value) :
    (Codec.option codec).ReadsIf good .marker (form.lead ++ bytes) (some value) :=
  readsIf_of_marker rfl h.nullable

end

section

variable {codec : Codec α} {name : String} {body : Nat → Reader α} {length : Nat}
  (hread : codec.read = (readRequiredLength name >>= body))
  (hnullable : codec.nullable = .inBand codec.size codec.write body) (hlength : length ≤ maxLength)

include hread hnullable hlength

/-- What stands behind a prefix is read behind it. -/
theorem reads_behindLength {value : α} {rest : List UInt8}
    (h : (body length).YieldsInside value rest) :
    codec.Reads .inBand (lengthBytes length ++ rest) value := by
  constructor
  · rw [hread]
    exact .behindLength name hlength h
  · rw [hnullable]
    exact NullLayout.yields_inBand hlength h

theorem readsIf_behindLength {good : Prop} {value : α} {rest : List UInt8}
    (h : (body length).YieldsIf good value rest) :
    codec.ReadsIf good .inBand (lengthBytes length ++ rest) value := by
  constructor
  · rw [hread]
    exact (Reader.yields_readRequiredLength name hlength).bind_if h
  · rw [hnullable]
    exact NullLayout.yieldsIf_inBand hlength h

/-- Where another count is asked for, nothing is good. -/
theorem readsIf_wrongCount {expected : Nat} (hne : expected ≠ length)
    (hbody : body length = throw (.wire (.decode (.arrayLength expected length))))
    {good : Prop} (hbad : ¬ good) (value : α) (rest : List UInt8) :
    codec.ReadsIf good .inBand (lengthBytes length ++ rest) value := by
  refine ⟨⟨fun hgood => absurd hgood hbad, fun _ => ?_⟩,
    ⟨fun hgood => absurd hgood hbad, fun _ => ?_⟩⟩
  · rw [hread]
    exact ((Reader.yields_readRequiredLength name hlength).refuses hne hbody).stumbles rest
  · rw [hnullable]
    refine ((Reader.yields_readLength hlength).refuses hne ?_).stumbles rest
    show (body length >>= _) = _
    rw [hbody]
    rfl

end

theorem reads_text (typeName text : String) (hlength : (textBytes text).length ≤ maxLength) :
    (Codec.text typeName).Reads .inBand
      (lengthBytes (textBytes text).length ++ textBytes text) text := by
  have hbody := Reader.yieldsInside_readText (Utf8.decode_encode text.toList)
  rw [String.ofList_toList] at hbody
  exact reads_behindLength rfl rfl hlength hbody

/-! ## 3. Leaves -/

/-- A codec of numbers of one format, with something done to the number that was read. -/
theorem reads_number {format : IntFormat} (hwidth : 0 < format.width) {n : Int}
    (hcontains : format.contains n = true) {write : α → Writer} {next : Int → Reader α} {value : α}
    (hnext : next n = pure value) :
    (Codec.ofWidth format.width write (readInt format >>= next)).Reads .marker (format.encode n)
      value := by
  refine reads_of_marker rfl ((Reader.yields_readInt hwidth n).map ?_)
  rw [IntFormat.wrap_of_contains hcontains]
  exact hnext

/-- **A leaf is read from its bytes.** -/
theorem reads_leaf [DecimalForm] {kind : LeafKind} (hwidth : kind.HasWidth) {value : Value}
    (h : kind.Holds value) (hfits : kind.fits value = true) :
    kind.codec.Reads kind.nullForm (kind.wire value) value := by
  cases kind <;> cases value <;> simp only [LeafKind.Holds] at h
  case int.int format n =>
    have hint : (Codec.int format).Reads .marker (format.encode n) n := by
      refine reads_of_marker rfl ?_
      have hread := Reader.yields_readInt hwidth n
      rw [IntFormat.wrap_of_contains h] at hread
      exact hread
    exact hint.lift Value.intCase
  case bits.bits width n =>
    have hbits : (Codec.bits width).Reads .marker (IntFormat.encode ⟨width, false⟩ n) n :=
      reads_number (by exact hwidth) (IntFormat.contains_natCast h) rfl
    exact hbits.lift Value.bitsCase
  case bool.bool b =>
    have hbool : Codec.bool.Reads .marker (IntFormat.u8.encode (if b then 1 else 0)) b := by
      refine reads_of_marker rfl (.of_get fun offset => ?_)
      cases b
      · exact (Reader.yields_readByte (n := 0) (by decide)).map rfl
      · exact (Reader.yields_readByte (n := 1) (by decide)).map rfl
    exact hbool.lift Value.boolCase
  case char.char c =>
    have hcontains : IntFormat.u32.contains c.toNat = true := by
      refine IntFormat.contains_natCast ?_
      have hlt := c.val.toNat_lt
      simpa using hlt
    have hchar : Codec.char.Reads .marker (IntFormat.u32.encode c.toNat) c := by
      refine reads_number (by decide) hcontains ?_
      have hvalid : c.toNat.isValidChar := c.valid
      rw [Int.toNat_natCast, if_pos hvalid, Char.ofNat_toNat]
    exact hchar.lift Value.charCase
  case text.text name s =>
    exact (reads_text name s (by simpa [LeafKind.fits] using hfits)).lift Value.textCase
  case duration.int n =>
    obtain ⟨nanos, rfl⟩ := Int.eq_ofNat_of_zero_le h
    have hduration : Codec.duration.Reads .marker (IntFormat.u64.encode nanos) nanos :=
      reads_number (by decide) hfits rfl
    exact hduration.lift Value.natCase
  case instant.int n =>
    have hinstant : Codec.instant.Reads .marker (IntFormat.i64.encode n) n := by
      refine reads_of_marker rfl ?_
      have hread := Reader.yields_readInt (by decide : 0 < IntFormat.i64.width) n
      rw [IntFormat.wrap_of_contains hfits] at hread
      exact hread
    exact hinstant.lift Value.intCase
  case decimal.decimal d =>
    have hdecimal : Codec.decimal.Reads .marker (DecimalForm.toBytes d) d := by
      refine reads_of_marker rfl fun buffer cursor => ?_
      have hbytes : (readBytes (DecimalForm.toBytes d).length).YieldsAt (DecimalForm.toBytes d)
          (DecimalForm.toBytes d) buffer cursor :=
        Reader.yieldsAt_readBytes (.inl (DecimalForm.toBytes_ne_nil d))
      rw [DecimalForm.length_toBytes] at hbytes
      exact hbytes.map (by rw [DecimalForm.ofBytes_toBytes])
    exact hdecimal.lift Value.decimalCase

/-! ## 4. Sequences and maps -/

section

variable {good : α → Prop} {value : α → α} {bytes : α → List UInt8} {form : NullForm}
  {element : Codec α} {items : List α}

theorem yieldsIf_items
    (h : ∀ item ∈ items, element.ReadsIf (good item) form (bytes item) (value item)) :
    (readItems element.read items.length).YieldsIf (∀ item ∈ items, good item) (items.map value)
      (items.flatMap bytes) := by
  rw [readItems_eq_times]
  exact .times fun item hitem => (h item hitem).read

theorem readsIf_sequence (kind : SequenceKind) (hlength : items.length ≤ maxLength)
    (h : ∀ item ∈ items, element.ReadsIf (good item) form (bytes item) (value item)) :
    (Codec.sequence kind element).ReadsIf (∀ item ∈ items, good item) .inBand
      (lengthBytes items.length ++ items.flatMap bytes) (items.map value) :=
  readsIf_behindLength rfl rfl hlength (yieldsIf_items h)

/-- Items are good for an array only if there are as many as it asks for. -/
theorem readsIf_array (length : Nat) (hlength : items.length ≤ maxLength)
    (h : ∀ item ∈ items, element.ReadsIf (good item) form (bytes item) (value item)) :
    (Codec.array length element).ReadsIf (items.length = length ∧ ∀ item ∈ items, good item) .inBand
      (lengthBytes items.length ++ items.flatMap bytes) (items.map value) := by
  by_cases hcount : items.length = length
  · have hbody : arrayBody length element items.length = readItems element.read items.length := by
      rw [arrayBody, if_neg (not_not_intro hcount)]
    refine readsIf_behindLength rfl rfl hlength ?_
    rw [hbody]
    exact (yieldsIf_items h).congr (by simp [hcount])
  · have hbad : ¬ (items.length = length ∧ ∀ item ∈ items, good item) := fun h => hcount h.1
    exact readsIf_wrongCount rfl rfl hlength (Ne.symm hcount) (if_pos hcount) hbad _ _

end

theorem readsIf_mapping {κ ν : Type} [Ord κ] (kind : MapKind) {key : Codec κ} {value : Codec ν}
    {keyForm valueForm : NullForm} (keyGood : κ → Prop) (valueGood : ν → Prop)
    (keyBytes : κ → List UInt8) (valueBytes : ν → List UInt8) (keyRead : κ → κ) (valueRead : ν → ν)
    {entries : List (κ × ν)} (hlength : entries.length ≤ maxLength)
    (hkey : ∀ entry ∈ entries,
      key.ReadsIf (keyGood entry.1) keyForm (keyBytes entry.1) (keyRead entry.1))
    (hvalue : ∀ entry ∈ entries,
      value.ReadsIf (valueGood entry.2) valueForm (valueBytes entry.2) (valueRead entry.2)) :
    (Codec.mapping kind key value).ReadsIf
      (∀ entry ∈ entries, keyGood entry.1 ∧ valueGood entry.2) .inBand
      (lengthBytes entries.length ++
        entries.flatMap fun entry => keyBytes entry.1 ++ valueBytes entry.2)
      (kind.ofPairs (entries.map fun entry => (keyRead entry.1, valueRead entry.2))) := by
  have hentry : ∀ entry ∈ entries, (readEntry key value).YieldsIf
      (keyGood entry.1 ∧ valueGood entry.2) (keyRead entry.1, valueRead entry.2)
        (keyBytes entry.1 ++ valueBytes entry.2) :=
    fun entry hentry => (hkey entry hentry).read.bind ((hvalue entry hentry).read.map rfl)
  have hentries := Reader.YieldsIf.times hentry
  refine readsIf_behindLength rfl rfl hlength ?_
  rw [entriesBody_eq]
  exact hentries.map rfl

/-! ## 5. Enumerations and records -/

/-- Among variants of different bytes each is found by its own. -/
theorem variantOf?_wrap {e : Enumeration} (hdistinct : e.variants.Pairwise fun a b =>
      e.repr.format.wrap a.discriminant ≠ e.repr.format.wrap b.discriminant)
    {v : Variant} (hv : v ∈ e.variants) :
    e.variantOf? (e.repr.format.wrap v.discriminant) = some v := by
  unfold Enumeration.variantOf?
  generalize e.variants = variants at hdistinct hv
  induction variants with
  | nil => cases hv
  | cons head rest ih =>
    rw [List.pairwise_cons] at hdistinct
    rcases List.mem_cons.mp hv with rfl | hrest
    · rw [List.find?_cons_of_pos (by simp)]
    · have hne := hdistinct.1 v hrest
      rw [List.find?_cons_of_neg (by simpa using hne)]
      exact ih hdistinct.2 hrest

/-- Some variant is found by the bytes of each. -/
theorem exists_variantOf?_wrap {e : Enumeration} {v : Variant} (hv : v ∈ e.variants) :
    ∃ found, e.variantOf? (e.repr.format.wrap v.discriminant) = some found := by
  rw [← Option.isSome_iff_exists, Enumeration.variantOf?, List.find?_isSome]
  exact ⟨v, hv, beq_self_eq_true _⟩

theorem reads_enumeration {e : Enumeration} {n : Int} {v : Variant}
    (hfound : e.variantOf? (e.repr.format.wrap n) = some v) :
    e.codec.Reads .marker (e.repr.format.encode (e.repr.format.wrap n)) v.discriminant := by
  refine reads_of_marker rfl ((Reader.yields_readInt e.repr.size_pos _).map ?_)
  rw [IntFormat.wrap_wrap, hfound]

/-- What a codec promises of what a field has on the wire. -/
def FieldReadsIf (codecOf : Shape → Codec Value) (good : Shape → Value → Prop)
    (form : Shape → NullForm) (bytes : Shape → Value → List UInt8) (read : Shape → Value → Value)
    (field : FieldLayout) (value : Value) : Prop :=
  field.Takes value ∧ ∀ content, field.content? value = some content →
    (codecOf field.shape).ReadsIf (good field.shape content) (form field.shape)
      (bytes field.shape content) (read field.shape content)

section

variable {codecOf : Shape → Codec Value} {good : Shape → Value → Prop} {form : Shape → NullForm}
  {bytes : Shape → Value → List UInt8} {read : Shape → Value → Value}

/-- A field is read from its bytes, where the bitset answers for it. -/
theorem FieldReadsIf.yieldsIf {field : FieldLayout} {value : Value}
    (h : FieldReadsIf codecOf good form bytes read field value) {size : Nat} {set : NullBitset size}
    (hset : ∀ mark, field.mark? value = some mark → set.isNull? mark.1 = some mark.2) :
    ((field.codec codecOf).read set).YieldsIf (field.IsGood good value) (field.restored read value)
      (field.bytes bytes value) := by
  obtain ⟨htakes, hcontent⟩ := h
  obtain ⟨presence, shape, initial⟩ := field
  cases presence with
  | always => exact (hcontent value rfl).read.congr (FieldLayout.isGood_iff rfl).symm
  | skipped =>
    have hgood : FieldLayout.IsGood good ⟨.skipped, shape, initial⟩ value :=
      FieldLayout.isGood_of_none rfl
    cases value <;> exact (Reader.yields_pure _).yieldsIf.congr (iff_of_true trivial hgood)
  | nullable slot =>
    have hanswer : set.isNull? slot = some value.isNull := hset (slot, value.isNull) rfl
    have htest : set.test slot = pure value.isNull := by rw [NullBitset.test, hanswer]
    have hread : (FieldLayout.codec codecOf ⟨.nullable slot, shape, initial⟩).read set = (do
        if ← set.test slot then pure .null
        else do
          let inner ← (codecOf shape).read
          pure (.present inner)) := rfl
    rw [hread, htest]
    cases value with
    | null =>
      have hgood : FieldLayout.IsGood good ⟨.nullable slot, shape, initial⟩ .null :=
        FieldLayout.isGood_of_none rfl
      exact (Reader.yields_pure _).yieldsIf.congr (iff_of_true trivial hgood)
    | present inner =>
      refine Reader.YieldsIf.congr ?_ (FieldLayout.isGood_iff rfl).symm
      exact (hcontent inner rfl).read.map rfl
    | _ => exact htakes.elim

theorem yieldsIf_readFields {fields : List FieldLayout} {values : List Value}
    (hlength : fields.length = values.length)
    (h : ∀ pair ∈ fields.zip values, FieldReadsIf codecOf good form bytes read pair.1 pair.2)
    {size : Nat} {set : NullBitset size}
    (hset : ∀ mark ∈ marksOf fields values, set.isNull? mark.1 = some mark.2) :
    (readFields set (fields.map (FieldLayout.codec codecOf))).YieldsIf
      (∀ pair ∈ fields.zip values, pair.1.IsGood good pair.2)
      ((fields.zip values).map fun pair => pair.1.restored read pair.2)
      ((fields.zip values).flatMap fun pair => pair.1.bytes bytes pair.2) := by
  induction fields generalizing values with
  | nil => exact (Reader.yields_pure _).yieldsIf.congr (by simp)
  | cons field fields ih =>
    cases values with
    | nil => cases hlength
    | cons value values =>
      rw [List.zip_cons_cons] at h ⊢
      have hfirst := (h (field, value) List.mem_cons_self).yieldsIf fun mark hmark =>
        hset mark (List.mem_filterMap.mpr ⟨(field, value), List.mem_cons_self, hmark⟩)
      have hrest := ih (Nat.succ.inj hlength)
        (fun pair hpair => h pair (List.mem_cons_of_mem _ hpair))
        fun mark hmark => by
          obtain ⟨pair, hpair, hmark⟩ := List.mem_filterMap.mp hmark
          exact hset mark (List.mem_filterMap.mpr ⟨pair, List.mem_cons_of_mem _ hpair, hmark⟩)
      rw [List.flatMap_cons, List.map_cons, List.forall_mem_cons]
      exact hfirst.bind (hrest.map rfl)

/-- **A record is read from its bitset and the bytes of its fields.** -/
theorem readsIf_record {codec : Codec (List Value)} {fields : List FieldLayout}
    {values : List Value}
    (hrecord : RecordCodec codec (fields.map (FieldLayout.codec codecOf)))
    (halike : ∀ buffer cursor, Reading.Alike
      ((Codec.record (fields.map (FieldLayout.codec codecOf))).read buffer cursor)
      (codec.read buffer cursor))
    (hnumbered : Numbered 0 (fields.map FieldLayout.presence))
    (hlength : fields.length = values.length)
    (h : ∀ pair ∈ fields.zip values, FieldReadsIf codecOf good form bytes read pair.1 pair.2) :
    codec.ReadsIf (∀ pair ∈ fields.zip values, pair.1.IsGood good pair.2) .marker
      (bitsetOf fields values ++
        (fields.zip values).flatMap fun pair => pair.1.bytes bytes pair.2)
      ((fields.zip values).map fun pair => pair.1.restored read pair.2) := by
  obtain ⟨set, -, hbitset, hset⟩ := hnumbered.bitset_answers values
  have hread : (Codec.record (fields.map (FieldLayout.codec codecOf))).read.YieldsIf
      (∀ pair ∈ fields.zip values, pair.1.IsGood good pair.2)
      ((fields.zip values).map fun pair => pair.1.restored read pair.2)
      (bitsetOf fields values ++
        (fields.zip values).flatMap fun pair => pair.1.bytes bytes pair.2) := by
    rw [read_record, hbitset]
    exact set.yields_read.bind_if (yieldsIf_readFields hlength h hset)
  exact readsIf_of_marker hrecord.nullable (hread.of_alike halike)

end

end Codec

/-! ## 6. Catalogues -/

namespace Catalogue

variable [DecimalForm] {catalogue : Catalogue} (sharing : Sharing Value)

/-- Null is read in the form of its shape. -/
theorem readsNull_within (nestings : Nat) (shape : Shape) :
    (catalogue.within sharing nestings shape).nullable.ReadsNull shape.nullForm := by
  induction shape with
  | leaf l =>
    show l.codec.nullable.ReadsNull l.kind.nullForm
    rw [l.codec_kind]
    cases l.kind <;> first
      | exact NullLayout.readsNull_marker.lift _
      | exact NullLayout.readsNull_inBand.lift _
  | option inner _ => exact NullLayout.readsNull_marker.lift Value.optionCase
  | boxed inner ih => exact ih
  | shared inner ih => exact ih
  | sequence kind element _ => exact NullLayout.readsNull_inBand.lift Value.listCase
  | array length element _ => exact NullLayout.readsNull_inBand.lift Value.listCase
  | mapping kind key value _ _ => exact NullLayout.readsNull_inBand.lift Value.entriesCase
  | named name =>
    cases nestings with
    | zero => exact NullLayout.readsNull_marker
    | succ nestings =>
      show (catalogue.codec sharing (nestings + 1) name).nullable.ReadsNull .marker
      cases hname : catalogue.get? name with
      | none =>
        have hnull : (Codec.exhausted : Codec Value).nullable.ReadsNull .marker :=
          NullLayout.readsNull_marker
        rw [Catalogue.codec, hname]
        exact hnull
      | some definition =>
        rw [codec_succ sharing nestings hname]
        cases definition <;> exact NullLayout.readsNull_marker.lift _

/-- Boxes do not show in what is read. -/
theorem within_bare (nestings : Nat) (shape : Shape) :
    (catalogue.within sharing nestings shape.bare).read =
        (catalogue.within sharing nestings shape).read ∧
      (catalogue.within sharing nestings shape.bare).nullable =
        (catalogue.within sharing nestings shape).nullable := by
  induction shape with
  | boxed inner ih => exact ih
  | shared inner ih => exact ih
  | _ => exact ⟨rfl, rfl⟩

/-- What comes back from the wire format of a value, in all types of one form: a value that is read
from it by those that the value is of, while the others stumble; and the restored one, if no two
variants of an enumeration have the same bytes. -/
structure Recovers (catalogue : Catalogue) (shape : Shape) (value value' : Value) : Prop where
  reads : ∀ (other : Catalogue) (sharing : Sharing Value) (shape' : Shape) (nestings : Nat),
    other.Planned → catalogue.Interchanges other → shape'.wireForm = shape.wireForm →
      value.height ≤ nestings → (other.within sharing nestings shape').ReadsIf
        (other.HasShape shape' value) shape'.nullForm (other.wire shape' value) value'
  restored : catalogue.Distinct → value' = catalogue.restored shape value

/-- Only types without boxes around them have to be looked at. -/
theorem Recovers.of_bare {shape : Shape} {value value' : Value}
    (hreads : ∀ (other : Catalogue) (sharing : Sharing Value) (shape' : Shape) (nestings : Nat),
      other.Planned → catalogue.Interchanges other → shape'.wireForm = shape.wireForm →
        value.height ≤ nestings → (other.within sharing nestings shape'.bare).ReadsIf
          (other.HasShape shape'.bare value) shape'.bare.nullForm (other.wire shape'.bare value)
            value')
    (hrestored : catalogue.Distinct → value' = catalogue.restored shape value) :
    catalogue.Recovers shape value value' := by
  refine ⟨fun other sharing shape' nestings hplanned hinterchanges hform hheight => ?_, hrestored⟩
  have hbare := hreads other sharing shape' nestings hplanned hinterchanges hform hheight
  obtain ⟨hread, hnullable⟩ := @within_bare _ other sharing nestings shape'
  rw [wire_bare, Shape.nullForm_bare] at hbare
  have hbare := hbare.congr hasShape_bare_iff
  exact ⟨hread ▸ hbare.read, hnullable ▸ hbare.nullable⟩

/-- What is recovered in one type is recovered in the others of its form. -/
theorem Recovers.of_form {shape shape' : Shape} {value value' : Value}
    (h : catalogue.Recovers shape value value') (hshape : catalogue.HasShape shape value)
    (hform : shape'.wireForm = shape.wireForm) : catalogue.Recovers shape' value value' := by
  constructor
  case reads => rw [hform]; exact h.reads
  case restored =>
    rw [((Interchanges.refl catalogue).sameWire hshape hform).restored]
    exact h.restored

theorem recovers_leaf {l : Leaf} {value : Value} (h : l.kind.Holds value)
    (hfits : l.kind.fits value = true) : catalogue.Recovers (.leaf l) value value := by
  refine .of_bare (fun other sharing shape' nestings _ _ hform _ => ?_)
    fun _ => (restored_leaf h).symm
  obtain ⟨l', hbare, hl⟩ := Shape.bare_of_leaf hform
  obtain ⟨hholds, hfits', -⟩ := Leaf.same_of_form hl value
  have hleaf := hholds.mpr h
  have hreads := Codec.reads_leaf l'.kind_hasWidth hleaf (hfits'.trans hfits)
  rw [hbare, wire_leaf hleaf]
  show l'.codec.ReadsIf _ _ _ _
  rw [l'.codec_kind]
  exact hreads.readsIf.congr (iff_of_true trivial (.leaf hleaf))

theorem recovers_null (inner : Shape) : catalogue.Recovers (.option inner) .null .null := by
  refine .of_bare (fun other sharing shape' nestings _ _ hform _ => ?_) fun _ => rfl
  obtain ⟨inner', hbare, -⟩ := Shape.bare_of_option hform
  rw [hbare]
  have hnull := Codec.reads_option_none (@readsNull_within _ other sharing nestings inner')
  exact (hnull.lift Value.optionCase).readsIf.congr (iff_of_true trivial .null)

theorem Recovers.present {inner : Shape} {value value' : Value}
    (h : catalogue.Recovers inner value value') :
    catalogue.Recovers (.option inner) (.present value) (.present value') := by
  refine .of_bare (fun other sharing shape' nestings hplanned hinterchanges hform hheight => ?_)
    fun hdistinct => congrArg Value.present (h.restored hdistinct)
  obtain ⟨inner', hbare, hinner⟩ := Shape.bare_of_option hform
  rw [Value.height] at hheight
  have hle : value.height ≤ nestings := by omega
  rw [hbare]
  have hreads := h.reads other sharing inner' nestings hplanned hinterchanges hinner hle
  exact (hreads.option.lift Value.optionCase).congr hasShape_present_iff.symm

/-- Items that are recovered each are recovered as a list, however they are held. -/
theorem Recovers.list {shape : Shape} {items : List Value} {read : Value → Value}
    (hshape : shape.wireForm = .sequence .list shape.element.wireForm)
    (hlength : items.length ≤ maxLength)
    (h : ∀ item ∈ items, catalogue.Recovers shape.element item (read item)) :
    catalogue.Recovers shape (.list items) (.list (items.map read)) := by
  refine .of_bare (fun other sharing shape' nestings hplanned hinterchanges hform hheight => ?_)
    fun hdistinct => ?_
  · rw [Value.height] at hheight
    have hle : Value.heightOfItems items ≤ nestings := by omega
    have hitems : ∀ element, element.wireForm = shape.element.wireForm → ∀ item ∈ items,
        (other.within sharing nestings element).ReadsIf (other.HasShape element item)
          element.nullForm (other.wire element item) (read item) :=
      fun element helement item hitem => (h item hitem).reads other sharing element nestings
        hplanned hinterchanges helement ((height_le_of_mem_items hitem).trans hle)
    obtain ⟨kind, element, hbare, helement⟩ | ⟨length, element, hbare, helement⟩ :=
      Shape.bare_of_sequence (hform.trans hshape)
    · have hreads := Codec.readsIf_sequence kind hlength (hitems element helement)
      rw [hbare, wire, wireItems_eq]
      exact (hreads.lift Value.listCase).congr hasShape_sequence_iff.symm
    · have hreads := Codec.readsIf_array length hlength (hitems element helement)
      rw [hbare, wire, wireItems_eq]
      exact (hreads.lift Value.listCase).congr hasShape_array_iff.symm
  · rw [Catalogue.restored, restoredItems_eq]
    exact congrArg Value.list
      (List.map_congr_left fun item hitem => (h item hitem).restored hdistinct)

/-- Entries whose keys and values are recovered are recovered as a map. -/
theorem Recovers.entries {kind : MapKind} {key value : Shape} {entries : List (Value × Value)}
    {keyRead valueRead : Value → Value} (hlength : entries.length ≤ maxLength)
    (hkey : ∀ entry ∈ entries, catalogue.Recovers key entry.1 (keyRead entry.1))
    (hvalue : ∀ entry ∈ entries, catalogue.Recovers value entry.2 (valueRead entry.2)) :
    catalogue.Recovers (.mapping kind key value) (.entries entries)
      (.entries (kind.ofPairs
        (entries.map fun entry => (keyRead entry.1, valueRead entry.2)))) := by
  refine .of_bare (fun other sharing shape' nestings hplanned hinterchanges hform hheight => ?_)
    fun hdistinct => ?_
  · obtain ⟨key', value', hbare, hkeyForm, hvalueForm⟩ := Shape.bare_of_mapping hform
    rw [Value.height] at hheight
    have hle : Value.heightOfEntries entries ≤ nestings := by omega
    have hreads := Codec.readsIf_mapping kind (other.HasShape key') (other.HasShape value')
      (other.wire key') (other.wire value') keyRead valueRead hlength
      (fun entry hentry => (hkey entry hentry).reads other sharing key' nestings hplanned
        hinterchanges hkeyForm ((height_le_of_mem_entries hentry).1.trans hle))
      fun entry hentry => (hvalue entry hentry).reads other sharing value' nestings hplanned
        hinterchanges hvalueForm ((height_le_of_mem_entries hentry).2.trans hle)
    rw [hbare, wire, wireEntries_eq]
    exact (hreads.lift Value.entriesCase).congr hasShape_mapping_iff.symm
  · rw [Catalogue.restored, restoredEntries_eq]
    refine congrArg (fun pairs => Value.entries (kind.ofPairs pairs))
      (List.map_congr_left fun entry hentry => ?_)
    exact congrArg₂ Prod.mk ((hkey entry hentry).restored hdistinct)
      ((hvalue entry hentry).restored hdistinct)

/-- A variant is recovered as the first one of its bytes. -/
theorem exists_recovers_variant {name : String} {e : Enumeration} {v : Variant}
    (hname : catalogue.get? name = some (.enumeration e)) (h : v ∈ e.variants) :
    ∃ value', catalogue.Recovers (.named name) (.variant v.discriminant) value' := by
  obtain ⟨found, hfound⟩ := Codec.exists_variantOf?_wrap h
  refine ⟨.variant found.discriminant, .of_bare
    (fun other sharing shape' nestings _ hinterchanges hform hheight => ?_) fun hdistinct => ?_⟩
  · cases nestings with
    | zero => simp [Value.height] at hheight
    | succ nestings =>
      have hname' := hinterchanges.enumeration hname
      have hgood : other.HasShape (.named name) (.variant v.discriminant) := .variant hname' h
      have hvariant := ((Codec.reads_enumeration hfound).lift Value.variantCase).readsIf.congr
        (iff_of_true trivial hgood)
      rw [Shape.bare_of_named hform, wire_variant hname']
      show (other.codec sharing (nestings + 1) name).ReadsIf _ _ _ _
      rw [codec_succ sharing nestings hname']
      exact ⟨hvariant.read, hvariant.nullable⟩
  · rw [Codec.variantOf?_wrap (hdistinct name e hname) h] at hfound
    cases hfound
    rfl

section

variable {fields : List FieldLayout} {values : List Value} {read : Shape → Value → Value}
  (htakes : ∀ pair ∈ fields.zip values, pair.1.Takes pair.2)
  (h : ∀ pair ∈ fields.zip values, ∀ content, pair.1.content? pair.2 = some content →
    catalogue.Recovers pair.1.shape content (read pair.1.shape.wireForm content))

include htakes h

/-- What is recovered of fields is read in fields that are interchangeable with them. -/
theorem fieldReadsIf_of_recovers {other : Catalogue} (hplanned : other.Planned)
    (hinterchanges : catalogue.Interchanges other) {fields' : List FieldLayout}
    (hfields : List.Forall₂ FieldLayout.Interchanges fields fields') {nestings : Nat}
    (hheight : Value.heightOfItems values ≤ nestings) :
    ∀ pair ∈ fields'.zip values, Codec.FieldReadsIf (other.within sharing nestings) other.HasShape
      Shape.nullForm other.wire (fun shape => read shape.wireForm) pair.1 pair.2 := by
  intro pair hpair
  obtain ⟨field, hfield, hpairs⟩ := exists_of_mem_zip hfields hpair
  refine ⟨hpairs.takes (htakes _ hfield), fun content hcontent => ?_⟩
  rw [hpairs.content?] at hcontent
  have hform := hpairs.form_of_content hcontent
  have hle := (height_content_le hcontent).trans
    ((height_le_of_mem_items (List.of_mem_zip hfield).2).trans hheight)
  have hread := (h _ hfield content hcontent).reads other sharing pair.1.shape nestings hplanned
    hinterchanges hform hle
  rwa [← hform] at hread

/-- A record whose fields are recovered, by their forms, is recovered. -/
theorem Recovers.record {name : String} (hname : catalogue.layout? name = some fields)
    (hlength : fields.length = values.length) :
    catalogue.Recovers (.named name) (.record values) (.record ((fields.zip values).map fun pair =>
      pair.1.restored (fun shape => read shape.wireForm) pair.2)) := by
  refine .of_bare (fun other sharing shape' nestings hplanned hinterchanges hform hheight => ?_)
    fun hdistinct => ?_
  · cases nestings with
    | zero => simp [Value.height] at hheight
    | succ nestings =>
      rw [Value.height] at hheight
      have hle : Value.heightOfItems values ≤ nestings := by omega
      obtain ⟨fields', hname', hfields⟩ := hinterchanges.record hname
      obtain ⟨definition, hdefinition, hlayout⟩ := exists_of_layout? hname'
      obtain ⟨inner, hinner, hrecord, halike⟩ :=
        hplanned.codec_record sharing nestings hdefinition hlayout
      have hlength' : fields'.length = values.length := hfields.length_eq.symm.trans hlength
      have hreads := fieldReadsIf_of_recovers sharing htakes h hplanned hinterchanges hfields hle
      have hvalue := (Codec.readsIf_record hrecord halike (Definition.layout_numbered other.initial
        (hplanned name definition hdefinition) hlayout) hlength' hreads).lift Value.recordCase
      have hnamed := hvalue.congr
        (hasShape_record_iff hname' hlength' fun pair hpair => (hreads pair hpair).1).symm
      rw [map_restored_of_interchanges hfields] at hnamed
      rw [Shape.bare_of_named hform, wire, fieldsOf_named hname', wireFields_eq]
      show (other.codec sharing (nestings + 1) name).ReadsIf _ _ _ _
      rw [codec_succ sharing nestings hdefinition, hinner]
      exact ⟨hnamed.read, hnamed.nullable⟩
  · rw [Catalogue.restored, fieldsOf_named hname, restoredFields_eq]
    exact congrArg Value.record (List.map_congr_left fun pair hpair =>
      FieldLayout.restored_congr fun content hcontent =>
        (h pair hpair content hcontent).restored hdistinct)

end

/-- What is recovered of a field is told by its form, which the fields of all catalogues share. -/
theorem exists_recovers_record {name : String} {fields : List FieldLayout} {values : List Value}
    (hname : catalogue.layout? name = some fields) (hlength : fields.length = values.length)
    (htakes : ∀ pair ∈ fields.zip values, pair.1.Takes pair.2)
    (hshape : ∀ pair ∈ fields.zip values, pair.1.IsGood catalogue.HasShape pair.2)
    (h : ∀ pair ∈ fields.zip values, pair.1.IsGood
      (fun shape content => ∃ content', catalogue.Recovers shape content content') pair.2) :
    ∃ value', catalogue.Recovers (.named name) (.record values) value' := by
  have hcontents : ∀ form content, (∃ pair ∈ fields.zip values, pair.1.shape.wireForm = form ∧
      pair.1.content? pair.2 = some content) → ∃ content', ∀ pair ∈ fields.zip values,
        pair.1.shape.wireForm = form → pair.1.content? pair.2 = some content →
          catalogue.Recovers pair.1.shape content content' := by
    rintro form content ⟨pair, hpair, rfl, hcontent⟩
    obtain ⟨content', hrecovers⟩ := h pair hpair content hcontent
    have hhas := hshape pair hpair content hcontent
    exact ⟨content', fun _ _ hform _ => hrecovers.of_form hhas hform⟩
  choose! read hread using hcontents
  exact ⟨_, .record htakes (fun pair hpair content hcontent =>
    hread _ content ⟨pair, hpair, rfl, hcontent⟩ pair hpair rfl hcontent) hname hlength⟩

/-- **The bytes of a value are read in every type of one form that the value is of**, as one and the
same value; and all others of the form stumble over a count. -/
theorem exists_recovers {shape : Shape} {value : Value} (h : catalogue.HasShape shape value)
    (hfits : catalogue.fits shape value = true) :
    ∃ value', catalogue.Recovers shape value value' := by
  induction h with
  | @leaf l value h =>
    rw [fits_leaf h] at hfits
    exact ⟨value, recovers_leaf h hfits⟩
  | @null inner => exact ⟨.null, recovers_null inner⟩
  | present h ih =>
    obtain ⟨value', hrecovers⟩ := ih hfits
    exact ⟨.present value', hrecovers.present⟩
  | boxed h ih =>
    obtain ⟨value', hrecovers⟩ := ih (by rwa [fits_boxed] at hfits)
    exact ⟨value', hrecovers.reads, by rw [restored_boxed]; exact hrecovers.restored⟩
  | shared h ih =>
    obtain ⟨value', hrecovers⟩ := ih (by rwa [fits_shared] at hfits)
    exact ⟨value', hrecovers.reads, by rw [restored_shared]; exact hrecovers.restored⟩
  | @sequence kind element items h ih =>
    rw [fits, Bool.and_eq_true, decide_eq_true_eq, fitsItems_iff] at hfits
    choose! read hread using fun item hitem => ih item hitem (hfits.2 item hitem)
    exact ⟨.list (items.map read), .list rfl hfits.1 hread⟩
  | @array length element items hlength h ih =>
    rw [fits, Bool.and_eq_true, decide_eq_true_eq, fitsItems_iff] at hfits
    choose! read hread using fun item hitem => ih item hitem (hfits.2 item hitem)
    exact ⟨.list (items.map read), .list rfl hfits.1 hread⟩
  | @mapping kind key value entries hkey hvalue ihkey ihvalue =>
    rw [fits, Bool.and_eq_true, decide_eq_true_eq, fitsEntries_iff] at hfits
    have hkeys : ∀ k, (∃ entry ∈ entries, entry.1 = k) → ∃ k', catalogue.Recovers key k k' := by
      rintro k ⟨entry, hentry, rfl⟩
      exact ihkey entry hentry (hfits.2 entry hentry).1
    have hvalues : ∀ v, (∃ entry ∈ entries, entry.2 = v) → ∃ v', catalogue.Recovers value v v' := by
      rintro v ⟨entry, hentry, rfl⟩
      exact ihvalue entry hentry (hfits.2 entry hentry).2
    choose! keyRead hkeyRead using hkeys
    choose! valueRead hvalueRead using hvalues
    exact ⟨_, .entries hfits.1 (fun entry hentry => hkeyRead _ ⟨entry, hentry, rfl⟩)
      fun entry hentry => hvalueRead _ ⟨entry, hentry, rfl⟩⟩
  | variant hname h => exact exists_recovers_variant hname h
  | @record name fields values hname hlength htakes h ih =>
    rw [fits, fieldsOf_named hname, fitsFields_iff] at hfits
    exact exists_recovers_record hname hlength htakes h fun pair hpair content hcontent =>
      ih pair hpair content hcontent (hfits pair hpair content hcontent)

/-- What comes back from the wire format of a value: a value that is read from it, and the restored
one, if no two variants of an enumeration have the same bytes. -/
structure ReadsBack (codec : Codec Value) (shape : Shape) (value value' : Value) : Prop where
  reads : codec.Reads shape.nullForm (catalogue.wire shape value) value'
  restored : catalogue.Distinct → value' = catalogue.restored shape value

/-- **A catalogue reads back what it writes**, with as many nestings as the value is high. -/
theorem Planned.exists_readsBack (hplanned : catalogue.Planned) {shape : Shape} {value : Value}
    (h : catalogue.HasShape shape value) (hfits : catalogue.fits shape value = true)
    {nestings : Nat} (hheight : value.height ≤ nestings) : ∃ value',
      catalogue.ReadsBack (catalogue.within sharing nestings shape) shape value value' := by
  obtain ⟨value', hrecovers⟩ := exists_recovers h hfits
  have hreads := hrecovers.reads catalogue sharing shape nestings hplanned (.refl catalogue) rfl
    hheight
  exact ⟨value', hreads.reads h, hrecovers.restored⟩

end Catalogue

end Wireform
