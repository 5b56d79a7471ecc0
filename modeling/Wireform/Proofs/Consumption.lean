import Wireform.Proofs.Locality
import Wireform.Proofs.Reads

/-!
# What reads consume

Two facts about every read of a catalogue, whatever the buffer holds.

It never goes back, not even when it fails (`Reader.Forward`), which readers in sequence inherit.

And it takes a byte, unless its shape has a value of no bytes at all.  A read is local, so what is
read from no bytes somewhere is read from an empty buffer; and from an empty buffer nothing can be
read but records without a bitset, whose fields are read from an empty buffer in turn.  What is
read there need not be the value of no bytes, since skipped fields have no place on the wire, but
there is one (`Planned.exists_weightless`).
-/
namespace Wireform

variable {α β : Type}

/-! ## 1. Going forward -/

/-- The read ends, with a value or with a failure, where it started or behind. -/
def Reading.From (start : Nat) : Reading α → Prop
  | .ok _ stop => start ≤ stop
  | .error _ stop => start ≤ stop

theorem Reading.From.earlier {start middle : Nat} (hle : start ≤ middle) {result : Reading α}
    (h : Reading.From middle result) : Reading.From start result := by
  cases result with
  | ok value stop => exact hle.trans h
  | error failure stop => exact hle.trans h

theorem Reading.From.of_alike {start : Nat} {first second : Reading α}
    (h : Reading.From start first) (halike : Reading.Alike first second) :
    Reading.From start second := by
  cases first <;> cases second <;> simp only [Reading.Alike] at halike
  · exact halike.2 ▸ h
  · exact halike.2 ▸ h

/-- No read goes back. -/
def Reader.Forward (reader : Reader α) : Prop :=
  ∀ buffer cursor, Reading.From cursor (reader buffer cursor)

namespace Reader

theorem forward_pure (value : α) : (pure value : Reader α).Forward :=
  fun _ cursor => Nat.le_refl cursor

theorem forward_throw (failure : Failure) : (throw failure : Reader α).Forward :=
  fun _ cursor => Nat.le_refl cursor

theorem Forward.bind {reader : Reader α} {next : α → Reader β} (h : reader.Forward)
    (hnext : ∀ value, (next value).Forward) : (reader >>= next).Forward := by
  intro buffer cursor
  have hfirst := h buffer cursor
  rw [bind_apply]
  cases hread : reader buffer cursor with
  | ok value middle =>
    rw [hread] at hfirst
    exact (hnext value buffer middle).earlier hfirst
  | error failure stop =>
    rw [hread] at hfirst
    exact hfirst

theorem Forward.of_get {next : Nat → Reader α} (h : ∀ offset, (next offset).Forward) :
    (get >>= next : Reader α).Forward :=
  fun buffer cursor => h cursor buffer cursor

/-- A reader that keeps to the buffer goes forward. -/
theorem Sound.forward {reader : Reader α} (h : reader.Sound) : reader.Forward := by
  intro buffer cursor
  have hcontained := (h.steady buffer cursor).contained
  cases hread : reader buffer cursor with
  | ok value stop =>
    rw [hread] at hcontained
    exact hcontained.1
  | error failure stop =>
    rw [hread] at hcontained
    exact hcontained.1.1

theorem Forward.of_alike {reader reader' : Reader α} (h : reader.Forward)
    (halike : ∀ buffer cursor, Reading.Alike (reader buffer cursor) (reader' buffer cursor)) :
    reader'.Forward :=
  fun buffer cursor => (h buffer cursor).of_alike (halike buffer cursor)

theorem Forward.behindMarker {read : Reader α} (h : read.Forward) : read.behindMarker.Forward := by
  refine .of_get fun offset => sound_readByte.forward.bind fun found => ?_
  split
  · exact forward_pure none
  · split
    · exact h.bind fun value => forward_pure (some value)
    · exact forward_throw _

theorem inherited_forward [DecimalForm] : Inherited Forward :=
  .of_sound Sound.forward forward_throw Forward.bind Forward.behindMarker Forward.of_alike

end Reader

/-- **No read of a catalogue goes back**, however many nestings there are. -/
theorem Catalogue.Planned.forward [DecimalForm] {catalogue : Catalogue} (sharing : Sharing Value)
    (hplanned : catalogue.Planned) (nestings : Nat) (shape : Shape) :
    (catalogue.within sharing nestings shape).read.Forward :=
  (hplanned.readsWith Reader.inherited_forward sharing nestings shape).read

/-! ## 2. Reading from an empty buffer -/

/-- From an empty buffer nothing is read. -/
def Reader.NeedsBytes (reader : Reader α) : Prop :=
  ∀ value stop, reader [] 0 ≠ .ok value stop

namespace Reader

/-- What yields bytes for some value needs them. -/
theorem Yields.needsBytes {reader : Reader α} {value : α} {bytes : List UInt8}
    (h : reader.Yields value bytes) (hne : bytes ≠ []) : reader.NeedsBytes := by
  intro other stop hread
  have hends : EndsInside [] 0 bytes :=
    ⟨Nat.le_refl _, List.nil_prefix, by simpa using List.length_pos_iff.mpr hne⟩
  obtain ⟨_, _, _, herror, -⟩ := (h [] 0).cut hends
  cases hread.symm.trans herror

theorem NeedsBytes.bind {reader : Reader α} (h : reader.NeedsBytes) (next : α → Reader β) :
    (reader >>= next).NeedsBytes := by
  intro result stop hread
  obtain ⟨value, middle, hfirst, -⟩ := bind_eq_ok hread
  exact h value middle hfirst

theorem needsBytes_readInt {format : IntFormat} (hwidth : 0 < format.width) :
    (readInt format).NeedsBytes := by
  refine (yields_readInt hwidth 0).needsBytes fun hnil => ?_
  have hlength := format.length_encode 0
  rw [hnil] at hlength
  exact hwidth.ne hlength

theorem needsBytes_readRequiredLength (name : String) : (readRequiredLength name).NeedsBytes :=
  (yields_readRequiredLength name (Nat.zero_le _)).needsBytes (lengthBytes_ne_nil 0)

/-- A local read in an empty buffer stays where it is. -/
theorem Local.stop_eq_zero {reader : Reader α} (h : reader.Local) {value : α} {stop : Nat}
    (hread : reader [] 0 = .ok value stop) : stop = 0 := by
  obtain ⟨bytes, hstop, hholds, -⟩ := h _ _ _ _ hread
  have hnone := hholds.length_le
  rw [List.length_nil] at hnone
  omega

end Reader

theorem Leaf.needsBytes [DecimalForm] (l : Leaf) : l.codec.read.NeedsBytes := by
  intro value stop hread
  cases l with
  | primitive p => cases p <;> cases hread
  | _ => cases hread

namespace Catalogue

variable [DecimalForm] (catalogue : Catalogue)

/-- A value that is encoded as no bytes. -/
structure Weightless (shape : Shape) (value : Value) : Prop where
  hasShape : catalogue.HasShape shape value
  fits : catalogue.fits shape value = true
  wire : catalogue.wire shape value = []

variable {catalogue} (sharing : Sharing Value)

/-- A record without a bitset, whose fields have no bytes, has none. -/
theorem weightless_record {name : String} {fields : List FieldLayout} {values : List Value}
    (hname : catalogue.layout? name = some fields) (hbytes : bitsetBytesOf fields = 0)
    (hlength : fields.length = values.length)
    (htakes : ∀ pair ∈ fields.zip values, pair.1.Takes pair.2)
    (h : ∀ pair ∈ fields.zip values, ∀ content, pair.1.content? pair.2 = some content →
      catalogue.Weightless pair.1.shape content) :
    catalogue.Weightless (.named name) (.record values) := by
  refine ⟨.record hname hlength htakes fun pair hpair content hcontent =>
    (h pair hpair content hcontent).hasShape, ?_, ?_⟩
  · show catalogue.fitsFields (catalogue.fieldsOf (.named name)) values = true
    rw [fieldsOf_named hname, fitsFields_iff]
    exact fun pair hpair content hcontent => (h pair hpair content hcontent).fits
  · show bitsetOf (catalogue.fieldsOf (.named name)) values ++
      catalogue.wireFields (catalogue.fieldsOf (.named name)) values = []
    rw [fieldsOf_named hname, List.append_eq_nil_iff, wireFields_eq, List.flatMap_eq_nil_iff]
    constructor
    · unfold bitsetOf
      split
      · next set _ => exact List.length_eq_zero_iff.mp (set.length_toBytes.trans hbytes)
      · rfl
    · intro pair hpair
      unfold FieldLayout.bytes
      split
      · next content hcontent => exact (h pair hpair content hcontent).wire
      · rfl

/-- Fields that are read from an empty buffer, none of them nullable, have values of no bytes if
their shapes do whenever they are read so. -/
theorem exists_weightless_fields {codecOf : Shape → Codec Value} {size : Nat}
    (set : NullBitset size) {fields : List FieldLayout} (hbytes : bitsetBytesOf fields = 0)
    (hlocal : ∀ shape, (codecOf shape).read.Local)
    (h : ∀ shape value stop, (codecOf shape).read [] 0 = .ok value stop →
      ∃ value, catalogue.Weightless shape value) {values : List Value} {stop : Nat}
    (hread : readFields set (fields.map (FieldLayout.codec codecOf)) [] 0 = .ok values stop) :
    ∃ values : List Value, fields.length = values.length ∧
      (∀ pair ∈ fields.zip values, pair.1.Takes pair.2) ∧
      ∀ pair ∈ fields.zip values, ∀ content, pair.1.content? pair.2 = some content →
        catalogue.Weightless pair.1.shape content := by
  induction fields generalizing values stop with
  | nil => exact ⟨[], rfl, fun _ hpair => absurd hpair List.not_mem_nil,
      fun _ hpair => absurd hpair List.not_mem_nil⟩
  | cons field fields ih =>
    obtain ⟨presence, shape, initial⟩ := field
    have hnone := Definition.bitsetSize_eq_zero.mp hbytes
    obtain ⟨head, middle, hhead, hbehind⟩ := Reader.bind_eq_ok hread
    obtain ⟨rest, last, hrest, -⟩ := Reader.bind_eq_ok hbehind
    cases presence with
    | nullable slot => cases hnone
    | skipped =>
      cases hhead
      obtain ⟨values, hlength, htakes, hweightless⟩ := ih hbytes hrest
      refine ⟨.null :: values, congrArg (· + 1) hlength, ?_, ?_⟩
      · exact List.forall_mem_cons.mpr ⟨trivial, htakes⟩
      · exact List.forall_mem_cons.mpr ⟨fun _ hcontent => (nomatch hcontent), hweightless⟩
    | always =>
      have hmiddle : middle = 0 := (hlocal shape).stop_eq_zero hhead
      subst hmiddle
      obtain ⟨value, hvalue⟩ := h shape head 0 hhead
      obtain ⟨values, hlength, htakes, hweightless⟩ := ih hbytes hrest
      refine ⟨value :: values, congrArg (· + 1) hlength, ?_, ?_⟩
      · exact List.forall_mem_cons.mpr ⟨trivial, htakes⟩
      · refine List.forall_mem_cons.mpr ⟨fun content hcontent => ?_, hweightless⟩
        cases hcontent
        exact hvalue

/-- If a name that is read from an empty buffer has a value of no bytes, so has every shape. -/
theorem exists_weightless_of_named {nestings : Nat}
    (hnamed : ∀ name value stop,
      (catalogue.codec sharing nestings name).read [] 0 = .ok value stop →
      ∃ value, catalogue.Weightless (.named name) value) (shape : Shape) {value : Value}
    {stop : Nat} (hread : (catalogue.within sharing nestings shape).read [] 0 = .ok value stop) :
    ∃ value, catalogue.Weightless shape value := by
  induction shape generalizing value stop with
  | leaf l => exact absurd hread (l.needsBytes value stop)
  | option inner _ =>
    -- an optional value has a presence byte or a prefix
    have hnull : (catalogue.within sharing nestings inner).nullable.read.NeedsBytes :=
      (readsNull_within sharing nestings inner).needsBytes
        (by cases inner.nullForm <;> exact List.cons_ne_nil _ _)
    exact absurd hread (hnull.bind _ value stop)
  | boxed inner ih =>
    obtain ⟨value, hvalue⟩ := ih hread
    exact ⟨value, .boxed hvalue.hasShape, (fits_boxed inner value).trans hvalue.fits,
      (wire_boxed inner value).trans hvalue.wire⟩
  | shared inner ih =>
    obtain ⟨value, hvalue⟩ := ih hread
    exact ⟨value, .shared hvalue.hasShape, (fits_shared inner value).trans hvalue.fits,
      (wire_shared inner value).trans hvalue.wire⟩
  | sequence kind element _ =>
    exact absurd hread (((Reader.needsBytes_readRequiredLength _).bind _).bind _ value stop)
  | array length element _ =>
    exact absurd hread (((Reader.needsBytes_readRequiredLength _).bind _).bind _ value stop)
  | mapping kind key value' _ _ =>
    exact absurd hread (((Reader.needsBytes_readRequiredLength _).bind _).bind _ value stop)
  | named name => exact hnamed name value stop hread

/-- **A shape that is read from an empty buffer has a value of no bytes**, however many nestings
there are. -/
theorem Planned.exists_weightless (hplanned : catalogue.Planned) (nestings : Nat) (shape : Shape)
    {value : Value} {stop : Nat}
    (hread : (catalogue.within sharing nestings shape).read [] 0 = .ok value stop) :
    ∃ value, catalogue.Weightless shape value := by
  refine exists_weightless_of_named sharing (fun name => ?_) shape hread
  clear hread
  induction nestings generalizing name with
  | zero => exact fun value stop hread => nomatch hread
  | succ nestings ih =>
    intro value stop hread
    cases hname : catalogue.get? name with
    | none =>
      rw [Catalogue.codec, hname] at hread
      cases hread
    | some definition =>
      rw [codec_succ sharing nestings hname] at hread
      rcases definition.enumeration_or_layout catalogue.initial with ⟨e, rfl⟩ | ⟨fields, hlayout⟩
      · exact absurd hread (((Reader.needsBytes_readInt e.repr.size_pos).bind _).bind _ value stop)
      · obtain ⟨inner, hinner, -, halike⟩ :=
          hplanned.codec_record sharing nestings hname hlayout
        rw [hinner] at hread
        obtain ⟨values, middle, hvalues, -⟩ := Reader.bind_eq_ok hread
        have hrecord := (halike [] 0).symm
        rw [hvalues] at hrecord
        obtain ⟨set, behind, hset, hfields⟩ := Reader.bind_eq_ok hrecord.eq_ok
        have hbehind : behind = 0 := NullBitset.sound_read.isLocal.stop_eq_zero hset
        subst hbehind
        have hbytes : bitsetBytesOf fields = 0 := by
          by_contra hsome
          rw [← fieldsBitsetBytes_layout] at hsome
          exact Nat.lt_irrefl 0 (NullBitset.read_eq_ok hsome hset).1
        obtain ⟨values, hlength, htakes, hweightless⟩ := exists_weightless_fields set hbytes
          (fun shape => (hplanned.readsLocally sharing nestings shape).read)
          (fun shape value stop => exists_weightless_of_named sharing ih shape) hfields
        exact ⟨.record values, weightless_record ((layout?_of_get? hname).trans hlayout) hbytes hlength
          htakes hweightless⟩

end Catalogue

/-! ## 3. Taking bytes -/

/-- The read takes a byte of the buffer, or fails no earlier than it started. -/
def Reading.Takes (buffer : Buffer) (start : Nat) : Reading α → Prop
  | .ok _ stop => start < stop ∧ stop ≤ buffer.length
  | .error _ stop => start ≤ stop

theorem Reading.Takes.of_alike {buffer : Buffer} {start : Nat} {first second : Reading α}
    (h : Reading.Takes buffer start first) (halike : Reading.Alike first second) :
    Reading.Takes buffer start second := by
  cases first <;> cases second <;> simp only [Reading.Alike] at halike
  · exact halike.2 ▸ h
  · exact halike.2 ▸ h

/-- Whatever is read, a byte is taken. -/
def Reader.Advances (reader : Reader α) : Prop :=
  ∀ buffer cursor, Reading.Takes buffer cursor (reader buffer cursor)

/-- What is read locally and forward takes a byte wherever it reads, if it needs one anywhere. -/
theorem Reader.NeedsBytes.advances {reader : Reader α} (h : reader.NeedsBytes)
    (hlocal : reader.Local) (hforward : reader.Forward) : reader.Advances := by
  intro buffer cursor
  have hfrom := hforward buffer cursor
  cases hread : reader buffer cursor with
  | error failure stop =>
    rw [hread] at hfrom
    exact hfrom
  | ok value stop =>
    obtain ⟨bytes, rfl, hholds, hyields⟩ := hlocal buffer cursor value stop hread
    have hne : bytes ≠ [] := by
      rintro rfl
      exact h value 0 ((hyields [] 0).whole (holdsAt_nil _ _))
    exact ⟨Nat.lt_add_of_pos_right (List.length_pos_iff.mpr hne), hholds.end_le hne⟩

namespace Catalogue

variable [DecimalForm] (catalogue : Catalogue)

/-- No value of the shape is encoded as no bytes. -/
def NeverEmpty (shape : Shape) : Prop :=
  ∀ value, catalogue.HasShape shape value → catalogue.fits shape value = true →
    catalogue.wire shape value ≠ []

/-- No key and value together are encoded as no bytes. -/
def NeverEmptyEntry (key value : Shape) : Prop :=
  ∀ k v, catalogue.HasShape key k → catalogue.fits key k = true →
    catalogue.HasShape value v → catalogue.fits value v = true →
      catalogue.wire key k ++ catalogue.wire value v ≠ []

variable {catalogue} (sharing : Sharing Value)

/-- **What is never encoded as no bytes is never read from none.** -/
theorem Planned.advances (hplanned : catalogue.Planned) (nestings : Nat) {shape : Shape}
    (h : catalogue.NeverEmpty shape) : (catalogue.within sharing nestings shape).read.Advances := by
  have hneeds : (catalogue.within sharing nestings shape).read.NeedsBytes := by
    intro value stop hread
    obtain ⟨value, hvalue⟩ := hplanned.exists_weightless sharing nestings shape hread
    exact h value hvalue.hasShape hvalue.fits hvalue.wire
  exact hneeds.advances (hplanned.readsLocally sharing nestings shape).read
    (hplanned.forward sharing nestings shape)

/-- An entry may owe its bytes to its key or to its value. -/
theorem Planned.advances_entry (hplanned : catalogue.Planned) (nestings : Nat) {key value : Shape}
    (h : catalogue.NeverEmptyEntry key value) :
    (Codec.readEntry (catalogue.within sharing nestings key)
      (catalogue.within sharing nestings value)).Advances := by
  have hkey := hplanned.readsLocally sharing nestings key
  have hvalue := hplanned.readsLocally sharing nestings value
  have hneeds : (Codec.readEntry (catalogue.within sharing nestings key)
      (catalogue.within sharing nestings value)).NeedsBytes := by
    intro entry stop hread
    obtain ⟨k, middle, hk, hrest⟩ := Reader.bind_eq_ok hread
    obtain ⟨v, last, hv, -⟩ := Reader.bind_eq_ok hrest
    have hmiddle : middle = 0 := hkey.read.stop_eq_zero hk
    subst hmiddle
    obtain ⟨k, hk⟩ := hplanned.exists_weightless sharing nestings key hk
    obtain ⟨v, hv⟩ := hplanned.exists_weightless sharing nestings value hv
    refine h k v hk.hasShape hk.fits hv.hasShape hv.fits ?_
    rw [hk.wire, hv.wire, List.append_nil]
  exact hneeds.advances (Reader.inherited_local.entry hkey.read hvalue.read)
    (Reader.inherited_forward.entry (hplanned.forward sharing nestings key)
      (hplanned.forward sharing nestings value))

end Catalogue

end Wireform
