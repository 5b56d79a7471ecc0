import Wireform.Proofs.Locality
import Wireform.Proofs.Writers

/-!
# Codecs know nothing of dispatch

A codec of a catalogue never fails with an error of dispatch: what comes behind a tag is read and
written without a look at any registry.  So a dispatch error that a registry reports is one of its
own, and says something about the tag.

Both are properties that readers and writers in sequence inherit (`Reader.Inherited`,
`Writer.Inherited`).  For writers there is nothing else to it; readers fail in ways of their own at
prefixes and leaves, which are gone through one by one.
-/
namespace Wireform

variable {α β : Type}

/-- What is alike to an error of dispatch is one. -/
theorem Failure.Alike.isDispatch_iff {first second : Failure} (h : first.Alike second) :
    first.IsDispatch ↔ second.IsDispatch := by
  rcases h with rfl | ⟨a, b, rfl, rfl⟩
  · exact Iff.rfl
  · exact Iff.rfl

/-- What a writer fails with by itself is no error of dispatch. -/
theorem Failure.IsOfWriter.not_isDispatch {failure : Failure} (h : failure.IsOfWriter) :
    ¬failure.IsDispatch := by
  cases failure with
  | wire error => cases error <;> first | exact id | exact h.elim
  | _ => exact id

/-! ## 1. Readers -/

/-- No read fails with an error of dispatch. -/
def Reader.Undispatched (reader : Reader α) : Prop :=
  ∀ buffer cursor failure stop, reader buffer cursor = .error failure stop → ¬failure.IsDispatch

namespace Reader.Undispatched

theorem pure (value : α) : (Pure.pure value : Reader α).Undispatched := by
  intro buffer cursor failure stop h
  cases h

theorem throw {failure : Failure} (h : ¬failure.IsDispatch) :
    (MonadExcept.throw failure : Reader α).Undispatched := by
  intro buffer cursor other stop hread
  cases hread
  exact h

theorem bind {reader : Reader α} {next : α → Reader β} (h : reader.Undispatched)
    (hnext : ∀ value, (next value).Undispatched) : (reader >>= next).Undispatched := by
  intro buffer cursor failure stop hread
  rw [bind_apply] at hread
  cases hreader : reader buffer cursor with
  | ok value middle =>
    rw [hreader] at hread
    exact hnext value buffer middle failure stop hread
  | error other middle =>
    rw [hreader] at hread
    cases hread
    exact h buffer cursor failure stop hreader

theorem of_get {next : Nat → Reader α} (h : ∀ cursor, (next cursor).Undispatched) :
    (get >>= next).Undispatched :=
  fun buffer cursor failure stop hread => h cursor buffer cursor failure stop hread

/-- A reader that is alike to one that never fails so never does either. -/
theorem of_alike {reader reader' : Reader α} (h : reader.Undispatched)
    (halike : ∀ buffer cursor, Reading.Alike (reader buffer cursor) (reader' buffer cursor)) :
    reader'.Undispatched := by
  intro buffer cursor failure stop hread
  have hends := halike buffer cursor
  rw [hread] at hends
  cases hreader : reader buffer cursor with
  | ok value middle =>
    rw [hreader] at hends
    exact hends.elim
  | error other middle =>
    rw [hreader] at hends
    exact fun hdispatch => h _ _ _ _ hreader (hends.1.isDispatch_iff.mpr hdispatch)

theorem readBytes (length : Nat) : (readBytes length).Undispatched := by
  intro buffer cursor failure stop hread
  rw [readBytes_apply] at hread
  split at hread
  · cases hread
    exact id
  · split at hread <;> cases hread
    exact id

theorem readInt (format : IntFormat) : (readInt format).Undispatched :=
  (readBytes format.width).bind fun _ => pure _

theorem readByte : readByte.Undispatched := (readInt .u8).bind fun _ => pure _

theorem readLength : readLength.Undispatched := by
  refine of_get fun offset => (readInt .i32).bind fun length => ?_
  split
  · exact pure _
  · split
    · exact pure _
    · exact throw id

theorem readText (length : Nat) : (readText length).Undispatched := by
  refine of_get fun offset => (readBytes length).bind fun bytes => ?_
  cases Utf8.decode bytes with
  | ok text => exact pure _
  | error fault => exact throw id

theorem readBitset {size : Nat} : (NullBitset.read : Reader (NullBitset size)).Undispatched := by
  unfold NullBitset.read
  split
  · exact pure _
  · exact (readBytes size).bind fun _ => pure _

theorem behindMarker {read : Reader α} (h : read.Undispatched) : read.behindMarker.Undispatched := by
  refine of_get fun offset => readByte.bind fun found => ?_
  split
  · exact pure none
  · split
    · exact h.bind fun _ => pure _
    · exact throw id

theorem map {reader : Reader α} (h : reader.Undispatched) (f : α → β) :
    (do let value ← reader; Pure.pure (f value) : Reader β).Undispatched :=
  h.bind fun _ => pure _

/-- A codec that marks absence by a byte is read so as a value of a case, too. -/
theorem lift (codec : Codec α) (hnullable : codec.nullable.read = codec.read.behindMarker)
    (h : codec.read.Undispatched) (case : Case α Value) :
    (codec.lift case).read.Undispatched ∧ (codec.lift case).nullable.read.Undispatched := by
  have hnull : codec.nullable.read.Undispatched := hnullable ▸ h.behindMarker
  exact ⟨h.map _, hnull.map _⟩

theorem text (typeName : String) : (Codec.text typeName).read.Undispatched ∧
    (Codec.text typeName).nullable.read.Undispatched := by
  constructor
  · refine (readLength.bind fun length => ?_ : (readRequiredLength typeName).Undispatched).bind
      readText
    cases length with
    | none => exact throw id
    | some length => exact pure length
  · refine readLength.bind fun length => ?_
    cases length with
    | none => exact pure none
    | some length => exact (readText length).map _

theorem leaf [DecimalForm] (l : Leaf) :
    l.codec.read.Undispatched ∧ l.codec.nullable.read.Undispatched := by
  rw [l.codec_kind]
  cases l.kind with
  | int format => exact lift (Codec.int format) rfl (readInt format) Value.intCase
  | bits width => exact lift (Codec.bits width) rfl ((readInt _).map _) Value.bitsCase
  | bool =>
    refine lift Codec.bool rfl (of_get fun offset => readByte.bind fun found => ?_) Value.boolCase
    split
    · exact pure _
    · split
      · exact pure _
      · exact throw id
  | char =>
    refine lift Codec.char rfl ((readInt _).bind fun scalar => ?_) Value.charCase
    split
    · exact pure _
    · exact throw id
  | text typeName =>
    obtain ⟨hread, hnull⟩ := text typeName
    exact ⟨hread.map _, hnull.map _⟩
  | duration => exact lift Codec.duration rfl ((readInt _).map _) Value.natCase
  | instant => exact lift Codec.instant rfl (readInt _) Value.intCase
  | decimal => exact lift Codec.decimal rfl ((readBytes _).map _) Value.decimalCase

theorem enumeration (e : Enumeration) : e.codec.read.Undispatched := by
  refine (readInt _).bind fun n => ?_
  cases e.variantOf? n with
  | some v => exact pure _
  | none => exact throw id

theorem inherited [DecimalForm] : Reader.Inherited Reader.Undispatched where
  pure := pure
  throw := throw
  length := readLength
  bitset := readBitset
  leaf := leaf
  enumeration := enumeration
  bind := bind
  behindMarker := behindMarker
  of_alike := of_alike

end Reader.Undispatched

/-! ## 2. Writers -/

/-- No write fails with an error of dispatch. -/
def Writer.Undispatched (writer : Writer) : Prop :=
  ∀ out failure out', writer out = .error failure out' → ¬failure.IsDispatch

namespace Writer.Undispatched

theorem bind {writer : Writer} {next : Unit → Writer} (h : writer.Undispatched)
    (hnext : (next ()).Undispatched) : Writer.Undispatched (writer >>= next) := by
  intro out failure out' hwrite
  rw [bind_apply] at hwrite
  cases hwriter : writer out with
  | ok done middle =>
    rw [hwriter] at hwrite
    exact hnext middle failure out' hwrite
  | error other middle =>
    rw [hwriter] at hwrite
    cases hwrite
    exact h out failure out' hwriter

theorem writeBytes (source : List UInt8) : (writeBytes source).Undispatched := by
  intro out failure out' hwrite
  rw [writeBytes_apply] at hwrite
  split at hwrite
  · cases hwrite
    exact id
  · split at hwrite <;> cases hwrite
    exact id

theorem inherited : Writer.Inherited Writer.Undispatched where
  pure := by
    intro out failure out' h
    cases h
  throw := by
    intro failure h out other out' hwrite
    cases hwrite
    exact h.not_isDispatch
  bytes := writeBytes
  bind := bind

end Writer.Undispatched

/-! ## 3. Catalogues -/

/-- A codec never fails with an error of dispatch. -/
structure Codec.Undispatched (codec : Codec α) : Prop where
  read : codec.read.Undispatched
  write : ∀ value, (codec.write value).Undispatched
  readNull : codec.nullable.read.Undispatched
  writeNull : ∀ value, (codec.nullable.write value).Undispatched

/-- **No codec of the catalogue fails with an error of dispatch.** -/
theorem Catalogue.Planned.undispatched [DecimalForm] {catalogue : Catalogue} (sharing : Sharing Value)
    (hplanned : catalogue.Planned) (shape : Shape) :
    (catalogue.codecOf sharing shape).Undispatched := by
  have hreads : ∀ nestings,
      (catalogue.within sharing nestings shape).ReadsWith Reader.Undispatched :=
    fun nestings => hplanned.readsWith Reader.Undispatched.inherited sharing nestings shape
  have hwrites := catalogue.writesWith Writer.Undispatched.inherited sharing shape
  exact ⟨fun buffer => (hreads (catalogue.nestingsOf buffer)).read buffer, hwrites.write,
    fun buffer => (hreads (catalogue.nestingsOf buffer)).nullable buffer, hwrites.nullable⟩

end Wireform
