import Wireform.Proofs.Locality

/-!
# Codecs that cannot be told apart

Two codecs are *alike* on some values if nobody who uses them on these values can tell which of the
two is at work: they announce one size and write with one writer, they read alike on every buffer
and at every cursor, and a read over one of the values leaves the same target at the same place,
whether it succeeds or fails.  Failures are compared up to the type that an unexpected null names.

Being alike is a congruence: each way of building a codec makes codecs that are alike of codecs that
are.  There is one lemma for each, and the largest is about records, whose fields are compared in the
layout that they share.  The values that a codec is compared on are those of a predicate, since a
lowered structure and a declared record differ in what they do with a record of the wrong length.
-/
namespace Wireform

variable {α β : Type}

/-! ## 1. Reads -/

/-- Two readers end alike on every buffer and at every cursor. -/
def Reader.Alike (reader reader' : Reader α) : Prop :=
  ∀ buffer cursor, Reading.Alike (reader buffer cursor) (reader' buffer cursor)

namespace Reader.Alike

theorem refl (reader : Reader α) : reader.Alike reader := fun _ _ => .refl _

theorem symm {reader reader' : Reader α} (h : reader.Alike reader') : reader'.Alike reader :=
  fun buffer cursor => (h buffer cursor).symm

theorem trans {first second third : Reader α} (h : first.Alike second) (h' : second.Alike third) :
    first.Alike third :=
  fun buffer cursor => (h buffer cursor).trans (h' buffer cursor)

theorem bind {reader reader' : Reader α} {next next' : α → Reader β} (h : reader.Alike reader')
    (hnext : ∀ value, (next value).Alike (next' value)) :
    (reader >>= next).Alike (reader' >>= next') := by
  intro buffer cursor
  have hfirst := h buffer cursor
  rw [Reader.bind_apply, Reader.bind_apply]
  cases hread : reader buffer cursor with
  | ok value stop =>
    rw [hread] at hfirst
    rw [hfirst.eq_ok]
    exact hnext value buffer stop
  | error failure stop =>
    rw [hread] at hfirst
    cases hread' : reader' buffer cursor with
    | ok value' stop' => rw [hread'] at hfirst; exact hfirst.elim
    | error failure' stop' => rwa [hread'] at hfirst

theorem map {reader reader' : Reader α} (h : reader.Alike reader') (f : α → β) :
    Reader.Alike (do let value ← reader; pure (f value)) (do let value ← reader'; pure (f value)) :=
  h.bind fun value => refl (pure (f value))

theorem times {item item' : Reader α} (h : item.Alike item') (count : Nat) :
    (item.times count).Alike (item'.times count) := by
  induction count with
  | zero => exact refl _
  | succ count ih => exact h.bind fun value => ih.map (value :: ·)

theorem behindMarker {reader reader' : Reader α} (h : reader.Alike reader') :
    reader.behindMarker.Alike reader'.behindMarker := by
  refine (refl get).bind fun offset => (refl readByte).bind fun found => ?_
  split
  · exact refl _
  · split
    · exact h.map some
    · exact refl _

theorem behindCount {body body' : Nat → Reader α} (h : ∀ count, (body count).Alike (body' count)) :
    (Reader.behindCount body).Alike (Reader.behindCount body') := by
  refine (refl readLength).bind fun length => ?_
  cases length with
  | none => exact refl _
  | some count => exact (h count).map some

end Reader.Alike

/-! ## 2. Reads over a target -/

/-- Two reads over a target leave the same target at the same place, and both succeed, or fail
alike. -/
inductive Overwritten.Alike : Overwritten α → Overwritten α → Prop where
  | ok (target : α) (cursor : Nat) : Alike ⟨target, cursor, .ok ()⟩ ⟨target, cursor, .ok ()⟩
  | error (target : α) (cursor : Nat) {failure failure' : Failure} (h : failure.Alike failure') :
    Alike ⟨target, cursor, .error failure⟩ ⟨target, cursor, .error failure'⟩

namespace Overwritten.Alike

theorem refl (result : Overwritten α) : result.Alike result := by
  obtain ⟨target, cursor, outcome⟩ := result
  cases outcome with
  | ok _ => exact .ok target cursor
  | error failure => exact .error target cursor (.refl failure)

theorem map {first second : Overwritten α} (h : first.Alike second) (f : α → β) :
    (first.map f).Alike (second.map f) := by
  cases h with
  | ok target cursor => exact .ok _ cursor
  | error target cursor h => exact .error _ cursor h

/-- Reads over a target that are alike end alike. -/
theorem toResult {first second : Overwritten α} (h : first.Alike second) :
    Reading.Alike first.toResult second.toResult := by
  cases h with
  | ok target cursor => exact ⟨rfl, rfl⟩
  | error target cursor h => exact ⟨h, rfl⟩

theorem after {first first' : Reader β} {target : α} {buffer : Buffer} {cursor : Nat}
    {next next' : β → Nat → Overwritten α}
    (h : Reading.Alike (first buffer cursor) (first' buffer cursor))
    (hnext : ∀ value stop, (next value stop).Alike (next' value stop)) :
    (Overwritten.after first target buffer cursor next).Alike
      (Overwritten.after first' target buffer cursor next') := by
  unfold Overwritten.after
  cases hread : first buffer cursor with
  | ok value stop =>
    rw [hread] at h
    rw [h.eq_ok]
    exact hnext value stop
  | error failure stop =>
    rw [hread] at h
    cases hread' : first' buffer cursor with
    | ok value' stop' => rw [hread'] at h; exact h.elim
    | error failure' stop' =>
      rw [hread'] at h
      obtain ⟨halike, rfl⟩ := h
      exact .error target stop halike

theorem freshly {reader reader' : Reader α} (h : reader.Alike reader') (target : α)
    (buffer : Buffer) (cursor : Nat) :
    (freshly reader target buffer cursor).Alike (freshly reader' target buffer cursor) :=
  after (h buffer cursor) fun value stop => .ok value stop

theorem andThen {first second : Overwritten α} {next next' : α → Nat → Overwritten α}
    (h : first.Alike second) (hnext : ∀ target cursor, (next target cursor).Alike (next' target cursor)) :
    (first.andThen next).Alike (second.andThen next') := by
  cases h with
  | ok target cursor => exact hnext target cursor
  | error target cursor h => exact .error target cursor h

/-- A head and a rest that are read over one after the other. -/
theorem cons {head head' : Overwritten α} {rest rest' : Nat → Overwritten (List α)} {stale : List α}
    (h : head.Alike head') (hrest : ∀ cursor, (rest cursor).Alike (rest' cursor)) :
    Overwritten.Alike
      (match head.outcome with
        | .ok _ => (rest head.cursor).map (head.target :: ·)
        | .error failure => ⟨head.target :: stale, head.cursor, .error failure⟩)
      (match head'.outcome with
        | .ok _ => (rest' head'.cursor).map (head'.target :: ·)
        | .error failure => ⟨head'.target :: stale, head'.cursor, .error failure⟩) := by
  cases h with
  | ok target cursor => exact (hrest cursor).map (target :: ·)
  | error target cursor h => exact .error _ cursor h

/-- A sink is filled alike with items that are read alike. -/
theorem fillEach {σ : Type} (put : α → σ → σ) {item item' : Reader α} (h : item.Alike item')
    (buffer : Buffer) (count : Nat) (sink : σ) (cursor : Nat) :
    (fillEach put item buffer count sink cursor).Alike
      (fillEach put item' buffer count sink cursor) := by
  induction count generalizing sink cursor with
  | zero => exact .ok sink cursor
  | succ count ih =>
    rw [Wireform.fillEach, Wireform.fillEach]
    exact after (h buffer cursor) fun value stop => ih (put value sink) stop

theorem appendItems {item item' : Reader α} (h : item.Alike item') (count : Nat) (items : List α)
    (buffer : Buffer) (cursor : Nat) :
    (appendItems item count items buffer cursor).Alike
      (appendItems item' count items buffer cursor) := by
  rw [appendItems_eq_fillEach, appendItems_eq_fillEach]
  exact fillEach _ h buffer count items cursor

end Overwritten.Alike

/-! ## 3. Codecs -/

/-- Two null layouts do the same with null and with the values of a set. -/
structure NullLayout.Alike (good : α → Prop) (layout layout' : NullLayout α) : Prop where
  size : ∀ slot, (∀ value, slot = some value → good value) → layout.size slot = layout'.size slot
  write : ∀ slot, (∀ value, slot = some value → good value) → layout.write slot = layout'.write slot
  read : layout.read.Alike layout'.read

/-- Two codecs do the same with the values of a set, and with every buffer. -/
structure Codec.Alike (good : α → Prop) (codec codec' : Codec α) : Prop where
  fixedSize : codec.fixedSize = codec'.fixedSize
  size : ∀ value, good value → codec.size value = codec'.size value
  write : ∀ value, good value → codec.write value = codec'.write value
  read : codec.read.Alike codec'.read
  overwrite : ∀ target, good target → ∀ buffer cursor,
    (codec.overwrite target buffer cursor).Alike (codec'.overwrite target buffer cursor)
  nullable : codec.nullable.Alike good codec'.nullable

theorem NullLayout.Alike.marker {good : α → Prop} {size size' : α → Nat} {write write' : α → Writer}
    {read read' : Reader α} (hsize : ∀ value, good value → size value = size' value)
    (hwrite : ∀ value, good value → write value = write' value) (hread : read.Alike read') :
    (NullLayout.marker size write read).Alike good (.marker size' write' read') := by
  refine ⟨fun slot hslot => ?_, fun slot hslot => ?_, hread.behindMarker⟩
  · cases slot with
    | none => rfl
    | some value => exact congrArg (1 + ·) (hsize value (hslot value rfl))
  · cases slot with
    | none => rfl
    | some value =>
      exact congrArg (fun writer : Writer => do writeByte 1; writer) (hwrite value (hslot value rfl))

theorem NullLayout.Alike.inBand {good : α → Prop} {size size' : α → Nat} {write write' : α → Writer}
    {body body' : Nat → Reader α} (hsize : ∀ value, good value → size value = size' value)
    (hwrite : ∀ value, good value → write value = write' value)
    (hbody : ∀ count, (body count).Alike (body' count)) :
    (NullLayout.inBand size write body).Alike good (.inBand size' write' body') := by
  refine ⟨fun slot hslot => ?_, fun slot hslot => ?_, .behindCount hbody⟩
  · cases slot with
    | none => rfl
    | some value => exact hsize value (hslot value rfl)
  · cases slot with
    | none => rfl
    | some value => exact hwrite value (hslot value rfl)

/-- Items are written alike if each of them is. -/
theorem writeItems_congr {write write' : α → Writer} {items : List α}
    (h : ∀ item ∈ items, write item = write' item) :
    writeItems write items = writeItems write' items := by
  induction items with
  | nil => rfl
  | cons item rest ih =>
    rw [writeItems, writeItems, h item List.mem_cons_self,
      ih fun other hother => h other (List.mem_cons_of_mem _ hother)]

namespace Codec.Alike

variable {good good' : α → Prop} {codec codec' : Codec α}

theorem refl (good : α → Prop) (codec : Codec α) : codec.Alike good codec :=
  ⟨rfl, fun _ _ => rfl, fun _ _ => rfl, .refl _, fun _ _ _ _ => .refl _,
    ⟨fun _ _ => rfl, fun _ _ => rfl, .refl _⟩⟩

theorem mono (h : codec.Alike good codec') (hgood : ∀ value, good' value → good value) :
    codec.Alike good' codec' :=
  ⟨h.fixedSize, fun value hvalue => h.size value (hgood value hvalue),
    fun value hvalue => h.write value (hgood value hvalue), h.read,
    fun target htarget => h.overwrite target (hgood target htarget),
    fun slot hslot => h.nullable.size slot fun value heq => hgood value (hslot value heq),
    fun slot hslot => h.nullable.write slot fun value heq => hgood value (hslot value heq),
    h.nullable.read⟩

/-- Codecs that mark absence by a byte. -/
theorem of_marker (hfixed : codec.fixedSize = codec'.fixedSize)
    (hsize : ∀ value, good value → codec.size value = codec'.size value)
    (hwrite : ∀ value, good value → codec.write value = codec'.write value)
    (hread : codec.read.Alike codec'.read)
    (hoverwrite : ∀ target, good target → ∀ buffer cursor,
      (codec.overwrite target buffer cursor).Alike (codec'.overwrite target buffer cursor))
    (hnullable : codec.nullable = .marker codec.size codec.write codec.read)
    (hnullable' : codec'.nullable = .marker codec'.size codec'.write codec'.read) :
    codec.Alike good codec' := by
  refine ⟨hfixed, hsize, hwrite, hread, hoverwrite, ?_⟩
  rw [hnullable, hnullable']
  exact .marker hsize hwrite hread

theorem overwriteLifted {case : Case α β} {overwrite overwrite' : Overwriter α}
    {read read' : Reader α} {target : β} {buffer : Buffer} {cursor : Nat}
    (h : ∀ inner, case.get? target = some inner →
      (overwrite inner buffer cursor).Alike (overwrite' inner buffer cursor))
    (hread : read.Alike read') :
    (Overwriter.lift overwrite case read target buffer cursor).Alike
      (Overwriter.lift overwrite' case read' target buffer cursor) := by
  unfold Overwriter.lift
  cases hget : case.get? target with
  | none => exact .freshly (hread.map case.wrap) target buffer cursor
  | some inner => exact (h inner hget).map case.wrap

theorem lift (h : codec.Alike good codec') (case : Case α β) :
    (codec.lift case).Alike (fun value => ∀ inner, case.get? value = some inner → good inner)
      (codec'.lift case) where
  fixedSize := h.fixedSize
  size value hvalue := by
    unfold Codec.lift
    dsimp only
    cases hget : case.get? value with
    | none => rfl
    | some inner => exact h.size inner (hvalue inner hget)
  write value hvalue := by
    unfold Codec.lift
    dsimp only
    cases hget : case.get? value with
    | none => rfl
    | some inner => exact h.write inner (hvalue inner hget)
  read := h.read.map case.wrap
  overwrite target htarget buffer cursor :=
    overwriteLifted (fun inner hget => h.overwrite inner (htarget inner hget) buffer cursor) h.read
  nullable := by
    refine ⟨fun slot hslot => ?_, fun slot hslot => ?_, h.nullable.read.map (Option.map case.wrap)⟩
    · cases slot with
      | none => exact h.nullable.size none fun _ heq => nomatch heq
      | some value =>
        unfold Codec.lift NullLayout.lift
        dsimp only
        cases hget : case.get? value with
        | none => rfl
        | some inner =>
          refine h.nullable.size (some inner) fun other heq => ?_
          rw [← Option.some.inj heq]
          exact hslot value rfl inner hget
    · cases slot with
      | none => exact h.nullable.write none fun _ heq => nomatch heq
      | some value =>
        unfold Codec.lift NullLayout.lift
        dsimp only
        cases hget : case.get? value with
        | none => rfl
        | some inner =>
          refine h.nullable.write (some inner) fun other heq => ?_
          rw [← Option.some.inj heq]
          exact hslot value rfl inner hget

/-- A slot takes what its value takes. -/
theorem option (h : codec.Alike good codec') :
    (Codec.option codec).Alike (fun slot => ∀ value, slot = some value → good value)
      (Codec.option codec') :=
  of_marker rfl h.nullable.size h.nullable.write h.nullable.read
    (fun target _ buffer cursor => .freshly h.nullable.read target buffer cursor) rfl rfl

theorem overwritePresent (h : codec.Alike good codec') {slot : Option α}
    (hslot : ∀ value, slot = some value → good value) (buffer : Buffer) (cursor : Nat) :
    (codec.overwritePresent slot buffer cursor).Alike
      (codec'.overwritePresent slot buffer cursor) := by
  cases slot with
  | none => exact .freshly (h.read.map some) none buffer cursor
  | some value => exact (h.overwrite value (hslot value rfl) buffer cursor).map some

theorem shared (h : codec.Alike good codec') (sharing : Sharing α) :
    (Codec.shared sharing codec).Alike good (Codec.shared sharing codec') := by
  refine ⟨h.fixedSize, h.size, h.write, h.read, fun target htarget buffer cursor => ?_, h.nullable⟩
  refine Overwritten.Alike.map ?_ SharedBox.value
  unfold SharedBox.ofOwners
  cases sharing target cursor with
  | true => exact .after (h.read buffer cursor) fun fresh stop => .ok _ stop
  | false => exact (h.overwrite target htarget buffer cursor).map SharedBox.sole

/-! ## 4. Collections -/

section

variable {element element' : Codec α}

theorem itemsSize (h : element.Alike good element') {items : List α}
    (hitems : ∀ item ∈ items, good item) : element.itemsSize items = element'.itemsSize items := by
  have hsum : items.foldr (fun item total => element.size item + total) 0 =
      items.foldr (fun item total => element'.size item + total) 0 :=
    List.foldr_ext _ _ 0 fun item hitem total =>
      congrArg (· + total) (h.size item (hitems item hitem))
  unfold Codec.itemsSize
  rw [h.fixedSize, hsum]

theorem writeSequence (h : element.Alike good element') {items : List α}
    (hitems : ∀ item ∈ items, good item) :
    element.writeSequence items = element'.writeSequence items := by
  unfold Codec.writeSequence
  rw [writeItems_congr fun item hitem => h.write item (hitems item hitem)]

theorem readItems (h : element.Alike good element') (count : Nat) :
    (Wireform.readItems element.read count).Alike (Wireform.readItems element'.read count) := by
  rw [readItems_eq_times, readItems_eq_times]
  exact h.read.times count

theorem overwriteItems (h : element.Alike good element') {items : List α}
    (hitems : ∀ item ∈ items, good item) (buffer : Buffer) (cursor : Nat) :
    (Wireform.overwriteItems element.overwrite items buffer cursor).Alike
      (Wireform.overwriteItems element'.overwrite items buffer cursor) := by
  induction items generalizing cursor with
  | nil => exact .refl _
  | cons item rest ih =>
    have hhead := h.overwrite item (hitems item List.mem_cons_self) buffer cursor
    exact .cons hhead fun stop =>
      ih (fun other hother => hitems other (List.mem_cons_of_mem _ hother)) stop

theorem sequence (kind : SequenceKind) (h : element.Alike good element') :
    (Codec.sequence kind element).Alike (fun items => ∀ item ∈ items, good item)
      (Codec.sequence kind element') where
  fixedSize := rfl
  size _ hitems := h.itemsSize hitems
  write _ hitems := h.writeSequence hitems
  read := (Reader.Alike.refl _).bind h.readItems
  overwrite target htarget buffer cursor := by
    refine .after (.refl _) fun count stop => ?_
    cases kind with
    | list =>
      have htake : ∀ item ∈ target.take count, good item :=
        fun item hitem => htarget item (List.mem_of_mem_take hitem)
      refine (h.overwriteItems htake buffer stop).andThen fun items middle => ?_
      unfold appendMissing
      split
      · exact .appendItems h.read _ items buffer middle
      · exact .refl _
    | deque => exact .appendItems h.read count [] buffer stop
    | slice =>
      dsimp only
      split
      · exact .freshly (h.readItems count) target buffer stop
      · exact h.overwriteItems htarget buffer stop
  nullable := .inBand (fun _ hitems => h.itemsSize hitems) (fun _ hitems => h.writeSequence hitems)
    h.readItems

theorem arrayBody (length : Nat) (h : element.Alike good element') (count : Nat) :
    (Codec.arrayBody length element count).Alike (Codec.arrayBody length element' count) := by
  unfold Codec.arrayBody
  split
  · exact .refl _
  · exact h.readItems count

theorem array (length : Nat) (h : element.Alike good element') :
    (Codec.array length element).Alike (fun items => ∀ item ∈ items, good item)
      (Codec.array length element') where
  fixedSize := congrArg (Option.map fun size => lengthPrefixSize + length * size) h.fixedSize
  size _ hitems := h.itemsSize hitems
  write _ hitems := h.writeSequence hitems
  read := (Reader.Alike.refl _).bind (h.arrayBody length)
  overwrite target htarget buffer cursor := by
    refine .after (.refl _) fun count stop => ?_
    split
    · exact .refl _
    · exact h.overwriteItems htarget buffer stop
  nullable := .inBand (fun _ hitems => h.itemsSize hitems) (fun _ hitems => h.writeSequence hitems)
    (h.arrayBody length)

end

section

variable {κ ν : Type} {goodKey : κ → Prop} {goodValue : ν → Prop} {key key' : Codec κ}
  {value value' : Codec ν}

theorem entriesSize (hkey : key.Alike goodKey key') (hvalue : value.Alike goodValue value')
    {entries : List (κ × ν)} (hentries : ∀ entry ∈ entries, goodKey entry.1 ∧ goodValue entry.2) :
    Codec.entriesSize key value entries = Codec.entriesSize key' value' entries := by
  have hsum : entries.foldr
        (fun entry total => key.size entry.1 + value.size entry.2 + total) 0 =
      entries.foldr (fun entry total => key'.size entry.1 + value'.size entry.2 + total) 0 := by
    refine List.foldr_ext _ _ 0 fun entry hentry total => ?_
    rw [hkey.size entry.1 (hentries entry hentry).1, hvalue.size entry.2 (hentries entry hentry).2]
  unfold Codec.entriesSize
  rw [hkey.fixedSize, hvalue.fixedSize, hsum]

theorem writeEntries (hkey : key.Alike goodKey key') (hvalue : value.Alike goodValue value')
    {entries : List (κ × ν)} (hentries : ∀ entry ∈ entries, goodKey entry.1 ∧ goodValue entry.2) :
    Codec.writeEntries key value entries = Codec.writeEntries key' value' entries := by
  have hentry : ∀ entry ∈ entries, writeEntry key value entry = writeEntry key' value' entry := by
    intro entry hmem
    unfold writeEntry
    rw [hkey.write entry.1 (hentries entry hmem).1, hvalue.write entry.2 (hentries entry hmem).2]
  unfold Codec.writeEntries
  rw [writeItems_congr hentry]

theorem readEntry (hkey : key.Alike goodKey key') (hvalue : value.Alike goodValue value') :
    (Codec.readEntry key value).Alike (Codec.readEntry key' value') :=
  hkey.read.bind fun k => hvalue.read.map (k, ·)

theorem fillEntries [Ord κ] (kind : MapKind) (hkey : key.Alike goodKey key')
    (hvalue : value.Alike goodValue value') (count : Nat) (buffer : Buffer) (cursor : Nat) :
    (Codec.fillEntries kind key value count buffer cursor).Alike
      (Codec.fillEntries kind key' value' count buffer cursor) := by
  rw [fillEntries_eq_fillEach, fillEntries_eq_fillEach]
  exact .fillEach _ (hkey.readEntry hvalue) buffer count [] cursor

theorem mapping [Ord κ] (kind : MapKind) (hkey : key.Alike goodKey key')
    (hvalue : value.Alike goodValue value') :
    (Codec.mapping kind key value).Alike
      (fun entries => ∀ entry ∈ entries, goodKey entry.1 ∧ goodValue entry.2)
      (Codec.mapping kind key' value') := by
  have hbody : ∀ count,
      (entriesBody kind key value count).Alike (entriesBody kind key' value' count) :=
    fun count buffer cursor => (hkey.fillEntries kind hvalue count buffer cursor).toResult
  exact {
    fixedSize := rfl
    size := fun _ hentries => hkey.entriesSize hvalue hentries
    write := fun _ hentries => hkey.writeEntries hvalue hentries
    read := (Reader.Alike.refl _).bind hbody
    overwrite := fun target _ buffer cursor =>
      .after (.refl _) fun count stop => hkey.fillEntries kind hvalue count buffer stop
    nullable := .inBand (fun _ hentries => hkey.entriesSize hvalue hentries)
      (fun _ hentries => hkey.writeEntries hvalue hentries) hbody }

end

/-! ## 5. Records -/

section

variable {goodAt : Shape → Value → Prop} {codecOf codecOf' : Shape → Codec Value} {bytes : Nat}
  (set : NullBitset bytes) {field : FieldLayout} {fields : List FieldLayout}

theorem fieldSize (h : (codecOf field.shape).Alike (goodAt field.shape) (codecOf' field.shape))
    {value : Value} (hvalue : field.IsGood goodAt value) :
    (field.codec codecOf).size value = (field.codec codecOf').size value := by
  obtain ⟨presence, shape, initial⟩ := field
  cases presence with
  | always => exact h.size value (hvalue value rfl)
  | skipped => rfl
  | nullable slot =>
    cases value with
    | present inner => exact h.size inner (hvalue inner rfl)
    | _ => rfl

theorem writeField (h : (codecOf field.shape).Alike (goodAt field.shape) (codecOf' field.shape))
    {value : Value} (hvalue : field.IsGood goodAt value) :
    (field.codec codecOf).write value = (field.codec codecOf').write value := by
  obtain ⟨presence, shape, initial⟩ := field
  cases presence with
  | always => exact h.write value (hvalue value rfl)
  | skipped => rfl
  | nullable slot =>
    cases value with
    | present inner => exact h.write inner (hvalue inner rfl)
    | _ => rfl

theorem readField (h : (codecOf field.shape).Alike (goodAt field.shape) (codecOf' field.shape)) :
    ((field.codec codecOf).read set).Alike ((field.codec codecOf').read set) := by
  obtain ⟨presence, shape, initial⟩ := field
  cases presence with
  | always => exact h.read
  | skipped => exact .refl _
  | nullable slot =>
    refine (Reader.Alike.refl (set.test slot)).bind fun isNull => ?_
    cases isNull with
    | true => exact .refl _
    | false => exact h.read.map Value.present

theorem overwriteField
    (h : (codecOf field.shape).Alike (goodAt field.shape) (codecOf' field.shape)) {value : Value}
    (hvalue : field.IsGood goodAt value) (buffer : Buffer) (cursor : Nat) :
    ((field.codec codecOf).overwrite set value buffer cursor).Alike
      ((field.codec codecOf').overwrite set value buffer cursor) := by
  obtain ⟨presence, shape, initial⟩ := field
  cases presence with
  | always => exact h.overwrite value (hvalue value rfl) buffer cursor
  | skipped => exact .refl _
  | nullable slot =>
    refine .after (.refl _) fun isNull stop => ?_
    cases isNull with
    | true => exact .refl _
    | false =>
      refine overwriteLifted (fun inner hget => ?_) (h.read.map some)
      refine h.overwritePresent (fun content heq => hvalue content ?_) buffer stop
      cases heq
      cases Value.optionCase.wrap_of_get? hget
      rfl

variable (h : ∀ field ∈ fields, (codecOf field.shape).Alike (goodAt field.shape)
  (codecOf' field.shape))

include h

theorem fieldsSize {values : List Value}
    (hvalues : ∀ pair ∈ fields.zip values, pair.1.IsGood goodAt pair.2) :
    Wireform.fieldsSize (fields.map (FieldLayout.codec codecOf)) values =
      Wireform.fieldsSize (fields.map (FieldLayout.codec codecOf')) values := by
  induction fields generalizing values with
  | nil => rfl
  | cons field fields ih =>
    cases values with
    | nil => rfl
    | cons value values =>
      rw [List.zip_cons_cons, List.forall_mem_cons] at hvalues
      rw [List.forall_mem_cons] at h
      exact congrArg₂ (· + ·) (fieldSize h.1 hvalues.1) (ih h.2 hvalues.2)

theorem writeFields {values : List Value}
    (hvalues : ∀ pair ∈ fields.zip values, pair.1.IsGood goodAt pair.2) :
    Wireform.writeFields (fields.map (FieldLayout.codec codecOf)) values =
      Wireform.writeFields (fields.map (FieldLayout.codec codecOf')) values := by
  induction fields generalizing values with
  | nil => cases values <;> rfl
  | cons field fields ih =>
    cases values with
    | nil => rfl
    | cons value values =>
      rw [List.zip_cons_cons, List.forall_mem_cons] at hvalues
      rw [List.forall_mem_cons] at h
      rw [List.map_cons, List.map_cons, Wireform.writeFields, Wireform.writeFields,
        writeField h.1 hvalues.1, ih h.2 hvalues.2]

theorem readFields : (Wireform.readFields set (fields.map (FieldLayout.codec codecOf))).Alike
    (Wireform.readFields set (fields.map (FieldLayout.codec codecOf'))) := by
  induction fields with
  | nil => exact .refl _
  | cons field fields ih =>
    rw [List.forall_mem_cons] at h
    exact (readField set h.1).bind fun value => (ih h.2).map (value :: ·)

theorem overwriteFields {values : List Value}
    (hvalues : ∀ pair ∈ fields.zip values, pair.1.IsGood goodAt pair.2) (buffer : Buffer) (cursor : Nat) :
    (Wireform.overwriteFields set (fields.map (FieldLayout.codec codecOf)) values buffer
        cursor).Alike
      (Wireform.overwriteFields set (fields.map (FieldLayout.codec codecOf')) values buffer
        cursor) := by
  induction fields generalizing values cursor with
  | nil => cases values <;> exact .refl _
  | cons field fields ih =>
    cases values with
    | nil => exact .refl _
    | cons value values =>
      rw [List.zip_cons_cons, List.forall_mem_cons] at hvalues
      rw [List.forall_mem_cons] at h
      exact .cons (overwriteField set h.1 hvalues.1 buffer cursor) fun stop =>
        ih h.2 hvalues.2 stop

/-- **Records are alike if their fields are.** -/
theorem record : (Codec.record (fields.map (FieldLayout.codec codecOf))).Alike
    (fun values => ∀ pair ∈ fields.zip values, pair.1.IsGood goodAt pair.2)
    (Codec.record (fields.map (FieldLayout.codec codecOf'))) := by
  have hbytes : fieldsBitsetBytes (fields.map (FieldLayout.codec codecOf)) =
      fieldsBitsetBytes (fields.map (FieldLayout.codec codecOf')) := by
    rw [fieldsBitsetBytes_layout, fieldsBitsetBytes_layout]
  have hfixed : fieldsFixedSize (fields.map (FieldLayout.codec codecOf)) =
      fieldsFixedSize (fields.map (FieldLayout.codec codecOf')) := by
    have hsizes : wiredSizes (fun shape => (codecOf shape).fixedSize) fields =
        wiredSizes (fun shape => (codecOf' shape).fixedSize) fields :=
      List.map_congr_left fun field hfield => (h field (List.mem_of_mem_filter hfield)).fixedSize
    rw [fieldsFixedSize_layout, fieldsFixedSize_layout, hsizes]
  refine of_marker hfixed (fun values hvalues => ?_) (fun values hvalues => ?_) ?_
    (fun target htarget buffer cursor => ?_) rfl rfl
  · unfold Codec.record
    dsimp only
    rw [hfixed, hbytes, fieldsSize h hvalues]
  · unfold Codec.record
    dsimp only
    rw [hbytes, fieldsMarks_layout, fieldsMarks_layout, writeFields h hvalues]
  · rw [Codec.read_record, Codec.read_record]
    exact (Reader.Alike.refl _).bind fun set => readFields set h
  · unfold Codec.record
    dsimp only
    rw [hbytes]
    exact .after (.refl _) fun set stop => overwriteFields set h htarget buffer stop

end

/-- Record codecs are alike if the records of their fields are. -/
theorem of_records {good : List Value → Prop} {codec codec' : Codec (List Value)}
    {fields fields' : List FieldCodec} (hcodec : RecordCodec codec fields)
    (hcodec' : RecordCodec codec' fields') (hread : codec.read.Alike (Codec.record fields).read)
    (hread' : codec'.read.Alike (Codec.record fields').read)
    (h : (Codec.record fields).Alike good (Codec.record fields')) :
    codec.Alike (fun values => good values ∧ fields.length = values.length ∧
      fields'.length = values.length) codec' := by
  refine of_marker ?_ (fun values hvalues => ?_) (fun values hvalues => ?_)
    ((hread.trans h.read).trans hread'.symm) (fun target htarget buffer cursor => ?_)
    hcodec.nullable hcodec'.nullable
  · rw [hcodec.fixedSize, hcodec'.fixedSize]
    exact h.fixedSize
  · rw [hcodec.size, hcodec'.size]
    exact h.size values hvalues.1
  · rw [hcodec.write values hvalues.2.1, hcodec'.write values hvalues.2.2]
    exact h.write values hvalues.1
  · rw [hcodec.overwrite, hcodec'.overwrite]
    exact h.overwrite target htarget.1 buffer cursor

theorem deferred {good : α → Prop} {codec codec' : Codec α} {fixedSize fixedSize' : Option Nat}
    (hfixed : fixedSize = fixedSize') (h : codec.Alike good codec') :
    (Codec.deferred fixedSize fun _ => codec).Alike good (Codec.deferred fixedSize' fun _ => codec') :=
  ⟨hfixed, h.size, h.write, h.read, h.overwrite,
    ⟨h.nullable.size, h.nullable.write, h.nullable.read⟩⟩

end Codec.Alike

end Wireform
