import Wireform.Proofs.Locality

/-!
# Enough nestings

A codec is tied by counting nestings, but the count is bookkeeping: it decides nothing as long as
there is enough of it.  Enough depends on what is left of the buffer and on the shape.  From one
byte to the next a read may enter one name inside another, each of lower rank than the one before,
so with `each` nestings for every byte that is left, and with one more than its rank for a name
that is read inline, no read ever runs out.

What counts as enough is a matter of which names may be entered where, and the proof is about that
alone.  `Codec.Steady` says of two codecs that they agree, and keep to the buffer, at all positions
of some kind.  Every constructor of shapes is read either behind bytes of its own, which make room
for all names (`FreeBehind`), or inline, where the name that it is must be one that may be entered
(`Shape.StartsIn`).  For records it is the bitset that tells which: without one, the fields stand
where the record stands; with one, they stand behind a byte.  So a record is steady where its inline
names may be entered and all names behind (`Planned.steadyAt_definition`), and for nestings the rank
pays for the former and the byte for the latter.

So a read at `Catalogue.nestingsOf` is the read of unlimited nesting: it ends with a value or with
an error that is reported, inside the buffer, and it is as local as all the others.
-/
namespace Wireform

variable {α β : Type}

/-- All names may be entered behind the position, up to the end of the buffer. -/
def FreeBehind (enters : String → Nat → Prop) (buffer : Buffer) (cursor : Nat) : Prop :=
  ∀ name position, cursor < position → position ≤ buffer.length → enters name position

/-- A shape may be read where the name that it is may be entered; if it is none, something stands in
front of every name in it. -/
def Shape.StartsIn (enters : String → Nat → Prop) (buffer : Buffer) (shape : Shape) (cursor : Nat) :
    Prop :=
  match shape.inline? with
  | some name => enters name cursor
  | none => FreeBehind enters buffer cursor

/-- A byte leads from positions of one kind to positions of another. -/
def Opens (buffer : Buffer) (behind here : Nat → Prop) : Prop :=
  ∀ cursor position, behind cursor → cursor < position → position ≤ buffer.length → here position

theorem opens_freeBehind (enters : String → Nat → Prop) (buffer : Buffer) :
    Opens buffer (FreeBehind enters buffer) (FreeBehind enters buffer) :=
  fun _ _ hfree hlt _ name later hlater hend => hfree name later (hlt.trans hlater) hend

theorem opens_startsIn (enters : String → Nat → Prop) (buffer : Buffer) (shape : Shape) :
    Opens buffer (FreeBehind enters buffer) (shape.StartsIn enters buffer) := by
  intro cursor position hfree hlt hend
  unfold Shape.StartsIn
  split
  · exact hfree _ position hlt hend
  · exact opens_freeBehind enters buffer cursor position hfree hlt hend

/-- Two codecs agree, and keep to the buffer, at every position at which values may be read, and at
those at which an optional value may. -/
structure Codec.Steady (codec codec' : Codec α) (buffer : Buffer) (here behind : Nat → Prop) :
    Prop where
  read : ∀ cursor, here cursor → codec.read.SteadyAt codec'.read buffer cursor
  nullable : ∀ cursor, behind cursor →
    codec.nullable.read.SteadyAt codec'.nullable.read buffer cursor

namespace Codec.Steady

variable {buffer : Buffer} {here behind : Nat → Prop}

/-! ## 1. Building codecs -/

theorem of_sound {codec : Codec α} (h : codec.ReadsSoundly) :
    codec.Steady codec buffer here behind :=
  ⟨fun cursor _ => h.read.steady buffer cursor, fun cursor _ => h.nullable.steady buffer cursor⟩

/-- Codecs that mark absence by a byte. -/
theorem of_marker {codec codec' : Codec α}
    (hnullable : codec.nullable.read = codec.read.behindMarker)
    (hnullable' : codec'.nullable.read = codec'.read.behindMarker) (hopens : Opens buffer behind here)
    (h : ∀ cursor, here cursor → codec.read.SteadyAt codec'.read buffer cursor) :
    codec.Steady codec' buffer here behind := by
  refine ⟨h, fun cursor hbehind => ?_⟩
  rw [hnullable, hnullable']
  exact .behindMarker fun hinside =>
    h _ (hopens cursor (cursor + 1) hbehind (Nat.lt_succ_self cursor) hinside)

/-- Codecs that read something behind a prefix. -/
theorem of_length {codec codec' : Codec α} {name : String} {body body' : Nat → Reader α}
    (hread : codec.read = (readRequiredLength name >>= body))
    (hread' : codec'.read = (readRequiredLength name >>= body'))
    (hnullable : codec.nullable.read = .behindCount body)
    (hnullable' : codec'.nullable.read = .behindCount body')
    (h : ∀ cursor stop length, behind cursor → cursor < stop → stop ≤ buffer.length →
      (body length).SteadyAt (body' length) buffer stop) :
    codec.Steady codec' buffer behind behind := by
  constructor
  · intro cursor hbehind
    rw [hread, hread']
    exact .behindLength name fun length stop hlt hend => h cursor stop length hbehind hlt hend
  · intro cursor hbehind
    rw [hnullable, hnullable']
    exact .behindCount fun length stop hlt hend => h cursor stop length hbehind hlt hend

theorem lift {codec codec' : Codec α} (h : codec.Steady codec' buffer here behind)
    (case : Case α β) : (codec.lift case).Steady (codec'.lift case) buffer here behind :=
  ⟨fun cursor hhere => (h.read cursor hhere).bind fun _ _ _ _ _ => Reader.steadyAt_pure _ _ _,
    fun cursor hbehind =>
      (h.nullable cursor hbehind).bind fun _ _ _ _ _ => Reader.steadyAt_pure _ _ _⟩

theorem option {inner inner' : Codec α} (h : inner.Steady inner' buffer here behind)
    (hopens : Opens buffer behind behind) :
    (Codec.option inner).Steady (Codec.option inner') buffer behind behind :=
  of_marker rfl rfl hopens h.nullable

/-- Items behind a count stand behind a byte. -/
theorem items {element element' : Codec α} {cursor stop : Nat}
    (h : element.Steady element' buffer here behind) (hopens : Opens buffer behind here)
    (hbehind : behind cursor) (hlt : cursor < stop) (hend : stop ≤ buffer.length) (count : Nat) :
    (element.read.times count).SteadyAt (element'.read.times count) buffer stop :=
  .times (fun position hposition hlast => h.read position
    (hopens cursor position hbehind (by omega) (by omega))) count

theorem sequence (kind : SequenceKind) {element element' : Codec α}
    (h : element.Steady element' buffer here behind) (hopens : Opens buffer behind here) :
    (Codec.sequence kind element).Steady (Codec.sequence kind element') buffer behind behind := by
  refine of_length rfl rfl rfl rfl fun cursor stop count hbehind hlt hend => ?_
  rw [readItems_eq_times, readItems_eq_times]
  exact h.items hopens hbehind hlt hend count

theorem array (length : Nat) {element element' : Codec α}
    (h : element.Steady element' buffer here behind) (hopens : Opens buffer behind here) :
    (Codec.array length element).Steady (Codec.array length element') buffer behind behind := by
  refine of_length rfl rfl rfl rfl fun cursor stop count hbehind hlt hend => ?_
  unfold arrayBody
  split
  · exact Reader.steadyAt_throw _ _ _
  · rw [readItems_eq_times, readItems_eq_times]
    exact h.items hopens hbehind hlt hend count

theorem mapping {κ ν : Type} [Ord κ] (kind : MapKind) {key key' : Codec κ} {value value' : Codec ν}
    {keyHere valueHere : Nat → Prop} (hkey : key.Steady key' buffer keyHere behind)
    (hvalue : value.Steady value' buffer valueHere behind)
    (hkeyOpens : Opens buffer behind keyHere) (hvalueOpens : Opens buffer behind valueHere) :
    (Codec.mapping kind key value).Steady (Codec.mapping kind key' value') buffer behind behind := by
  refine of_length rfl rfl rfl rfl fun cursor stop count hbehind hlt hend => ?_
  have hentry : ∀ position, stop ≤ position → position ≤ max stop buffer.length →
      (readEntry key value).SteadyAt (readEntry key' value') buffer position := by
    intro position hposition hlast
    refine (hkey.read position (hkeyOpens cursor _ hbehind (by omega) (by omega))).bind ?_
    intro k middle _ hmiddle hmax
    refine (hvalue.read middle (hvalueOpens cursor _ hbehind (by omega) (by omega))).bind ?_
    exact fun _ _ _ _ _ => Reader.steadyAt_pure _ _ _
  rw [entriesBody_eq, entriesBody_eq]
  exact (Reader.SteadyAt.times hentry count).bind fun _ _ _ _ _ => Reader.steadyAt_pure _ _ _

/-! ## 2. Records -/

section

variable {codecOf codecOf' : Shape → Codec Value} {bytes : Nat} (set : NullBitset bytes)

theorem field {field : FieldLayout} {cursor : Nat}
    (hslot : ∀ slot, field.presence = .nullable slot → ∃ isNull, set.isNull? slot = some isNull)
    (h : field.presence ≠ .skipped →
      (codecOf field.shape).read.SteadyAt (codecOf' field.shape).read buffer cursor) :
    ((field.codec codecOf).read set).SteadyAt ((field.codec codecOf').read set) buffer cursor := by
  obtain ⟨presence, shape, initial⟩ := field
  cases presence with
  | always => exact h (by simp)
  | skipped => exact Reader.steadyAt_pure _ _ _
  | nullable slot =>
    obtain ⟨isNull, hisNull⟩ := hslot slot rfl
    have htest : set.test slot = pure isNull := by rw [NullBitset.test, hisNull]
    have hread : ∀ codecOf : Shape → Codec Value,
        (FieldLayout.codec codecOf ⟨.nullable slot, shape, initial⟩).read set = (do
          if ← set.test slot then pure .null
          else do
            let inner ← (codecOf shape).read
            pure (.present inner)) := fun _ => rfl
    rw [hread, hread, htest, pure_bind, pure_bind]
    cases isNull with
    | true => exact Reader.steadyAt_pure _ _ _
    | false => exact (h (by simp)).bind fun _ _ _ _ _ => Reader.steadyAt_pure _ _ _

theorem fields {fields : List FieldLayout} {cursor : Nat}
    (hslots : ∀ field ∈ fields, ∀ slot, field.presence = .nullable slot →
      ∃ isNull, set.isNull? slot = some isNull)
    (h : ∀ field ∈ fields, field.presence ≠ .skipped → ∀ position, cursor ≤ position →
      position ≤ max cursor buffer.length →
        (codecOf field.shape).read.SteadyAt (codecOf' field.shape).read buffer position) :
    (readFields set (fields.map (FieldLayout.codec codecOf))).SteadyAt
      (readFields set (fields.map (FieldLayout.codec codecOf'))) buffer cursor := by
  induction fields generalizing cursor with
  | nil => exact Reader.steadyAt_pure _ _ _
  | cons head rest ih =>
    have hhead := field set (hslots head List.mem_cons_self) fun hwired =>
      h head List.mem_cons_self hwired cursor (Nat.le_refl _) (Nat.le_max_left _ _)
    refine hhead.bind fun value middle _ hmiddle hmax => ?_
    have hrest : (readFields set (rest.map (FieldLayout.codec codecOf))).SteadyAt
        (readFields set (rest.map (FieldLayout.codec codecOf'))) buffer middle :=
      ih (fun f hf => hslots f (List.mem_cons_of_mem _ hf))
        fun f hf hwired position hposition hlast =>
          h f (List.mem_cons_of_mem _ hf) hwired position (by omega) (by omega)
    exact hrest.bind fun _ _ _ _ _ => Reader.steadyAt_pure _ _ _

end

/-- **A record is steady if its fields are**, those that are always there where the record stands, if
it has no bitset, and all of them behind a byte. -/
theorem record {codec codec' : Codec (List Value)} {codecOf codecOf' : Shape → Codec Value}
    {fields : List FieldLayout} {cursor : Nat}
    (halike : ∀ buffer cursor, Reading.Alike
      ((Codec.record (fields.map (FieldLayout.codec codecOf))).read buffer cursor)
      (codec.read buffer cursor))
    (halike' : ∀ buffer cursor, Reading.Alike
      ((Codec.record (fields.map (FieldLayout.codec codecOf'))).read buffer cursor)
      (codec'.read buffer cursor))
    (hnumbered : Numbered 0 (fields.map FieldLayout.presence))
    (h : ∀ field ∈ fields, ∀ position, cursor ≤ position → position ≤ max cursor buffer.length →
      (bitsetBytesOf fields = 0 ∧ field.presence = .always) ∨
        (cursor < position ∧ position ≤ buffer.length) →
      (codecOf field.shape).read.SteadyAt (codecOf' field.shape).read buffer position) :
    codec.read.SteadyAt codec'.read buffer cursor := by
  refine Reader.SteadyAt.of_alike ?_ (halike buffer cursor) (halike' buffer cursor)
  rw [read_record, read_record]
  refine (NullBitset.sound_read.steady buffer cursor).bind fun set stop hread hle hmax => ?_
  refine Steady.fields set (fun field hfield slot hslot => ?_)
    fun field hfield hwired position hposition hlast => ?_
  · exact set.isNull?_isSome (hnumbered.slot_range hfield hslot)
  · refine h field hfield position (by omega) (by omega) ?_
    by_cases hbytes : bitsetBytesOf fields = 0
    · cases hpresence : field.presence with
      | skipped => exact absurd hpresence hwired
      | nullable slot =>
        have hrange := hnumbered.slot_range hfield hpresence
        omega
      | always => exact .inl ⟨hbytes, rfl⟩
    · obtain ⟨hlt, hend⟩ := NullBitset.read_eq_ok hbytes hread
      exact .inr ⟨by omega, by omega⟩

end Codec.Steady

/-! ## 3. Shapes and definitions -/

namespace Catalogue

open Samples (chain chain_planned chain_closed chain_grounded linkValue linkValue_hasShape)

section

variable [DecimalForm] {catalogue : Catalogue} (sharing : Sharing Value)

section

variable {buffer : Buffer} {enters : String → Nat → Prop} {named named' : String → Codec Value}

/-- If the names of a shape are steady where they may be entered, the shape is where it starts. -/
theorem steady_of_named {shape : Shape}
    (hsteady : ∀ name ∈ shape.names,
      (named name).Steady (named' name) buffer (enters name) (FreeBehind enters buffer)) :
    (shape.codec sharing named).Steady (shape.codec sharing named') buffer
      (shape.StartsIn enters buffer) (FreeBehind enters buffer) := by
  have hopens := opens_startsIn enters buffer
  induction shape with
  | leaf l =>
    show l.codec.Steady l.codec buffer _ _
    rw [l.codec_kind]
    exact .of_sound (.leaf l.kind_hasWidth)
  | option inner ih =>
    exact ((ih hsteady).option (opens_freeBehind enters buffer)).lift Value.optionCase
  | boxed inner ih => exact ih hsteady
  | shared inner ih =>
    have hinner := ih hsteady
    exact ⟨hinner.read, hinner.nullable⟩
  | sequence kind element ih =>
    exact ((ih hsteady).sequence kind (hopens element)).lift Value.listCase
  | array length element ih =>
    exact ((ih hsteady).array length (hopens element)).lift Value.listCase
  | mapping kind key value ihkey ihvalue =>
    have hkey := ihkey fun name hmem => hsteady name (List.mem_append_left _ hmem)
    have hvalue := ihvalue fun name hmem => hsteady name (List.mem_append_right _ hmem)
    exact (Codec.Steady.mapping kind hkey hvalue (hopens key) (hopens value)).lift Value.entriesCase
  | named name => exact hsteady name (List.mem_singleton_self _)

/-- **What a name stands for is steady** where the names that it holds inline may be entered, and all
names behind. -/
theorem Planned.steadyAt_definition (hplanned : catalogue.Planned) (hclosed : catalogue.Closed)
    (hnamed : ∀ name value, catalogue.IsTarget (.named name) value → (named name).Agrees value)
    (hnamed' : ∀ name value, catalogue.IsTarget (.named name) value → (named' name).Agrees value)
    (hsteady : ∀ name definition, catalogue.get? name = some definition →
      (named name).Steady (named' name) buffer (enters name) (FreeBehind enters buffer))
    {name : String} {definition : Definition} (hname : catalogue.get? name = some definition)
    {cursor : Nat} (hfree : FreeBehind enters buffer cursor)
    (hinline : ∀ other, catalogue.Inline name other → ∀ position, cursor ≤ position →
      position ≤ max cursor buffer.length → enters other position) :
    (definition.codec sharing catalogue.initial named).read.SteadyAt
      (definition.codec sharing catalogue.initial named').read buffer cursor := by
  rcases definition.enumeration_or_layout catalogue.initial with ⟨e, rfl⟩ | ⟨fields, hlayout⟩
  · have hvariant := (Codec.ReadsSoundly.enumeration e).lift Value.variantCase
    exact hvariant.read.steady buffer cursor
  · obtain ⟨inner, hinner, -, halike⟩ := hplanned.record_of_named sharing hnamed hname hlayout
    obtain ⟨inner', hinner', -, halike'⟩ := hplanned.record_of_named sharing hnamed' hname hlayout
    have hfields := (layout?_of_get? hname).trans hlayout
    have hnumbered :=
      Definition.layout_numbered catalogue.initial (hplanned name definition hname) hlayout
    have hrecord : inner.read.SteadyAt inner'.read buffer cursor := by
      refine Codec.Steady.record halike halike' hnumbered
        fun field hfield position hle hmax hplace => ?_
      have hnames : ∀ other ∈ field.shape.names, (named other).Steady (named' other) buffer
          (enters other) (FreeBehind enters buffer) := by
        intro other hother
        obtain ⟨otherDefinition, hotherName⟩ := hclosed name fields hfields field hfield other hother
        exact hsteady other otherDefinition hotherName
      refine (steady_of_named sharing hnames).read position ?_
      rcases hplace with ⟨hbytes, hpresence⟩ | ⟨hlt, hend⟩
      · unfold Shape.StartsIn
        split
        · next other hother =>
          exact hinline other ⟨fields, hfields, hbytes, field, hfield, hpresence, hother⟩
            position hle hmax
        · exact fun later place hlater hend => hfree later place (by omega) hend
      · exact opens_startsIn enters buffer field.shape cursor position hfree hlt hend
    rw [hinner, hinner']
    exact hrecord.bind fun _ _ _ _ _ => Reader.steadyAt_pure _ _ _

end

/-! ## 4. Names -/

/-- The codec of a name marks absence by a byte, whatever the name stands for. -/
theorem Planned.read_nullable_named (hplanned : catalogue.Planned) (nestings : Nat)
    (name : String) : (catalogue.codec sharing nestings name).nullable.read =
      (catalogue.codec sharing nestings name).read.behindMarker := by
  cases nestings with
  | zero => rfl
  | succ nestings =>
    cases hname : catalogue.get? name with
    | none =>
      rw [Catalogue.codec, hname]
      rfl
    | some definition =>
      rw [codec_succ sharing nestings hname]
      rcases definition.enumeration_or_layout catalogue.initial with ⟨e, rfl⟩ | ⟨fields, hlayout⟩
      · exact Reader.behindMarker_lift e.codec.read Value.variantCase
      · obtain ⟨inner, hinner, hrecord, -⟩ :=
          hplanned.codec_record sharing nestings hname hlayout
        have hlift := Reader.behindMarker_lift inner.read Value.recordCase
        rw [hinner]
        show (inner.nullable.lift Value.recordCase).read = _
        rw [hrecord.nullable]
        exact hlift

section

variable {buffer : Buffer} {each first second nestings : Nat} {rank : String → Nat}

/-- The nestings are enough to enter the name: `each` for every byte that is left, and one more than
the rank of the name. -/
def Enough (buffer : Buffer) (each : Nat) (rank : String → Nat) (nestings : Nat) (name : String)
    (cursor : Nat) : Prop :=
  (buffer.length - cursor) * each + (rank name + 1) ≤ nestings

omit [DecimalForm] in
/-- A byte that has been read pays for every rank. -/
theorem freeBehind_enough (hrank : ∀ name, rank name < each) {cursor : Nat}
    (h : (buffer.length - cursor) * each ≤ nestings) :
    FreeBehind (Enough buffer each rank nestings) buffer cursor := by
  intro name position hlt hend
  have hless : (buffer.length - position + 1) * each ≤ (buffer.length - cursor) * each :=
    Nat.mul_le_mul_right each (by omega)
  have hname := hrank name
  rw [Nat.succ_mul] at hless
  unfold Enough
  omega

/-- **A known name is steady** where the nestings are enough. -/
theorem Planned.steady_name (hplanned : catalogue.Planned) (hclosed : catalogue.Closed)
    (hrank : ∀ name, rank name < each)
    (hinline : ∀ name other, catalogue.Inline name other → rank other < rank name)
    {name : String} {definition : Definition} (hname : catalogue.get? name = some definition)
    (hnestings : min first second = nestings) :
    (catalogue.codec sharing first name).Steady (catalogue.codec sharing second name) buffer
      (Enough buffer each rank nestings name)
      (FreeBehind (Enough buffer each rank nestings) buffer) := by
  induction nestings generalizing first second name definition with
  | zero =>
    -- no name can be entered, and none has to be
    refine .of_marker (hplanned.read_nullable_named sharing first name)
      (hplanned.read_nullable_named sharing second name)
      (fun _ position hfree hlt hend => hfree name position hlt hend) fun cursor henough => ?_
    unfold Enough at henough
    omega
  | succ nestings ih =>
    refine .of_marker (hplanned.read_nullable_named sharing first name)
      (hplanned.read_nullable_named sharing second name)
      (fun _ position hfree hlt hend => hfree name position hlt hend) fun cursor henough => ?_
    obtain ⟨first, rfl⟩ : ∃ n, first = n + 1 := ⟨first - 1, by omega⟩
    obtain ⟨second, rfl⟩ : ∃ n, second = n + 1 := ⟨second - 1, by omega⟩
    have hsteady : ∀ other otherDefinition, catalogue.get? other = some otherDefinition →
        (catalogue.codec sharing first other).Steady (catalogue.codec sharing second other) buffer
          (Enough buffer each rank nestings other)
          (FreeBehind (Enough buffer each rank nestings) buffer) :=
      fun other _ hother => ih hother (by omega)
    unfold Enough at henough
    have hfree : FreeBehind (Enough buffer each rank nestings) buffer cursor :=
      freeBehind_enough hrank (by omega)
    have hread := hplanned.steadyAt_definition sharing hclosed (hplanned.agrees_name sharing first)
      (hplanned.agrees_name sharing second) hsteady hname hfree fun other hother position hle _ => by
        have hlower := hinline name other hother
        have hless : (buffer.length - position) * each ≤ (buffer.length - cursor) * each :=
          Nat.mul_le_mul_right each (by omega)
        unfold Enough
        omega
    rw [codec_succ sharing first hname, codec_succ sharing second hname]
    exact hread

end

/-- **Enough nestings are all alike**, and `nestingsOf` are enough. -/
theorem Planned.steady (hplanned : catalogue.Planned) (hclosed : catalogue.Closed)
    (hgrounded : catalogue.Grounded) {shape : Shape} (hknows : catalogue.Knows shape)
    (buffer : Buffer) (cursor : Nat) {nestings : Nat}
    (hnestings : catalogue.nestingsOf buffer ≤ nestings) :
    (catalogue.codecOf sharing shape).read.SteadyAt (catalogue.within sharing nestings shape).read
      buffer cursor := by
  obtain ⟨rank, hbound, hinline⟩ := hgrounded.exists_rank hclosed
  have hrank : ∀ name, rank name < catalogue.entries.length + 1 :=
    fun name => Nat.lt_succ_of_le (hbound name)
  have hnames : ∀ name ∈ shape.names,
      (catalogue.codec sharing (catalogue.nestingsOf buffer) name).Steady
        (catalogue.codec sharing nestings name) buffer
        (Enough buffer (catalogue.entries.length + 1) rank (catalogue.nestingsOf buffer) name)
        (FreeBehind (Enough buffer (catalogue.entries.length + 1) rank
          (catalogue.nestingsOf buffer)) buffer) := by
    intro name hname
    obtain ⟨definition, hdefinition⟩ := hknows name hname
    exact hplanned.steady_name sharing hclosed hrank hinline hdefinition (Nat.min_eq_left hnestings)
  have hless : (buffer.length - cursor + 1) * (catalogue.entries.length + 1) ≤
      (buffer.length + 1) * (catalogue.entries.length + 1) :=
    Nat.mul_le_mul_right _ (by omega)
  rw [Nat.succ_mul] at hless
  have hstarts : shape.StartsIn (Enough buffer (catalogue.entries.length + 1) rank
      (catalogue.nestingsOf buffer)) buffer cursor := by
    unfold Shape.StartsIn
    split
    · next name _ =>
      have hname := hrank name
      unfold Enough nestingsOf
      omega
    · exact freeBehind_enough hrank (by unfold nestingsOf; omega)
  have hread := (steady_of_named sharing hnames).read cursor hstarts
  exact ⟨hread.alike, hread.contained⟩

/-! ## 5. Reading anything -/

/-- A read is repeated wherever the bytes that it took stand. -/
theorem Planned.read_again (hplanned : catalogue.Planned) (hclosed : catalogue.Closed)
    (hgrounded : catalogue.Grounded) {shape : Shape} (hknows : catalogue.Knows shape)
    {buffer : Buffer} {cursor stop : Nat} {value : Value}
    (hread : (catalogue.codecOf sharing shape).read buffer cursor = .ok value stop)
    {buffer' : Buffer} {cursor' : Nat}
    (hholds : HoldsAt buffer' cursor' ((buffer.drop cursor).take (stop - cursor))) :
    (catalogue.codecOf sharing shape).read buffer' cursor' =
      .ok value (cursor' + (stop - cursor)) := by
  -- with enough nestings for both buffers the two reads are those of one local reader
  have henough : catalogue.nestingsOf buffer ≤
      max (catalogue.nestingsOf buffer) (catalogue.nestingsOf buffer') := Nat.le_max_left _ _
  have henough' : catalogue.nestingsOf buffer' ≤
      max (catalogue.nestingsOf buffer) (catalogue.nestingsOf buffer') := Nat.le_max_right _ _
  generalize max (catalogue.nestingsOf buffer) (catalogue.nestingsOf buffer') = nestings
    at henough henough'
  have hsteady := hplanned.steady sharing hclosed hgrounded hknows buffer cursor henough
  have hsteady' := hplanned.steady sharing hclosed hgrounded hknows buffer' cursor' henough'
  have halike := hsteady.alike
  rw [hread] at halike
  obtain ⟨bytes, rfl, hbytes, hyields⟩ :=
    (hplanned.readsLocally sharing nestings shape).read buffer cursor value stop halike.eq_ok
  have hlength : cursor + bytes.length - cursor = bytes.length := Nat.add_sub_cancel_left _ _
  rw [hlength, hbytes.take_eq] at hholds
  have halike' := hsteady'.alike.symm
  rw [(hyields buffer' cursor').whole hholds] at halike'
  rw [hlength]
  exact halike'.eq_ok

/-- **Reading anything is safe and local.**  At every position of every buffer, past the end
included, a read of a known shape ends with a value or an error that is reported, and never with an
access out of bounds or out of nestings; the cursor does not go back, and does not pass the end
unless it was past it.  The same holds of reading over a value.  And what has been read is read
again, afresh or over any value, wherever the bytes that were taken stand. -/
theorem read_safe_local (hplanned : catalogue.Planned) (hclosed : catalogue.Closed)
    (hgrounded : catalogue.Grounded) {shape : Shape} (hknows : catalogue.Knows shape)
    (buffer : Buffer) (cursor : Nat) :
    Reading.Contained buffer cursor ((catalogue.codecOf sharing shape).read buffer cursor) ∧
      (∀ target, catalogue.HasShape shape target → Reading.Contained buffer cursor
        ((catalogue.codecOf sharing shape).overwrite target buffer cursor).toResult) ∧
      ∀ value stop, (catalogue.codecOf sharing shape).read buffer cursor = .ok value stop →
        ∀ buffer' cursor', HoldsAt buffer' cursor' ((buffer.drop cursor).take (stop - cursor)) →
          (catalogue.codecOf sharing shape).read buffer' cursor' =
              .ok value (cursor' + (stop - cursor)) ∧
            ∀ target, catalogue.HasShape shape target →
              ((catalogue.codecOf sharing shape).overwrite target buffer' cursor').toResult =
                .ok value (cursor' + (stop - cursor)) := by
  have hagrees : ∀ target, catalogue.HasShape shape target → ∀ buffer cursor,
      Reading.Alike ((catalogue.codecOf sharing shape).read buffer cursor)
        ((catalogue.codecOf sharing shape).overwrite target buffer cursor).toResult :=
    fun target h buffer cursor =>
      (hplanned.agrees sharing (catalogue.nestingsOf buffer) h.isTarget buffer cursor).symm
  have hsteady := hplanned.steady sharing hclosed hgrounded hknows buffer cursor (Nat.le_refl _)
  refine ⟨hsteady.contained, fun target h => hsteady.contained.of_alike (hagrees target h _ _),
    fun value stop hread buffer' cursor' hholds => ?_⟩
  have hagain := hplanned.read_again sharing hclosed hgrounded hknows hread hholds
  refine ⟨hagain, fun target h => ?_⟩
  have halike := hagrees target h buffer' cursor'
  rw [hagain] at halike
  exact halike.eq_ok

end

/-- A link is read from the end of a buffer, and again from the start of another one. -/
theorem read_safe_local_link :
    (chain.Planned ∧ chain.Closed ∧ chain.Grounded ∧ chain.Knows (.named "Link") ∧
      chain.HasShape (.named "Link") linkValue ∧
      HoldsAt [1, 9, 0, 0, 0, 5] 0 ((List.drop 1 [7, 1, 9, 0, 0, 0]).take (6 - 1))) ∧
      Reading.Contained [7, 1, 9, 0, 0, 0] 1
        ((chain.codecOf Sharing.none (.named "Link")).read [7, 1, 9, 0, 0, 0] 1) ∧
      ((chain.codecOf Sharing.none (.named "Link")).overwrite linkValue
        [1, 9, 0, 0, 0, 5] 0).toResult = .ok (.record [.int 9, .null, .list []]) (0 + (6 - 1)) := by
  have hknows : chain.Knows (.named "Link") := by
    intro name hname
    rw [List.mem_singleton.mp hname]
    exact ⟨_, rfl⟩
  have hholds : HoldsAt [1, 9, 0, 0, 0, 5] 0 ((List.drop 1 [7, 1, 9, 0, 0, 0]).take (6 - 1)) :=
    ⟨[5], rfl⟩
  have hread : (chain.codecOf Sharing.none (.named "Link")).read [7, 1, 9, 0, 0, 0] 1 =
      .ok (.record [.int 9, .null, .list []]) 6 := rfl
  have hlink := read_safe_local Sharing.none chain_planned chain_closed chain_grounded hknows
    [7, 1, 9, 0, 0, 0] 1
  exact ⟨⟨chain_planned, chain_closed, chain_grounded, hknows, linkValue_hasShape, hholds⟩,
    hlink.1, (hlink.2.2 _ _ hread _ _ hholds).2 linkValue linkValue_hasShape⟩

end Catalogue

end Wireform
