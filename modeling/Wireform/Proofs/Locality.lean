import Wireform.Proofs.InPlace

/-!
# Codecs read locally

A value that has been read was read from a stretch of bytes, and is read again wherever they stand
(`Reader.Local`).  This needs no encoded value to start from: the bytes may be anything that some
codec accepts.

The only readers that look beyond what they take are those of raw bytes, which take nothing where
nothing is asked of them, and then refuse a position past the end.  They stand behind a prefix, and
behind bytes that have been read the position is inside the buffer.  All other codecs are readers
in sequence, and so local for the reason that their parts are.

So the proof is not about locality: `Reader.Inherited` says of any property that readers in sequence
have it if their parts do, and `Catalogue.Planned.readsWith` gives it to whatever a catalogue reads, by
induction on the nestings; a name that may not be entered reads nothing at all.
-/
namespace Wireform

variable {α β : Type}

/-- Values and optional values are read from stretches of bytes that yield them. -/
structure Codec.ReadsLocally (codec : Codec α) : Prop where
  read : codec.read.Local
  nullable : codec.nullable.read.Local

/-- Values and optional values are read soundly. -/
structure Codec.ReadsSoundly (codec : Codec α) : Prop where
  read : codec.read.Sound
  nullable : codec.nullable.read.Sound

/-! ## 1. Null layouts -/

namespace Reader

/-- Reads an optional value behind its presence byte. -/
def behindMarker (read : Reader α) : Reader (Option α) :=
  (NullLayout.marker (fun _ => 0) (fun _ => pure ()) read).read

/-- Reads an optional value whose prefix may be that of null. -/
def behindCount (body : Nat → Reader α) : Reader (Option α) :=
  (NullLayout.inBand (fun _ => 0) (fun _ => pure ()) body).read

theorem Local.behindMarker {read : Reader α} (h : read.Local) : read.behindMarker.Local := by
  refine sound_readByte.isLocal.reporting fun found => ?_
  by_cases hnone : found = 0
  · exact .inl ⟨pure none, local_pure _, fun _ => if_pos hnone⟩
  · by_cases hsome : found = 1
    · refine .inl ⟨_, h.bind fun value => local_pure (some value), fun _ => ?_⟩
      rw [if_neg hnone, if_pos hsome]
    · refine .inr fun offset => ⟨.decode (.badMarker offset found), ?_⟩
      rw [if_neg hnone, if_neg hsome]

theorem SteadyAt.behindMarker {read read' : Reader α} {buffer : Buffer} {cursor : Nat}
    (h : cursor < buffer.length → read.SteadyAt read' buffer (cursor + 1)) :
    read.behindMarker.SteadyAt read'.behindMarker buffer cursor := by
  refine .of_get ((sound_readByte.steady buffer cursor).bind fun found stop hread _ _ => ?_)
  obtain ⟨rfl, hend⟩ := readByte_eq_ok hread
  split
  · exact steadyAt_pure _ _ _
  · split
    · exact (h hend).bind fun value stop _ _ _ => steadyAt_pure _ _ _
    · exact steadyAt_throw _ _ _

theorem Local.behindCount {body : Nat → Reader α} (h : ∀ length, (body length).LocalInside) :
    (Reader.behindCount body).Local := by
  refine sound_readLength.isLocal.bind_inside (fun _ _ _ _ hread => (readLength_eq_ok hread).1)
    fun length => ?_
  cases length with
  | none => exact (local_pure none).inside
  | some length => exact (h length).map some

theorem SteadyAt.behindCount {body body' : Nat → Reader α} {buffer : Buffer} {cursor : Nat}
    (h : ∀ length stop, cursor < stop → stop ≤ buffer.length →
      (body length).SteadyAt (body' length) buffer stop) :
    (Reader.behindCount body).SteadyAt (Reader.behindCount body') buffer cursor := by
  refine (sound_readLength.steady buffer cursor).bind fun length stop hread _ _ => ?_
  obtain ⟨hlt, hend⟩ := readLength_eq_ok hread
  cases length with
  | none => exact steadyAt_pure _ _ _
  | some length =>
    exact (h length stop hlt hend).bind fun value stop _ _ _ => steadyAt_pure _ _ _

theorem behindMarker_apply (read : Reader α) (buffer : Buffer) (cursor : Nat) :
    read.behindMarker buffer cursor = match readByte buffer cursor with
      | .ok found stop =>
        (if found = 0 then pure none
        else if found = 1 then do
          let value ← read
          pure (some value)
        else throw (.wire (.decode (.badMarker cursor found))) : Reader (Option α)) buffer stop
      | .error failure stop => .error failure stop := by
  show (readByte >>= fun found => (if found = 0 then pure none
    else if found = 1 then do
      let value ← read
      pure (some value)
    else throw (.wire (.decode (.badMarker cursor found))) : Reader (Option α))) buffer cursor = _
  rw [bind_apply]
  cases readByte buffer cursor <;> rfl

/-- A value of one case is read behind its presence byte as a value of that case. -/
theorem behindMarker_lift (read : Reader α) (case : Case α β) :
    (do let value ← read.behindMarker; pure (value.map case.wrap) : Reader (Option β)) =
      behindMarker (do let value ← read; pure (case.wrap value)) := by
  funext buffer cursor
  rw [bind_apply, behindMarker_apply, behindMarker_apply]
  cases readByte buffer cursor with
  | error failure stop => rfl
  | ok found stop =>
    dsimp only
    by_cases hnone : found = 0
    · rw [if_pos hnone, if_pos hnone]
      rfl
    · by_cases hsome : found = 1
      · rw [if_neg hnone, if_neg hnone, if_pos hsome, if_pos hsome, bind_apply, bind_apply,
          bind_apply]
        cases read buffer stop <;> rfl
      · rw [if_neg hnone, if_neg hnone, if_neg hsome, if_neg hsome]
        rfl

end Reader

namespace Codec

/-! ## 2. Sound codecs -/

namespace ReadsSoundly

/-- A codec that marks absence by a byte. -/
theorem of_marker {codec : Codec α} (hnullable : codec.nullable.read = codec.read.behindMarker)
    (h : codec.read.Sound) : codec.ReadsSoundly := by
  refine ⟨h, ?_⟩
  rw [hnullable]
  exact ⟨fun buffer cursor => .behindMarker fun _ => h.steady buffer _, h.isLocal.behindMarker⟩

theorem lift {codec : Codec α} (h : codec.ReadsSoundly) (case : Case α β) :
    (codec.lift case).ReadsSoundly :=
  ⟨h.read.bind fun _ => Reader.sound_pure _, h.nullable.bind fun _ => Reader.sound_pure _⟩

theorem text (typeName : String) : (Codec.text typeName).ReadsSoundly := by
  constructor
  · exact ⟨fun buffer cursor => .behindLength typeName fun length stop _ hend =>
      Reader.steadyAt_readText length hend, .behindLength typeName Reader.localInside_readText⟩
  · exact ⟨fun buffer cursor => .behindCount fun length stop _ hend =>
      Reader.steadyAt_readText length hend, .behindCount Reader.localInside_readText⟩

theorem bool : Codec.bool.ReadsSoundly := by
  refine of_marker rfl (Reader.sound_readByte.reporting fun found => ?_)
  by_cases hfalse : found = 0
  · exact .inl ⟨pure false, Reader.sound_pure _, fun _ => if_pos hfalse⟩
  · by_cases htrue : found = 1
    · exact .inl ⟨pure true, Reader.sound_pure _, fun _ => by rw [if_neg hfalse, if_pos htrue]⟩
    · exact .inr fun offset => ⟨.decode (.badBool offset found), by
        rw [if_neg hfalse, if_neg htrue]⟩

theorem char : Codec.char.ReadsSoundly := by
  refine of_marker rfl ((Reader.sound_readInt (by decide)).bind fun scalar => ?_)
  split
  · exact Reader.sound_pure _
  · exact Reader.sound_throw _

/-- **Leaves are read soundly.** -/
theorem leaf [DecimalForm] {kind : LeafKind} (hwidth : kind.HasWidth) : kind.codec.ReadsSoundly := by
  cases kind with
  | int format =>
    have hint : (Codec.int format).ReadsSoundly := of_marker rfl (Reader.sound_readInt hwidth)
    exact hint.lift Value.intCase
  | bits width =>
    have hbits : (Codec.bits width).ReadsSoundly :=
      of_marker rfl ((Reader.sound_readInt (by exact hwidth)).bind fun _ => Reader.sound_pure _)
    exact hbits.lift Value.bitsCase
  | bool => exact bool.lift Value.boolCase
  | char => exact char.lift Value.charCase
  | text name => exact (text name).lift Value.textCase
  | duration =>
    have hduration : Codec.duration.ReadsSoundly :=
      of_marker rfl ((Reader.sound_readInt (by decide)).bind fun _ => Reader.sound_pure _)
    exact hduration.lift Value.natCase
  | instant =>
    have hinstant : Codec.instant.ReadsSoundly :=
      of_marker rfl (Reader.sound_readInt (by decide))
    exact hinstant.lift Value.intCase
  | decimal =>
    have hdecimal : Codec.decimal.ReadsSoundly :=
      of_marker rfl ((Reader.sound_readBytes (by decide)).bind fun _ => Reader.sound_pure _)
    exact hdecimal.lift Value.decimalCase

theorem enumeration (e : Enumeration) : e.codec.ReadsSoundly := by
  refine of_marker rfl ((Reader.sound_readInt e.repr.size_pos).bind fun n => ?_)
  cases e.variantOf? n with
  | some v => exact Reader.sound_pure _
  | none => exact Reader.sound_throw _

end ReadsSoundly

end Codec

/-! ## 3. What readers in sequence inherit -/

/-- Whether a failure is an error of dispatch. -/
def Failure.IsDispatch : Failure → Prop
  | .wire (.dispatch _) => True
  | _ => False

/-- A property that the readers of prefixes, bitsets and leaves have, and failures but those of
dispatch, and that goes from readers to what is made of them in sequence. -/
structure Reader.Inherited [DecimalForm] (P : {α : Type} → Reader α → Prop) : Prop where
  pure : ∀ {α : Type} (value : α), P (Pure.pure value : Reader α)
  throw : ∀ {α : Type} {failure : Failure}, ¬failure.IsDispatch →
    P (MonadExcept.throw failure : Reader α)
  length : P readLength
  bitset : ∀ {bytes : Nat}, P (NullBitset.read : Reader (NullBitset bytes))
  leaf : ∀ l : Leaf, P l.codec.read ∧ P l.codec.nullable.read
  enumeration : ∀ e : Enumeration, P e.codec.read
  bind : ∀ {α β : Type} {reader : Reader α} {next : α → Reader β}, P reader →
    (∀ value, P (next value)) → P (reader >>= next)
  behindMarker : ∀ {α : Type} {read : Reader α}, P read → P read.behindMarker
  of_alike : ∀ {α : Type} {reader reader' : Reader α}, P reader →
    (∀ buffer cursor, Reading.Alike (reader buffer cursor) (reader' buffer cursor)) → P reader'

/-- It is enough that all sound readers and all failures have the property. -/
theorem Reader.Inherited.of_sound [DecimalForm] {P : {α : Type} → Reader α → Prop}
    (hsound : ∀ {α : Type} {reader : Reader α}, reader.Sound → P reader)
    (hthrow : ∀ {α : Type} (failure : Failure), P (MonadExcept.throw failure : Reader α))
    (hbind : ∀ {α β : Type} {reader : Reader α} {next : α → Reader β}, P reader →
      (∀ value, P (next value)) → P (reader >>= next))
    (hmarker : ∀ {α : Type} {read : Reader α}, P read → P read.behindMarker)
    (halike : ∀ {α : Type} {reader reader' : Reader α}, P reader →
      (∀ buffer cursor, Reading.Alike (reader buffer cursor) (reader' buffer cursor)) → P reader') :
    Reader.Inherited P where
  pure value := hsound (sound_pure value)
  throw _ := hthrow _
  length := hsound sound_readLength
  bitset := hsound NullBitset.sound_read
  leaf l := by
    have hleaf := Codec.ReadsSoundly.leaf l.kind_hasWidth
    rw [l.codec_kind]
    exact ⟨hsound hleaf.read, hsound hleaf.nullable⟩
  enumeration e := hsound (Codec.ReadsSoundly.enumeration e).read
  bind := hbind
  behindMarker := hmarker
  of_alike := halike

/-- Values and optional values are read by readers that have a property. -/
structure Codec.ReadsWith (P : {α : Type} → Reader α → Prop) (codec : Codec α) : Prop where
  read : P codec.read
  nullable : P codec.nullable.read

section

variable [DecimalForm] {P : {α : Type} → Reader α → Prop} (hP : Reader.Inherited P)

include hP

namespace Reader.Inherited

/-- What is made of the value has the property of its reader. -/
theorem map {reader : Reader α} (h : P reader) (f : α → β) :
    P (do let value ← reader; Pure.pure (f value) : Reader β) :=
  hP.bind h fun value => hP.pure (f value)

theorem behindCount {body : Nat → Reader α} (h : ∀ length, P (body length)) :
    P (Reader.behindCount body) := by
  refine hP.bind hP.length fun length => ?_
  cases length with
  | none => exact hP.pure none
  | some length => exact hP.map (h length) some

theorem requiredLength (name : String) : P (readRequiredLength name) := by
  refine hP.bind hP.length fun length => ?_
  cases length with
  | none => exact hP.throw id
  | some length => exact hP.pure length

theorem times {item : Reader α} (h : P item) (count : Nat) : P (item.times count) := by
  induction count with
  | zero => exact hP.pure []
  | succ count ih => exact hP.bind h fun value => hP.map ih (value :: ·)

theorem entry {κ ν : Type} {key : Codec κ} {value : Codec ν} (hkey : P key.read)
    (hvalue : P value.read) : P (Codec.readEntry key value) :=
  hP.bind hkey fun k => hP.map hvalue fun v => (k, v)

variable {codecOf : Shape → Codec Value} {bytes : Nat} (set : NullBitset bytes)

theorem field {field : FieldLayout} (h : P (codecOf field.shape).read) :
    P ((field.codec codecOf).read set) := by
  obtain ⟨presence, shape, initial⟩ := field
  cases presence with
  | always => exact h
  | skipped => exact hP.pure _
  | nullable slot =>
    have htest : P (set.test slot) := by
      unfold NullBitset.test
      split
      · exact hP.pure _
      · exact hP.throw id
    refine hP.bind htest fun isNull => ?_
    cases isNull with
    | true => exact hP.pure _
    | false => exact hP.map h Value.present

theorem fields {fields : List FieldLayout} (h : ∀ field ∈ fields, P (codecOf field.shape).read) :
    P (readFields set (fields.map (FieldLayout.codec codecOf))) := by
  induction fields with
  | nil => exact hP.pure _
  | cons head rest ih =>
    have hhead := hP.field set (h head List.mem_cons_self)
    have hrest := ih fun f hf => h f (List.mem_cons_of_mem _ hf)
    exact hP.bind hhead fun value => hP.map hrest (value :: ·)

end Reader.Inherited

namespace Codec.ReadsWith

/-- A codec that marks absence by a byte. -/
theorem of_marker {codec : Codec α} (hnullable : codec.nullable.read = codec.read.behindMarker)
    (h : P codec.read) : codec.ReadsWith P :=
  ⟨h, hnullable ▸ hP.behindMarker h⟩

/-- A codec that reads something behind a prefix. -/
theorem of_length {codec : Codec α} {name : String} {body : Nat → Reader α}
    (hread : codec.read = (readRequiredLength name >>= body))
    (hnullable : codec.nullable.read = .behindCount body) (h : ∀ length, P (body length)) :
    codec.ReadsWith P :=
  ⟨hread ▸ hP.bind (hP.requiredLength name) h,
    hnullable ▸ hP.behindCount h⟩

theorem lift {codec : Codec α} (h : codec.ReadsWith P) (case : Case α β) :
    (codec.lift case).ReadsWith P :=
  ⟨hP.map h.read case.wrap, hP.map h.nullable (Option.map case.wrap)⟩

theorem exhausted : (Codec.exhausted : Codec α).ReadsWith P := of_marker hP rfl (hP.throw id)

theorem option {inner : Codec α} (h : inner.ReadsWith P) : (Codec.option inner).ReadsWith P :=
  of_marker hP rfl h.nullable

theorem sequence (kind : SequenceKind) {element : Codec α} (h : element.ReadsWith P) :
    (Codec.sequence kind element).ReadsWith P := by
  refine of_length hP rfl rfl fun count => ?_
  rw [readItems_eq_times]
  exact hP.times h.read count

theorem array (length : Nat) {element : Codec α} (h : element.ReadsWith P) :
    (Codec.array length element).ReadsWith P := by
  refine of_length hP rfl rfl fun count => ?_
  unfold arrayBody
  split
  · exact hP.throw id
  · rw [readItems_eq_times]
    exact hP.times h.read count

theorem mapping {κ ν : Type} [Ord κ] (kind : MapKind) {key : Codec κ} {value : Codec ν}
    (hkey : key.ReadsWith P) (hvalue : value.ReadsWith P) :
    (Codec.mapping kind key value).ReadsWith P := by
  refine of_length hP rfl rfl fun count => ?_
  rw [entriesBody_eq]
  exact hP.map (hP.times (hP.entry hkey.read hvalue.read) count) kind.ofPairs

/-- A record is read as its fields are, also one that is run step by step. -/
theorem record {codec : Codec (List Value)} {codecOf : Shape → Codec Value}
    {fields : List FieldLayout}
    (hrecord : RecordCodec codec (fields.map (FieldLayout.codec codecOf)))
    (halike : ∀ buffer cursor, Reading.Alike
      ((Codec.record (fields.map (FieldLayout.codec codecOf))).read buffer cursor)
      (codec.read buffer cursor))
    (h : ∀ field ∈ fields, P (codecOf field.shape).read) : codec.ReadsWith P := by
  refine of_marker hP (by rw [hrecord.nullable]; rfl) ?_
  have hread : P (Codec.record (fields.map (FieldLayout.codec codecOf))).read :=
    hP.bind hP.bitset fun set => hP.fields set h
  exact hP.of_alike hread halike

end Codec.ReadsWith

/-! ## 4. Catalogues -/

namespace Catalogue

variable {catalogue : Catalogue} (sharing : Sharing Value)

/-- If the names are read with the property, all shapes are. -/
theorem readsWith_of_named {nestings : Nat}
    (hnamed : ∀ name, (catalogue.codec sharing nestings name).ReadsWith P) (shape : Shape) :
    (catalogue.within sharing nestings shape).ReadsWith P := by
  induction shape with
  | leaf l => exact ⟨(hP.leaf l).1, (hP.leaf l).2⟩
  | option inner ih => exact (ih.option hP).lift hP Value.optionCase
  | boxed inner ih => exact ih
  | shared inner ih => exact ⟨ih.read, ih.nullable⟩
  | sequence kind element ih => exact (ih.sequence hP kind).lift hP Value.listCase
  | array length element ih => exact (ih.array hP length).lift hP Value.listCase
  | mapping kind key value ihkey ihvalue =>
    exact (Codec.ReadsWith.mapping hP kind ihkey ihvalue).lift hP Value.entriesCase
  | named name => exact hnamed name

/-- **Whatever a catalogue reads, it reads with every such property**, however many nestings there
are. -/
theorem Planned.readsWith (hplanned : catalogue.Planned) (nestings : Nat) (shape : Shape) :
    (catalogue.within sharing nestings shape).ReadsWith P := by
  have hexhausted : (Codec.exhausted : Codec Value).ReadsWith P := .exhausted hP
  refine readsWith_of_named hP sharing (fun name => ?_) shape
  induction nestings generalizing name with
  | zero => exact ⟨hexhausted.read, hexhausted.nullable⟩
  | succ nestings ih =>
    cases hname : catalogue.get? name with
    | none =>
      rw [Catalogue.codec, hname]
      exact ⟨hexhausted.read, hexhausted.nullable⟩
    | some definition =>
      rw [codec_succ sharing nestings hname]
      rcases definition.enumeration_or_layout catalogue.initial with ⟨e, rfl⟩ | ⟨fields, hlayout⟩
      · have henum : e.codec.ReadsWith P := .of_marker hP rfl (hP.enumeration e)
        have hvariant := henum.lift hP Value.variantCase
        exact ⟨hvariant.read, hvariant.nullable⟩
      · obtain ⟨inner, hinner, hrecord, halike⟩ :=
          hplanned.codec_record sharing nestings hname hlayout
        have hfields := Codec.ReadsWith.record hP hrecord halike fun field _ =>
          (readsWith_of_named hP sharing ih field.shape).read
        have hvalue := hfields.lift hP Value.recordCase
        rw [hinner]
        exact ⟨hvalue.read, hvalue.nullable⟩

end Catalogue

end

theorem Reader.inherited_local [DecimalForm] : Reader.Inherited Reader.Local :=
  .of_sound (fun h => h.isLocal) local_throw Local.bind Local.behindMarker Local.of_alike

/-- **Whatever a catalogue reads, it reads locally**, however many nestings there are. -/
theorem Catalogue.Planned.readsLocally [DecimalForm] {catalogue : Catalogue} (sharing : Sharing Value)
    (hplanned : catalogue.Planned) (nestings : Nat) (shape : Shape) :
    (catalogue.within sharing nestings shape).ReadsLocally :=
  have h := hplanned.readsWith Reader.inherited_local sharing nestings shape
  ⟨h.read, h.nullable⟩

end Wireform
