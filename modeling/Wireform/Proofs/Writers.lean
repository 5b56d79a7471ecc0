import Wireform.Proofs.Layout

/-!
# What writers in sequence inherit

A catalogue writes stretches of raw bytes, one behind the other, until it meets a part of the value
that it does not write.  So whatever holds of raw bytes and of such failures, and goes from two writers
to the two in sequence (`Writer.Inherited`), holds of all that a catalogue writes: of every value, also
of one that is not of the shape, in every catalogue (`Catalogue.writesWith`).  The proof follows the
constructors of shapes and enters names by induction on the nestings.

It is the counterpart of what readers in sequence inherit, and needs less: no writer looks at the
cursor.
-/
namespace Wireform

variable {α β : Type}

/-- Whether a writer fails this way by itself: because of the value, or because its catalogue is at
fault, but neither for lack of room nor for what a registry says. -/
def Failure.IsOfWriter : Failure → Prop
  | .wire (.encode _) => True
  | .wire _ => False
  | _ => True

/-- A property of writers that raw bytes and failures have, and that goes from writers to what is made
of them in sequence. -/
structure Writer.Inherited (P : Writer → Prop) : Prop where
  pure : P (Pure.pure ())
  throw : ∀ {failure : Failure}, failure.IsOfWriter → P (MonadExcept.throw failure)
  bytes : ∀ source, P (writeBytes source)
  bind : ∀ {writer : Writer} {next : Unit → Writer}, P writer → P (next ()) → P (writer >>= next)

/-- Values and optional values are written by writers that have a property. -/
structure Codec.WritesWith (P : Writer → Prop) (codec : Codec α) : Prop where
  write : ∀ value, P (codec.write value)
  nullable : ∀ value, P (codec.nullable.write value)

section

variable {P : Writer → Prop} (hP : Writer.Inherited P)

include hP

/-! ## 1. Writers -/

namespace Writer.Inherited

theorem length (length : Nat) : P (writeLength length) := by
  unfold writeLength
  split
  · exact hP.bytes _
  · exact hP.throw trivial

theorem items {write : α → Writer} (h : ∀ item, P (write item)) (items : List α) :
    P (writeItems write items) := by
  induction items with
  | nil => exact hP.pure
  | cons item items ih => exact hP.bind (h item) ih

theorem marks (bytes : Nat) (marks : List (Nat × Bool)) : P (writeMarks bytes marks) := by
  unfold writeMarks
  split
  · unfold NullBitset.write
    split
    · exact hP.pure
    · exact hP.bytes _
  · exact hP.throw trivial

theorem field {field : FieldCodec} (h : field.codec.WritesWith P) (value : Value) :
    P (field.write value) := by
  unfold FieldCodec.write
  split
  · exact h.write value
  · split
    · exact h.write _
    · exact hP.pure
    · exact hP.throw trivial
  · exact hP.pure

theorem fields {fields : List FieldCodec} (h : ∀ field ∈ fields, field.codec.WritesWith P)
    (values : List Value) : P (writeFields fields values) := by
  induction fields generalizing values with
  | nil =>
    cases values with
    | nil => exact hP.pure
    | cons value values => exact hP.throw trivial
  | cons field fields ih =>
    obtain ⟨hfield, hfields⟩ := List.forall_mem_cons.mp h
    cases values with
    | nil => exact hP.throw trivial
    | cons value values => exact hP.bind (hP.field hfield value) (ih hfields values)

variable {codecOf : Schema.Kind → Codec Value} (h : ∀ kind, (codecOf kind).WritesWith P)

include h

theorem loweredField (kind : Schema.Kind) (slot : Option Nat) (value : Value) :
    P (StructCodec.writeField codecOf kind slot value) := by
  unfold StructCodec.writeField
  split
  · exact (h kind).write value
  · split
    · exact (h kind).write _
    · exact hP.pure
    · exact hP.throw trivial

theorem steps (all : List (String × Value)) (steps : List Schema.Step) (values : List Value) :
    P (StructCodec.runWrite codecOf all steps values) := by
  induction steps generalizing values with
  | nil =>
    cases values with
    | nil => exact hP.pure
    | cons value values => exact hP.throw trivial
  | cons step steps ih =>
    cases step with
    | bitset bytes slots =>
      cases values <;> exact hP.bind (hP.marks bytes _) (ih _)
    | field name kind slot =>
      cases values with
      | nil => exact hP.throw trivial
      | cons value values => exact hP.bind (hP.loweredField h kind slot value) (ih values)

end Writer.Inherited

/-! ## 2. Codecs -/

namespace Codec.WritesWith

/-- A codec that marks absence by a byte. -/
theorem of_marker {codec : Codec α} {size : α → Nat} {read : Reader α}
    (hnullable : codec.nullable = .marker size codec.write read) (h : ∀ value, P (codec.write value)) :
    codec.WritesWith P := by
  refine ⟨h, fun value => ?_⟩
  rw [hnullable]
  cases value with
  | none => exact hP.bytes _
  | some value => exact hP.bind (hP.bytes _) (h value)

/-- A codec that writes the prefix of null for an absent value. -/
theorem of_length {codec : Codec α} {size : α → Nat} {body : Nat → Reader α}
    (hnullable : codec.nullable = .inBand size codec.write body)
    (h : ∀ value, P (codec.write value)) : codec.WritesWith P := by
  refine ⟨h, fun value => ?_⟩
  rw [hnullable]
  cases value with
  | none => exact hP.bytes _
  | some value => exact h value

theorem lift {codec : Codec α} (h : codec.WritesWith P) (case : Case α β) :
    (codec.lift case).WritesWith P := by
  constructor
  · intro value
    unfold Codec.lift
    dsimp only
    split
    · exact h.write _
    · exact hP.throw trivial
  · intro value
    unfold Codec.lift NullLayout.lift
    dsimp only
    split
    · exact h.nullable none
    · split
      · exact h.nullable _
      · exact hP.throw trivial

theorem leaf [DecimalForm] (l : Leaf) : l.codec.WritesWith P := by
  rw [l.codec_kind]
  cases l.kind with
  | int format => exact (of_marker hP rfl fun _ => hP.bytes _).lift hP Value.intCase
  | bits width => exact (of_marker hP rfl fun _ => hP.bytes _).lift hP Value.bitsCase
  | bool => exact (of_marker hP rfl fun _ => hP.bytes _).lift hP Value.boolCase
  | char => exact (of_marker hP rfl fun _ => hP.bytes _).lift hP Value.charCase
  | decimal => exact (of_marker hP rfl fun _ => hP.bytes _).lift hP Value.decimalCase
  | text typeName =>
    exact (of_length hP rfl fun _ => hP.bind (hP.length _) (hP.bytes _)).lift hP Value.textCase
  | duration =>
    refine (of_marker hP rfl fun nanos => ?_).lift hP Value.natCase
    show P (if _ then _ else _)
    split
    · exact hP.bytes _
    · exact hP.throw trivial
  | instant =>
    refine (of_marker hP rfl fun nanos => ?_).lift hP Value.intCase
    show P (if _ then _ else _)
    split
    · exact hP.bytes _
    · exact hP.throw trivial

theorem enumeration (e : Enumeration) : e.codec.WritesWith P :=
  of_marker hP rfl fun _ => hP.bytes _

theorem exhausted : (Codec.exhausted : Codec α).WritesWith P :=
  of_marker hP rfl fun _ => hP.throw trivial

theorem option {inner : Codec α} (h : inner.WritesWith P) : (Codec.option inner).WritesWith P :=
  of_marker hP rfl h.nullable

theorem writeSequence {element : Codec α} (h : element.WritesWith P) (items : List α) :
    P (element.writeSequence items) :=
  hP.bind (hP.length _) (hP.items h.write items)

theorem mapping {κ ν : Type} [Ord κ] (kind : MapKind) {key : Codec κ} {value : Codec ν}
    (hkey : key.WritesWith P) (hvalue : value.WritesWith P) :
    (Codec.mapping kind key value).WritesWith P :=
  of_length hP rfl fun entries => hP.bind (hP.length _) (hP.items
    (fun entry => hP.bind (hkey.write entry.1) (hvalue.write entry.2)) entries)

end Codec.WritesWith

/-! ## 3. Catalogues -/

namespace Catalogue

variable [DecimalForm] (catalogue : Catalogue) (sharing : Sharing Value)

/-- If the names are written with the property, all shapes are. -/
theorem writesWith_shape {named : String → Codec Value} (h : ∀ name, (named name).WritesWith P)
    (shape : Shape) : (shape.codec sharing named).WritesWith P := by
  induction shape with
  | leaf l => exact .leaf hP l
  | option inner ih => exact (ih.option hP).lift hP Value.optionCase
  | boxed inner ih => exact ih
  | shared inner ih => exact ⟨ih.write, ih.nullable⟩
  | sequence kind element ih =>
    exact (Codec.WritesWith.of_length hP rfl (ih.writeSequence hP)).lift hP Value.listCase
  | array length element ih =>
    exact (Codec.WritesWith.of_length hP rfl (ih.writeSequence hP)).lift hP Value.listCase
  | mapping kind key value ihkey ihvalue =>
    exact (ihkey.mapping hP kind ihvalue).lift hP Value.entriesCase
  | named name => exact h name

/-- If the names are written with the property, all definitions are. -/
theorem writesWith_definition {named : String → Codec Value}
    (h : ∀ name, (named name).WritesWith P) (initial : String → Value) (definition : Definition) :
    (definition.codec sharing initial named).WritesWith P := by
  have hshape := writesWith_shape hP sharing h
  cases definition with
  | enumeration e => exact (Codec.WritesWith.enumeration hP e).lift hP Value.variantCase
  | record defs =>
    have hfields : ∀ field ∈ (numberFields 0 defs).map
        (fun field => field.1.codec sharing initial named field.2), field.codec.WritesWith P := by
      intro field hfield
      obtain ⟨⟨⟨name, type⟩, presence⟩, -, rfl⟩ := List.mem_map.mp hfield
      cases type <;> exact hshape _
    exact (Codec.WritesWith.of_marker hP rfl fun values =>
      hP.bind (hP.marks _ _) (hP.fields hfields values)).lift hP Value.recordCase
  | lowered scope code =>
    exact (Codec.WritesWith.of_marker hP rfl fun values =>
      hP.steps (fun kind => hshape (kind.shape scope)) _ _ values).lift hP Value.recordCase

/-- However often a name may be entered, what it writes has the property. -/
theorem writesWith_name (nestings : Nat) (name : String) :
    (catalogue.codec sharing nestings name).WritesWith P := by
  have hexhausted : (Codec.exhausted : Codec Value).WritesWith P := .exhausted hP
  induction nestings generalizing name with
  | zero => exact ⟨hexhausted.write, hexhausted.nullable⟩
  | succ nestings ih =>
    cases hname : catalogue.get? name with
    | none =>
      rw [Catalogue.codec, hname]
      exact ⟨hexhausted.write, hexhausted.nullable⟩
    | some definition =>
      have hdefinition := writesWith_definition hP sharing ih catalogue.initial definition
      rw [codec_succ sharing nestings hname]
      exact ⟨hdefinition.write, hdefinition.nullable⟩

/-- **Whatever a catalogue writes, it writes with every such property.** -/
theorem writesWith (shape : Shape) : (catalogue.codecOf sharing shape).WritesWith P := by
  have hwithin : ∀ nestings, (catalogue.within sharing nestings shape).WritesWith P :=
    fun nestings => writesWith_shape hP sharing (catalogue.writesWith_name hP sharing nestings) shape
  exact ⟨fun value => (hwithin value.height).write value,
    fun value => (hwithin (Value.slotHeight value)).nullable value⟩

end Catalogue

end

end Wireform
