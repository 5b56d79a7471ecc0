import Wireform.Proofs.Locality

/-!
# Bytes that codecs accept

`Reader.Accepts reader Spells` says of a reader that whatever it makes of a buffer, it takes bytes
that spell it.  It is closed under running one reader after another, and so it goes from readers of
numbers to codecs.  Here the checks of the codecs are used up: a presence byte and a truth value are
0 or 1, a length is not negative, a text is UTF-8 in the only form that each character has, the count
of an array is its own, and an integer that stands for a variant is that of the variant.  What is
left is one spelling for each value.

Decimals have no such reader: a decimal may be read from bytes that are not its own.
-/
namespace Wireform

variable {α β : Type}

/-! ## 1. Readers -/

/-- Whatever the reader makes of a buffer, it takes bytes that spell it. -/
def Reader.Accepts (reader : Reader α) (Spells : α → List UInt8 → Prop) : Prop :=
  ∀ buffer cursor value stop, reader buffer cursor = .ok value stop → ∃ bytes,
    stop = cursor + bytes.length ∧ HoldsAt buffer cursor bytes ∧ Spells value bytes

/-- The spellings of an optional value: those of null, or those of the value behind the lead. -/
def NullForm.Spells (form : NullForm) (Spells : α → List UInt8 → Prop) :
    Option α → List UInt8 → Prop
  | none, bytes => bytes = form.null
  | some value, bytes => ∃ rest, bytes = form.lead ++ rest ∧ Spells value rest

namespace Reader

variable {First : α → List UInt8 → Prop} {Spells : β → List UInt8 → Prop}

/-- **Accepting is sequential.** -/
theorem Accepts.bind {reader : Reader α} {next : α → Reader β} (h : reader.Accepts First)
    (hnext : ∀ value first, First value first →
      (next value).Accepts fun result rest => Spells result (first ++ rest)) :
    (reader >>= next).Accepts Spells := by
  intro buffer cursor result stop hread
  obtain ⟨value, middle, hfirst, hsecond⟩ := bind_eq_ok hread
  obtain ⟨first, rfl, hholds, hspells⟩ := h _ _ _ _ hfirst
  obtain ⟨rest, rfl, hholds', hspells'⟩ := hnext value first hspells _ _ _ _ hsecond
  exact ⟨first ++ rest, by rw [List.length_append, Nat.add_assoc],
    holdsAt_append.mpr ⟨hholds, hholds'⟩, hspells'⟩

theorem accepts_pure {value : β} (h : Spells value []) : (pure value : Reader β).Accepts Spells := by
  intro buffer cursor result stop hread
  cases hread
  exact ⟨[], rfl, holdsAt_nil _ _, h⟩

theorem accepts_throw (failure : Failure) : (throw failure : Reader β).Accepts Spells := by
  intro buffer cursor result stop hread
  cases hread

/-- What is made of the value takes no bytes. -/
theorem Accepts.map {reader : Reader α} {next : α → Reader β} {f : α → β} (h : reader.Accepts First)
    (hnext : ∀ value bytes, First value bytes → Spells (f value) bytes)
    (hpure : ∀ value, next value = pure (f value)) : (reader >>= next).Accepts Spells := by
  refine h.bind fun value bytes hspells => ?_
  rw [hpure]
  refine accepts_pure ?_
  rw [List.append_nil]
  exact hnext value bytes hspells

theorem Accepts.mono {reader : Reader β} {Spells' : β → List UInt8 → Prop}
    (h : reader.Accepts Spells) (himp : ∀ value bytes, Spells value bytes → Spells' value bytes) :
    reader.Accepts Spells' := by
  intro buffer cursor value stop hread
  obtain ⟨bytes, hstop, hholds, hspells⟩ := h _ _ _ _ hread
  exact ⟨bytes, hstop, hholds, himp _ _ hspells⟩

theorem Accepts.of_get {next : Nat → Reader β} (h : ∀ offset, (next offset).Accepts Spells) :
    (get >>= next : Reader β).Accepts Spells :=
  fun buffer cursor value stop hread => h cursor buffer cursor value stop hread

theorem Accepts.of_alike {reader reader' : Reader β} (h : reader.Accepts Spells)
    (halike : ∀ buffer cursor, Reading.Alike (reader buffer cursor) (reader' buffer cursor)) :
    reader'.Accepts Spells := by
  intro buffer cursor value stop hread
  have hback := (halike buffer cursor).symm
  rw [hread] at hback
  exact h buffer cursor value stop hback.eq_ok

/-- Items that are read in turn are spelled in turn. -/
theorem Accepts.times {item : Reader β} (h : item.Accepts Spells) (count : Nat) :
    (item.times count).Accepts fun values bytes =>
      values.length = count ∧ ∃ parts, List.Forall₂ Spells values parts ∧ bytes = parts.flatten := by
  induction count with
  | zero => exact accepts_pure ⟨rfl, [], .nil, rfl⟩
  | succ count ih =>
    refine h.bind fun value first hfirst => ih.map (f := (value :: ·)) ?_ fun _ => rfl
    rintro values bytes ⟨hlength, parts, hparts, rfl⟩
    exact ⟨congrArg (· + 1) hlength, first :: parts, .cons hfirst hparts, rfl⟩

/-! ## 2. Raw bytes, numbers, prefixes and texts -/

theorem accepts_readBytes (length : Nat) :
    (readBytes length).Accepts fun bytes taken => bytes.length = length ∧ taken = bytes := by
  intro buffer cursor bytes stop hread
  obtain ⟨hlength, hstop, -, hholds⟩ := readBytes_eq_ok hread
  exact ⟨bytes, hstop, hholds, hlength, rfl⟩

/-- A number is read from its own bytes. -/
theorem accepts_readInt {format : IntFormat} (hwidth : 0 < format.width) :
    (readInt format).Accepts fun n bytes => format.contains n = true ∧ bytes = format.encode n := by
  refine (accepts_readBytes format.width).map (f := format.decode) ?_ fun _ => rfl
  rintro bytes taken ⟨hlength, rfl⟩
  exact ⟨IntFormat.contains_wrap hwidth _, (IntFormat.encode_decode hlength).symm⟩

/-- A number without a sign is not negative. -/
theorem toNat_of_contains {width : Nat} {n : Int}
    (h : IntFormat.contains ⟨width, false⟩ n = true) : (n.toNat : Int) = n := by
  simp only [IntFormat.contains, IntFormat.least, Bool.false_eq_true, if_false, Bool.and_eq_true,
    decide_eq_true_eq] at h
  exact Int.toNat_of_nonneg h.1

theorem accepts_readByte :
    readByte.Accepts fun n bytes => bytes = IntFormat.u8.encode n := by
  refine (accepts_readInt (by decide)).map (f := Int.toNat) ?_ fun _ => rfl
  rintro n bytes ⟨hcontains, rfl⟩
  rw [toNat_of_contains hcontains]

/-- A prefix is read from its own bytes. -/
theorem accepts_readLength : readLength.Accepts fun length bytes =>
    bytes = length.elim nullLengthBytes lengthBytes ∧ ∀ n, length = some n → n ≤ maxLength := by
  refine .of_get fun offset => (accepts_readInt (by decide)).bind ?_
  rintro n first ⟨hcontains, rfl⟩
  split
  · next hnull =>
    rw [hnull]
    exact accepts_pure ⟨List.append_nil _, fun _ h => nomatch h⟩
  · split
    · next hnonneg =>
      refine accepts_pure ⟨?_, fun length hlength => ?_⟩
      · rw [List.append_nil, Option.elim_some, lengthBytes, Int.toNat_of_nonneg hnonneg]
      · cases hlength
        have hgreatest : IntFormat.i32.greatest = 2147483647 := by decide
        simp only [IntFormat.contains, hgreatest, Bool.and_eq_true, decide_eq_true_eq] at hcontains
        unfold maxLength
        omega
    · exact accepts_throw _

/-- Behind a required prefix. -/
theorem Accepts.behindLength (name : String) {body : Nat → Reader β}
    (h : ∀ length, length ≤ maxLength →
      (body length).Accepts fun value rest => Spells value (lengthBytes length ++ rest)) :
    (readRequiredLength name >>= body).Accepts Spells := by
  have hlength : (readRequiredLength name).Accepts fun length bytes =>
      length ≤ maxLength ∧ bytes = lengthBytes length := by
    refine accepts_readLength.bind ?_
    rintro (_ | length) first ⟨rfl, hmax⟩
    · exact accepts_throw _
    · exact accepts_pure ⟨hmax length rfl, List.append_nil _⟩
  refine hlength.bind ?_
  rintro length first ⟨hmax, rfl⟩
  exact h length hmax

theorem Accepts.behindMarker {read : Reader β} (h : read.Accepts Spells) :
    read.behindMarker.Accepts (NullForm.marker.Spells Spells) := by
  refine .of_get fun offset => accepts_readByte.bind ?_
  rintro found first rfl
  split
  · next hnone =>
    rw [hnone]
    exact accepts_pure (List.append_nil _)
  · split
    · next hsome =>
      rw [hsome]
      exact h.map (f := some) (fun value bytes hspells => ⟨bytes, rfl, hspells⟩) fun _ => rfl
    · exact accepts_throw _

theorem Accepts.behindCount {body : Nat → Reader β}
    (h : ∀ length, length ≤ maxLength →
      (body length).Accepts fun value rest => Spells value (lengthBytes length ++ rest)) :
    (Reader.behindCount body).Accepts (NullForm.inBand.Spells Spells) := by
  refine accepts_readLength.bind ?_
  rintro (_ | length) first ⟨rfl, hmax⟩
  · exact accepts_pure (List.append_nil _)
  · exact (h length (hmax length rfl)).map (f := some)
      (fun value bytes hspells => ⟨_, rfl, hspells⟩) fun _ => rfl

/-- A text is read from its own bytes. -/
theorem accepts_readText (length : Nat) : (readText length).Accepts fun text bytes =>
    bytes = textBytes text ∧ bytes.length = length := by
  refine .of_get fun offset => (accepts_readBytes length).bind ?_
  rintro bytes first ⟨hlength, rfl⟩
  cases hdecode : Utf8.decode first with
  | error fault => exact accepts_throw _
  | ok text =>
    refine accepts_pure ?_
    rw [List.append_nil, textBytes, String.toList_ofList, Utf8.encode_of_decode hdecode]
    exact ⟨rfl, hlength⟩

end Reader

/-! ## 3. Codecs -/

/-- What a codec reads, as a value or as an optional one, it reads from bytes that spell it. -/
structure Codec.Accepts (codec : Codec α) (form : NullForm) (Spells : α → List UInt8 → Prop) :
    Prop where
  read : codec.read.Accepts Spells
  nullable : codec.nullable.read.Accepts (form.Spells Spells)

namespace Codec.Accepts

variable {Spells : α → List UInt8 → Prop}

/-- A codec that marks absence by a byte. -/
theorem of_marker {codec : Codec α} (hnullable : codec.nullable.read = codec.read.behindMarker)
    (h : codec.read.Accepts Spells) : codec.Accepts .marker Spells :=
  ⟨h, hnullable ▸ h.behindMarker⟩

/-- A codec that reads something behind a prefix. -/
theorem of_length {codec : Codec α} {name : String} {body : Nat → Reader α}
    (hread : codec.read = (readRequiredLength name >>= body))
    (hnullable : codec.nullable.read = .behindCount body)
    (h : ∀ length, length ≤ maxLength →
      (body length).Accepts fun value rest => Spells value (lengthBytes length ++ rest)) :
    codec.Accepts .inBand Spells :=
  ⟨hread ▸ .behindLength name h, hnullable ▸ .behindCount h⟩

theorem mono {codec : Codec α} {form : NullForm} {Spells' : α → List UInt8 → Prop}
    (h : codec.Accepts form Spells) (himp : ∀ value bytes, Spells value bytes → Spells' value bytes) :
    codec.Accepts form Spells' := by
  refine ⟨h.read.mono himp, h.nullable.mono ?_⟩
  rintro (_ | value) bytes hspells
  · exact hspells
  · obtain ⟨rest, hbytes, hrest⟩ := hspells
    exact ⟨rest, hbytes, himp value rest hrest⟩

/-- One case of a dynamic type. -/
theorem lift {codec : Codec α} {form : NullForm} (h : codec.Accepts form Spells) (case : Case α β)
    {Spells' : β → List UInt8 → Prop}
    (himp : ∀ value bytes, Spells value bytes → Spells' (case.wrap value) bytes) :
    (codec.lift case).Accepts form Spells' := by
  refine ⟨h.read.map himp fun _ => rfl, h.nullable.map (f := Option.map case.wrap) ?_ fun _ => rfl⟩
  rintro (_ | value) bytes hspells
  · exact hspells
  · obtain ⟨rest, rfl, hrest⟩ := hspells
    exact ⟨rest, rfl, himp value rest hrest⟩

/-- What a leaf holds, fits, and is read from its own bytes. -/
theorem leaf [DecimalForm] {kind : LeafKind} (hwidth : kind.HasWidth) (hdecimal : kind ≠ .decimal) :
    kind.codec.Accepts kind.nullForm fun value bytes =>
      kind.Holds value ∧ kind.fits value = true ∧ bytes = kind.wire value := by
  cases kind with
  | int format =>
    have hint : (Codec.int format).Accepts .marker _ := of_marker rfl (Reader.accepts_readInt hwidth)
    exact hint.lift Value.intCase fun n bytes h => ⟨h.1, rfl, h.2⟩
  | bits width =>
    have hbits : (Codec.bits width).Accepts .marker fun n bytes =>
        n < Nat.pow 256 width ∧ bytes = IntFormat.encode ⟨width, false⟩ n := by
      refine of_marker rfl ((Reader.accepts_readInt (by exact hwidth)).map (f := Int.toNat) ?_
        fun _ => rfl)
      rintro n bytes ⟨hcontains, rfl⟩
      have hback := Reader.toNat_of_contains hcontains
      rw [hback]
      refine ⟨?_, rfl⟩
      simp only [IntFormat.contains, IntFormat.greatest, IntFormat.modulus, Bool.false_eq_true,
        if_false, Bool.and_eq_true, decide_eq_true_eq] at hcontains
      omega
    exact hbits.lift Value.bitsCase fun n bytes h => ⟨h.1, rfl, h.2⟩
  | bool =>
    have hbool : Codec.bool.Accepts .marker fun b bytes =>
        bytes = IntFormat.u8.encode (if b then 1 else 0) := by
      refine of_marker rfl (.of_get fun offset => Reader.accepts_readByte.bind ?_)
      rintro found first rfl
      split
      · next hfalse =>
        rw [hfalse]
        exact Reader.accepts_pure (List.append_nil _)
      · split
        · next htrue =>
          rw [htrue]
          exact Reader.accepts_pure (List.append_nil _)
        · exact Reader.accepts_throw _
    exact hbool.lift Value.boolCase fun b bytes h => ⟨trivial, rfl, h⟩
  | char =>
    have hchar : Codec.char.Accepts .marker fun c bytes => bytes = IntFormat.u32.encode c.toNat := by
      refine of_marker rfl ((Reader.accepts_readInt (by decide)).bind ?_)
      rintro scalar first ⟨hcontains, rfl⟩
      split
      · next hvalid =>
        refine Reader.accepts_pure ?_
        have hval : (Char.ofNat scalar.toNat).toNat = scalar.toNat := Utf8.val_ofNat hvalid
        rw [List.append_nil, hval, Reader.toNat_of_contains hcontains]
      · exact Reader.accepts_throw _
    exact hchar.lift Value.charCase fun c bytes h => ⟨trivial, rfl, h⟩
  | text name =>
    have htext : (Codec.text name).Accepts .inBand fun text bytes =>
        (textBytes text).length ≤ maxLength ∧
          bytes = lengthBytes (textBytes text).length ++ textBytes text := by
      refine of_length rfl rfl fun length hmax => (Reader.accepts_readText length).mono ?_
      rintro text bytes ⟨rfl, rfl⟩
      exact ⟨hmax, rfl⟩
    exact htext.lift Value.textCase fun text bytes h => ⟨trivial, decide_eq_true h.1, h.2⟩
  | duration =>
    have hduration : Codec.duration.Accepts .marker fun n bytes =>
        IntFormat.u64.contains n = true ∧ bytes = IntFormat.u64.encode n := by
      refine of_marker rfl ((Reader.accepts_readInt (by decide)).map (f := Int.toNat) ?_
        fun _ => rfl)
      rintro n bytes ⟨hcontains, rfl⟩
      rw [Reader.toNat_of_contains hcontains]
      exact ⟨hcontains, rfl⟩
    exact hduration.lift Value.natCase fun n bytes h => ⟨Int.natCast_nonneg n, h.1, h.2⟩
  | instant =>
    have hinstant : Codec.instant.Accepts .marker _ :=
      of_marker rfl (Reader.accepts_readInt (by decide))
    exact hinstant.lift Value.intCase fun n bytes h => ⟨trivial, h.1, h.2⟩
  | decimal => exact absurd rfl hdecimal

/-- A variant is read from its own bytes. -/
theorem enumeration (e : Enumeration) : e.codec.Accepts .marker fun n bytes =>
    (∃ v ∈ e.variants, v.discriminant = n) ∧
      bytes = e.repr.format.encode (e.repr.format.wrap n) := by
  refine of_marker rfl ((Reader.accepts_readInt e.repr.size_pos).bind ?_)
  rintro n first ⟨-, rfl⟩
  cases hfound : e.variantOf? n with
  | none => exact Reader.accepts_throw _
  | some v =>
    have hmem := List.mem_of_find?_eq_some hfound
    have hwrap := List.find?_some hfound
    refine Reader.accepts_pure ⟨⟨v, hmem, rfl⟩, ?_⟩
    rw [List.append_nil, eq_of_beq hwrap]

theorem option {inner : Codec α} {form : NullForm} (h : inner.Accepts form Spells) :
    (Codec.option inner).Accepts .marker (form.Spells Spells) :=
  of_marker rfl h.nullable

/-- The spellings of a run of items behind its count. -/
def Counted (Spells : α → List UInt8 → Prop) (items : List α) (bytes : List UInt8) : Prop :=
  items.length ≤ maxLength ∧ ∃ parts, List.Forall₂ Spells items parts ∧
    bytes = lengthBytes items.length ++ parts.flatten

theorem items {element : Codec α} {form : NullForm} (h : element.Accepts form Spells) {count : Nat}
    (hmax : count ≤ maxLength) : (readItems element.read count).Accepts fun items rest =>
      items.length = count ∧ Counted Spells items (lengthBytes count ++ rest) := by
  rw [readItems_eq_times]
  refine (h.read.times count).mono ?_
  rintro items rest ⟨rfl, parts, hparts, rfl⟩
  exact ⟨rfl, hmax, parts, hparts, rfl⟩

theorem sequence (kind : SequenceKind) {element : Codec α} {form : NullForm}
    (h : element.Accepts form Spells) :
    (Codec.sequence kind element).Accepts .inBand (Counted Spells) :=
  of_length rfl rfl fun _ hmax => (h.items hmax).mono fun _ _ hitems => hitems.2

theorem array (length : Nat) {element : Codec α} {form : NullForm}
    (h : element.Accepts form Spells) : (Codec.array length element).Accepts .inBand
      fun items bytes => items.length = length ∧ Counted Spells items bytes := by
  refine of_length rfl rfl fun count hmax => ?_
  unfold arrayBody
  split
  · exact Reader.accepts_throw _
  · next hcount =>
    rw [← Decidable.not_not.mp hcount]
    exact h.items hmax

end Codec.Accepts

end Wireform
