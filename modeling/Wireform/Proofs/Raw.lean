import Wireform.Proofs.Numbers
import Wireform.Proofs.Reading
import Wireform.Proofs.Utf8
import Wireform.Proofs.Writing

/-!
# Raw bytes, numbers, prefixes and texts

What the operations at the cursor read and write.  All of them start with some bytes of their own,
and are sound at every position, except for the bytes of a text: behind a prefix of zero there are
none, and taking none is an access out of bounds past the end.  So a text is only ever looked at
behind its prefix, and `Reader.Local.behindLength` and its like say that this is enough.
-/
namespace Wireform

variable {α : Type}

/-! ## 1. Bytes in a buffer -/

/-- Bytes that fit stand where they were put, and those around them are left alone. -/
theorem splice_around {buffer : Buffer} {start : Nat} {bytes : List UInt8}
    (h : bytes.length ≤ buffer.length - start) : HoldsAt (splice buffer start bytes) start bytes ∧
      (splice buffer start bytes).take start = buffer.take start ∧
      (splice buffer start bytes).drop (start + bytes.length) =
        buffer.drop (start + bytes.length) := by
  rcases Nat.lt_or_ge buffer.length start with hpast | hinside
  · have hnil : bytes = [] := List.eq_nil_of_length_eq_zero (by omega)
    rw [hnil, splice_nil]
    exact ⟨holdsAt_nil _ _, rfl, rfl⟩
  · have htake : (buffer.take start).length = start := by
      rw [List.length_take]
      omega
    have hdrop : (splice buffer start bytes).drop start =
        bytes ++ buffer.drop (start + bytes.length) := List.drop_left' htake
    refine ⟨?_, List.take_left' htake, ?_⟩
    · unfold HoldsAt
      rw [hdrop]
      exact List.prefix_append _ _
    · rw [← List.drop_drop, hdrop, List.drop_left]

/-! ## 2. Prefixes -/

/-- The prefix that announces `length` items or bytes. -/
def lengthBytes (length : Nat) : List UInt8 := IntFormat.i32.encode length

/-- The prefix of null. -/
def nullLengthBytes : List UInt8 := IntFormat.i32.encode nullLength

@[simp] theorem length_lengthBytes (length : Nat) :
    (lengthBytes length).length = lengthPrefixSize :=
  IntFormat.length_encode _ _

theorem lengthBytes_ne_nil (length : Nat) : lengthBytes length ≠ [] := by
  rw [← List.length_pos_iff, length_lengthBytes]
  decide

/-- A length that a prefix holds is the one that is read back. -/
theorem wrap_length {length : Nat} (h : length ≤ maxLength) :
    IntFormat.i32.wrap length = length := by
  refine IntFormat.wrap_of_contains ?_
  have hleast : IntFormat.i32.least = -2147483648 := by decide
  have hgreatest : IntFormat.i32.greatest = 2147483647 := by decide
  unfold maxLength at h
  simp only [IntFormat.contains, hleast, hgreatest, Bool.and_eq_true, decide_eq_true_eq]
  omega

namespace Writer

theorem puts_writeByte (n : Nat) : (writeByte n).Puts True (IntFormat.u8.encode n) :=
  puts_writeInt (by decide) _

theorem puts_writeNullLength : writeNullLength.Puts True nullLengthBytes :=
  puts_writeInt (by decide) _

/-- A length is written if a prefix holds it, and refused otherwise. -/
theorem puts_writeLength (length : Nat) :
    (writeLength length).Puts (length ≤ maxLength) (lengthBytes length) := by
  intro out
  constructor
  · intro hgood
    rw [writeLength, if_pos hgood]
    exact (puts_writeInt (by decide) _ out).emits trivial
  · intro hbad _
    rw [writeLength, if_neg hbad]
    exact ⟨.lengthTooLarge length, out, trivial, rfl⟩

/-- A text is written behind its length, if a prefix holds that. -/
theorem puts_writeText (text : String) :
    (writeText text).Puts ((textBytes text).length ≤ maxLength)
      (lengthBytes (textBytes text).length ++ textBytes text) := by
  intro out
  have hbody : (writeText text).PutsAt ((textBytes text).length ≤ maxLength ∧ True)
      (lengthBytes (textBytes text).length ++ textBytes text) out := by
    refine (puts_writeLength _ out).bind fun _ hroom => ⟨fun _ => emitsAt_writeBytes (.inr ?_),
      fun hbad => absurd trivial hbad⟩
    simp only [Output.put, length_splice hroom, length_lengthBytes]
    rw [length_lengthBytes] at hroom
    unfold Output.room lengthPrefixSize at *
    omega
  exact ⟨fun hgood => hbody.emits ⟨hgood, trivial⟩, fun hbad => hbody.refuses fun h => hbad h.1⟩

end Writer

namespace Reader

/-! ## 3. Raw bytes -/

theorem readBytes_apply (length : Nat) (buffer : Buffer) (cursor : Nat) :
    readBytes length buffer cursor =
      if buffer.length - cursor < length then
        .error (.wire (.insufficientData length (buffer.length - cursor) cursor)) cursor
      else if cursor + length ≤ buffer.length then
        .ok ((buffer.drop cursor).take length) (cursor + length)
      else .error .outOfBounds cursor := by
  unfold readBytes
  rw [bind_apply]
  by_cases hroom : buffer.length - cursor < length
  · have hensure : ensureReadable length buffer cursor =
        .error (.wire (.insufficientData length (buffer.length - cursor) cursor)) cursor := by
      show (if buffer.length - cursor < length then _ else _ : Reader Unit) buffer cursor = _
      rw [if_pos hroom]
      rfl
    rw [hensure, if_pos hroom]
  · have hensure : ensureReadable length buffer cursor = .ok () cursor := by
      show (if buffer.length - cursor < length then _ else _ : Reader Unit) buffer cursor = _
      rw [if_neg hroom]
      rfl
    rw [hensure, if_neg hroom]
    show (if cursor + length ≤ buffer.length then _ else _ : Reader (List UInt8)) buffer cursor = _
    split <;> rfl

theorem yieldsAt_readBytes {bytes : List UInt8} {buffer : Buffer} {cursor : Nat}
    (h : bytes ≠ [] ∨ cursor ≤ buffer.length) :
    (readBytes bytes.length).YieldsAt bytes bytes buffer cursor := by
  constructor
  · intro hholds
    have hlength := hholds.length_le
    have hend : cursor + bytes.length ≤ buffer.length := by
      rcases h with hne | hcursor
      · exact hholds.end_le hne
      · omega
    rw [readBytes_apply, if_neg (by omega), if_pos hend, hholds.take_eq]
  · rintro ⟨hcursor, -, hends⟩
    refine ⟨bytes.length, buffer.length - cursor, cursor, ?_, by omega, by omega⟩
    rw [readBytes_apply, if_pos (by omega)]

theorem readBytes_eq_ok {length : Nat} {buffer : Buffer} {cursor stop : Nat} {bytes : List UInt8}
    (h : readBytes length buffer cursor = .ok bytes stop) :
    bytes.length = length ∧ stop = cursor + bytes.length ∧ stop ≤ buffer.length ∧
      HoldsAt buffer cursor bytes := by
  rw [readBytes_apply] at h
  split at h
  · cases h
  · split at h
    · next hend =>
      cases h
      have hlength : ((buffer.drop cursor).take length).length = length := by
        rw [List.length_take, List.length_drop]
        omega
      exact ⟨hlength, by rw [hlength], hend, holdsAt_take _ _ _⟩
    · cases h

theorem steadyAt_readBytes {length : Nat} {buffer : Buffer} {cursor : Nat}
    (h : 0 < length ∨ cursor ≤ buffer.length) :
    (readBytes length).SteadyAt (readBytes length) buffer cursor := by
  refine ⟨.refl _, ?_⟩
  rw [readBytes_apply]
  split
  · exact ⟨⟨Nat.le_refl _, Nat.le_max_left _ _⟩, _, rfl⟩
  · rw [if_pos (by omega)]
    exact ⟨by omega, by omega⟩

theorem sound_readBytes {length : Nat} (h : 0 < length) : (readBytes length).Sound := by
  refine ⟨fun buffer cursor => steadyAt_readBytes (.inl h), fun buffer cursor bytes stop hread => ?_⟩
  obtain ⟨hlength, hstop, -, hholds⟩ := readBytes_eq_ok hread
  have hne : bytes ≠ [] := by
    rw [← List.length_pos_iff, hlength]
    exact h
  refine ⟨bytes, hstop, hholds, fun buffer' cursor' => ?_⟩
  have hyields : (readBytes bytes.length).YieldsAt bytes bytes buffer' cursor' :=
    yieldsAt_readBytes (.inl hne)
  rwa [hlength] at hyields

/-! ## 4. Numbers -/

theorem sound_readInt {format : IntFormat} (h : 0 < format.width) : (readInt format).Sound :=
  (sound_readBytes h).bind fun _ => sound_pure _

/-- **A number is read back wrapped to its format.** -/
theorem yields_readInt {format : IntFormat} (h : 0 < format.width) (n : Int) :
    (readInt format).Yields (format.wrap n) (format.encode n) := by
  have hlength := format.length_encode n
  have hne : format.encode n ≠ [] := by
    rw [← List.length_pos_iff, hlength]
    exact h
  intro buffer cursor
  have hbytes : (readBytes (format.encode n).length).YieldsAt _ _ buffer cursor :=
    yieldsAt_readBytes (.inl hne)
  rw [hlength] at hbytes
  exact hbytes.map (by rw [format.decode_encode])

theorem readInt_eq_ok {format : IntFormat} {buffer : Buffer} {cursor stop : Nat} {n : Int}
    (h : readInt format buffer cursor = .ok n stop) :
    stop = cursor + format.width ∧ stop ≤ buffer.length := by
  obtain ⟨bytes, middle, hbytes, hrest⟩ := bind_eq_ok h
  obtain ⟨hlength, hstop, hend, -⟩ := readBytes_eq_ok hbytes
  cases hrest
  exact ⟨by omega, hend⟩

theorem sound_readByte : readByte.Sound :=
  (sound_readInt (by decide)).bind fun _ => sound_pure _

theorem yields_readByte {n : Nat} (h : n < 256) : readByte.Yields n (IntFormat.u8.encode n) := by
  refine (yields_readInt (by decide) _).map ?_
  have hcontains : IntFormat.u8.contains n = true := IntFormat.contains_natCast (by simpa using h)
  rw [IntFormat.wrap_of_contains hcontains]
  rfl

theorem readByte_eq_ok {buffer : Buffer} {cursor stop n : Nat}
    (h : readByte buffer cursor = .ok n stop) : stop = cursor + 1 ∧ stop ≤ buffer.length := by
  obtain ⟨i, middle, hint, hrest⟩ := bind_eq_ok h
  cases hrest
  exact readInt_eq_ok hint

/-! ## 5. Reading behind a prefix -/

theorem sound_readLength : readLength.Sound := by
  refine (sound_readInt (by decide)).reporting fun length => ?_
  by_cases hnull : length = nullLength
  · exact .inl ⟨pure none, sound_pure _, fun _ => if_pos hnull⟩
  · by_cases hnonneg : 0 ≤ length
    · exact .inl ⟨pure (some length.toNat), sound_pure _, fun _ => by
        rw [if_neg hnull, if_pos hnonneg]⟩
    · exact .inr fun offset => ⟨.invalidLength length offset, by
        rw [if_neg hnull, if_neg hnonneg]⟩

theorem yields_readLength {length : Nat} (h : length ≤ maxLength) :
    readLength.Yields (some length) (lengthBytes length) := by
  refine .of_get fun offset => (yields_readInt (by decide) _).map ?_
  have hnull : (length : Int) ≠ nullLength := by
    unfold nullLength
    omega
  rw [wrap_length h, if_neg hnull, if_pos (by omega), Int.toNat_natCast]

theorem yields_readLength_null : readLength.Yields none nullLengthBytes := by
  refine .of_get fun offset => (yields_readInt (by decide) _).map ?_
  rw [IntFormat.wrap_of_contains (by decide), if_pos rfl]

theorem readLength_eq_ok {buffer : Buffer} {cursor stop : Nat} {length : Option Nat}
    (h : readLength buffer cursor = .ok length stop) :
    cursor < stop ∧ stop ≤ buffer.length := by
  unfold readLength at h
  rw [get_bind_apply] at h
  obtain ⟨n, middle, hint, hrest⟩ := bind_eq_ok h
  obtain ⟨hmiddle, hend⟩ := readInt_eq_ok hint
  have hwidth : IntFormat.i32.width = 4 := rfl
  have hstop : stop = middle := by
    split at hrest
    · cases hrest
      rfl
    · split at hrest
      · cases hrest
        rfl
      · cases hrest
  omega

theorem readRequiredLength_eq_ok {name : String} {buffer : Buffer} {cursor stop length : Nat}
    (h : readRequiredLength name buffer cursor = .ok length stop) :
    cursor < stop ∧ stop ≤ buffer.length := by
  obtain ⟨found, middle, hfound, hrest⟩ := bind_eq_ok h
  cases found with
  | none => cases hrest
  | some n =>
    cases hrest
    exact readLength_eq_ok hfound

theorem sound_readRequiredLength (name : String) : (readRequiredLength name).Sound := by
  refine sound_readLength.bind fun length => ?_
  cases length with
  | none => exact sound_throw _
  | some length => exact sound_pure _

theorem yields_readRequiredLength (name : String) {length : Nat} (h : length ≤ maxLength) :
    (readRequiredLength name).Yields length (lengthBytes length) :=
  (yields_readLength h).map rfl

/-- The name that an unexpected null would be reported under is all that tells two required
prefixes apart. -/
theorem alike_readRequiredLength (name name' : String) (buffer : Buffer) (cursor : Nat) :
    Reading.Alike (readRequiredLength name buffer cursor)
      (readRequiredLength name' buffer cursor) := by
  unfold readRequiredLength
  rw [bind_apply, bind_apply]
  cases readLength buffer cursor with
  | error failure stop => exact .refl _
  | ok length stop =>
    cases length with
    | some length => exact .refl _
    | none => exact ⟨.inr ⟨name, name', rfl, rfl⟩, rfl⟩

/-- What is read behind a required prefix is read locally if it is so in front of the end. -/
theorem Local.behindLength (name : String) {body : Nat → Reader α}
    (h : ∀ length, (body length).LocalInside) : (readRequiredLength name >>= body).Local :=
  (sound_readRequiredLength name).isLocal.bind_inside
    (fun _ _ _ _ hread => (readRequiredLength_eq_ok hread).1) h

theorem Yields.behindLength (name : String) {body : Nat → Reader α} {length : Nat} {value : α}
    {rest : List UInt8} (hlength : length ≤ maxLength)
    (h : (body length).YieldsInside value rest) :
    (readRequiredLength name >>= body).Yields value (lengthBytes length ++ rest) :=
  (yields_readRequiredLength name hlength).bind_inside (lengthBytes_ne_nil length) h

theorem SteadyAt.behindLength (name : String) {body body' : Nat → Reader α} {buffer : Buffer}
    {cursor : Nat} (h : ∀ length stop, cursor < stop → stop ≤ buffer.length →
      (body length).SteadyAt (body' length) buffer stop) :
    (readRequiredLength name >>= body).SteadyAt (readRequiredLength name >>= body')
      buffer cursor := by
  refine ((sound_readRequiredLength name).steady buffer cursor).bind fun length stop hread _ _ => ?_
  obtain ⟨hlt, hend⟩ := readRequiredLength_eq_ok hread
  exact h length stop hlt hend

/-! ## 6. Texts -/

theorem yieldsInside_readText {bytes : List UInt8} {text : List Char}
    (h : Utf8.decode bytes = .ok text) :
    (readText bytes.length).YieldsInside (String.ofList text) bytes := by
  intro buffer cursor hcursor
  refine .of_get ((yieldsAt_readBytes (.inr hcursor)).map ?_)
  rw [h]

theorem localInside_readText (length : Nat) : (readText length).LocalInside := by
  intro buffer cursor _ value stop hread
  unfold readText at hread
  rw [get_bind_apply] at hread
  obtain ⟨bytes, middle, hbytes, hrest⟩ := bind_eq_ok hread
  obtain ⟨hlength, hmiddle, -, hholds⟩ := readBytes_eq_ok hbytes
  cases hdecode : Utf8.decode bytes with
  | error fault =>
    rw [hdecode] at hrest
    cases hrest
  | ok text =>
    rw [hdecode] at hrest
    cases hrest
    refine ⟨bytes, hmiddle, hholds, ?_⟩
    have hyields := yieldsInside_readText hdecode
    rwa [hlength] at hyields

theorem steadyAt_readText (length : Nat) {buffer : Buffer} {cursor : Nat}
    (h : cursor ≤ buffer.length) :
    (readText length).SteadyAt (readText length) buffer cursor := by
  refine .of_get ((steadyAt_readBytes (.inr h)).bind fun bytes stop _ _ _ => ?_)
  cases Utf8.decode bytes with
  | ok text => exact steadyAt_pure _ _ _
  | error fault => exact steadyAt_throw _ _ _

end Reader

end Wireform
