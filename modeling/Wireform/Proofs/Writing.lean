import Wireform.Codec.Basic

/-!
# What a writer puts into a buffer

A writer is judged by the bytes that it puts at the cursor.  `Writer.EmitsAt writer bytes out` says
that it puts just `bytes` there if there is room for them, and otherwise reports the lack of room
after it has put some beginning of them.  A value that has no encoding is refused:
`Writer.RefusesAt writer size out` says that with room for `size` bytes the writer fails with an
encode fault, other than the one of a writer that disagrees with its own announcement.

`Writer.PutsAt writer good bytes out` joins the two, with `good` for the values that have an
encoding.  It is closed under running one writer after another.
-/
namespace Wireform

/-! ## 1. Putting bytes at the cursor -/

namespace Output

/-- How many bytes fit between the cursor and the end. -/
def room (out : Output) : Nat := out.buffer.length - out.cursor

/-- The output with `bytes` put at the cursor. -/
def put (out : Output) (bytes : List UInt8) : Output :=
  ⟨splice out.buffer out.cursor bytes, out.cursor + bytes.length⟩

end Output

theorem splice_nil (buffer : Buffer) (start : Nat) : splice buffer start [] = buffer := by
  simp [splice]

theorem length_splice {buffer : Buffer} {start : Nat} {bytes : List UInt8}
    (h : bytes.length ≤ buffer.length - start) :
    (splice buffer start bytes).length = buffer.length := by
  simp only [splice, List.length_append, List.length_take, List.length_drop]
  omega

/-- Two stretches put one behind the other are one stretch. -/
theorem splice_splice {buffer : Buffer} {start : Nat} {first rest : List UInt8}
    (h : start + first.length ≤ buffer.length) :
    splice (splice buffer start first) (start + first.length) rest =
      splice buffer start (first ++ rest) := by
  have htake : (buffer.take start).length = start := by
    rw [List.length_take]
    omega
  unfold splice
  rw [← List.append_assoc (buffer.take start)]
  have hhead : ((buffer.take start) ++ first).length = start + first.length := by
    rw [List.length_append, htake]
  rw [← hhead, List.take_left, ← List.drop_drop, List.drop_left, List.drop_drop, hhead,
    List.length_append]
  simp [Nat.add_assoc]

@[simp] theorem Output.put_nil (out : Output) : out.put [] = out := by
  simp [Output.put, splice_nil]

theorem Output.room_put {out : Output} {bytes : List UInt8} (h : bytes.length ≤ out.room) :
    (out.put bytes).room = out.room - bytes.length := by
  unfold Output.room at h
  simp only [Output.room, Output.put, length_splice h]
  omega

theorem Output.put_put {out : Output} {first rest : List UInt8}
    (hfirst : first.length ≤ out.room) : (out.put first).put rest = out.put (first ++ rest) := by
  rcases List.eq_nil_or_concat first with rfl | ⟨_, _, hne⟩
  · rw [Output.put_nil, List.nil_append]
  · have hpos : 0 < first.length := by simp [hne]
    unfold Output.room at hfirst
    simp only [Output.put, Output.mk.injEq, List.length_append, Nat.add_assoc, and_true]
    exact splice_splice (by omega)

/-! ## 2. Emitting and refusing -/

/-- Whether a fault lies in the value that was to be written, not in its writer. -/
def EncodeFault.IsLimit : EncodeFault → Prop
  | .sizeMismatch _ _ _ => False
  | _ => True

namespace Writer

theorem bind_apply (writer : Writer) (next : Unit → Writer) (out : Output) :
    (writer >>= next) out =
      match writer out with
      | .ok _ out => next () out
      | .error failure out => .error failure out := by
  show EStateM.bind writer next out = _
  simp only [EStateM.bind]
  cases writer out <;> rfl

theorem bind_of_ok {writer : Writer} {next : Unit → Writer} {out out' : Output}
    (h : writer out = .ok () out') : (writer >>= next) out = next () out' := by
  rw [bind_apply, h]

theorem bind_of_error {writer : Writer} {next : Unit → Writer} {out out' : Output}
    {failure : Failure} (h : writer out = .error failure out') :
    (writer >>= next) out = .error failure out' := by
  rw [bind_apply, h]

/-- The writer puts `bytes` at the cursor if they fit there; otherwise it puts a beginning of them
and reports the lack of room. -/
structure EmitsAt (writer : Writer) (bytes : List UInt8) (out : Output) : Prop where
  fits : bytes.length ≤ out.room → writer out = .ok () (out.put bytes)
  short : out.room < bytes.length → ∃ count needed available, count ≤ out.room ∧
    available < needed ∧ writer out =
      .error (.wire (.bufferTooSmall needed available (out.cursor + count)))
        (out.put (bytes.take count))

/-- With room for `size` bytes the writer fails because of the value. -/
def RefusesAt (writer : Writer) (size : Nat) (out : Output) : Prop :=
  size ≤ out.room → ∃ fault out', fault.IsLimit ∧
    writer out = .error (.wire (.encode fault)) out'

/-- The writer emits `bytes` if the value is good, and refuses it otherwise. -/
structure PutsAt (writer : Writer) (good : Prop) (bytes : List UInt8) (out : Output) : Prop where
  emits : good → writer.EmitsAt bytes out
  refuses : ¬ good → writer.RefusesAt bytes.length out

/-- The writer emits `bytes`, wherever it is run, if the value is good, and refuses it
otherwise. -/
def Puts (writer : Writer) (good : Prop) (bytes : List UInt8) : Prop :=
  ∀ out, writer.PutsAt good bytes out

theorem EmitsAt.bind {writer : Writer} {next : Unit → Writer} {first rest : List UInt8}
    {out : Output} (h : writer.EmitsAt first out)
    (hnext : first.length ≤ out.room → (next ()).EmitsAt rest (out.put first)) :
    EmitsAt (writer >>= next) (first ++ rest) out := by
  constructor
  · intro hfits
    rw [List.length_append] at hfits
    have hfirst : first.length ≤ out.room := by omega
    rw [bind_of_ok (h.fits hfirst), (hnext hfirst).fits, Output.put_put hfirst]
    rw [Output.room_put hfirst]
    omega
  · intro hshort
    rw [List.length_append] at hshort
    rcases Nat.lt_or_ge out.room first.length with hcut | hfirst
    · obtain ⟨count, needed, available, hcount, hlt, hwrite⟩ := h.short hcut
      refine ⟨count, needed, available, hcount, hlt, ?_⟩
      rw [bind_of_error hwrite, List.take_append_of_le_length (by omega)]
    · have hroom := Output.room_put hfirst
      obtain ⟨count, needed, available, hcount, hlt, hwrite⟩ :=
        (hnext hfirst).short (by omega)
      refine ⟨first.length + count, needed, available, by omega, hlt, ?_⟩
      rw [bind_of_ok (h.fits hfirst), hwrite, Output.put_put hfirst, List.take_length_add_append,
        Output.put, Nat.add_assoc]

/-- **Putting is sequential.**  The second writer is needed only behind the first one's bytes. -/
theorem PutsAt.bind {writer : Writer} {next : Unit → Writer} {good good' : Prop}
    {first rest : List UInt8} {out : Output} (h : writer.PutsAt good first out)
    (hnext : good → first.length ≤ out.room → (next ()).PutsAt good' rest (out.put first)) :
    PutsAt (writer >>= next) (good ∧ good') (first ++ rest) out := by
  constructor
  · rintro ⟨hgood, hgood'⟩
    exact (h.emits hgood).bind fun hfirst => (hnext hgood hfirst).emits hgood'
  · intro hbad hroom
    rw [List.length_append] at hroom
    by_cases hgood : good
    · have hfirst : first.length ≤ out.room := by omega
      have hbad' : ¬ good' := fun hgood' => hbad ⟨hgood, hgood'⟩
      obtain ⟨fault, out', hlimit, hwrite⟩ :=
        (hnext hgood hfirst).refuses hbad' (by rw [Output.room_put hfirst]; omega)
      refine ⟨fault, out', hlimit, ?_⟩
      rw [bind_of_ok ((h.emits hgood).fits hfirst), hwrite]
    · obtain ⟨fault, out', hlimit, hwrite⟩ := h.refuses hgood (by omega)
      exact ⟨fault, out', hlimit, bind_of_error hwrite⟩

theorem Puts.bind {writer : Writer} {next : Unit → Writer} {good good' : Prop}
    {first rest : List UInt8} (h : writer.Puts good first) (hnext : (next ()).Puts good' rest) :
    Puts (writer >>= next) (good ∧ good') (first ++ rest) :=
  fun out => (h out).bind fun _ _ => hnext _

theorem puts_pure : Puts (pure ()) True [] := by
  refine fun out => ⟨fun _ => ⟨fun _ => ?_, fun hshort => ?_⟩, fun hbad => absurd trivial hbad⟩
  · rw [Output.put_nil]
    rfl
  · simp at hshort

/-- Whether a value is good may be said in other words. -/
theorem Puts.congr {writer : Writer} {good good' : Prop} {bytes : List UInt8}
    (h : writer.Puts good bytes) (hiff : good ↔ good') : writer.Puts good' bytes :=
  fun out => ⟨fun hgood => (h out).emits (hiff.mpr hgood), fun hbad =>
    (h out).refuses fun hgood => hbad (hiff.mp hgood)⟩

/-! ## 3. Raw bytes -/

theorem writeBytes_apply (source : List UInt8) (out : Output) :
    writeBytes source out =
      if out.room < source.length then
        .error (.wire (.bufferTooSmall source.length out.room out.cursor)) out
      else if out.cursor + source.length ≤ out.buffer.length then .ok () (out.put source)
      else .error .outOfBounds out := by
  unfold writeBytes
  rw [bind_apply]
  by_cases hroom : out.room < source.length
  · have hensure : ensureWritable source.length out =
        .error (.wire (.bufferTooSmall source.length out.room out.cursor)) out := by
      show (if out.room < source.length then _ else _ : Writer) out = _
      rw [if_pos hroom]
      rfl
    rw [hensure, if_pos hroom]
  · have hensure : ensureWritable source.length out = .ok () out := by
      show (if out.room < source.length then _ else _ : Writer) out = _
      rw [if_neg hroom]
      rfl
    rw [hensure, if_neg hroom]
    show (if out.cursor + source.length ≤ out.buffer.length then _ else _ : Writer) out = _
    split <;> rfl

/-- Raw bytes are put where there are some, and none of them where the cursor is not past the
end. -/
theorem emitsAt_writeBytes {source : List UInt8} {out : Output}
    (h : source ≠ [] ∨ out.cursor ≤ out.buffer.length) :
    (writeBytes source).EmitsAt source out := by
  rw [← List.length_pos_iff] at h
  constructor
  · intro hfits
    have hbound : out.cursor + source.length ≤ out.buffer.length := by
      unfold Output.room at hfits
      omega
    rw [writeBytes_apply, if_neg (by omega), if_pos hbound]
  · intro hshort
    refine ⟨0, source.length, out.room, Nat.zero_le _, hshort, ?_⟩
    rw [writeBytes_apply, if_pos hshort, List.take_zero, Output.put_nil, Nat.add_zero]

theorem puts_writeBytes {source : List UInt8} (h : source ≠ []) :
    (writeBytes source).Puts True source :=
  fun _ => ⟨fun _ => emitsAt_writeBytes (.inl h), fun hbad => absurd trivial hbad⟩

theorem puts_writeInt {format : IntFormat} (h : 0 < format.width) (n : Int) :
    (writeInt format n).Puts True (format.encode n) :=
  puts_writeBytes (by rw [← List.length_pos_iff, format.length_encode]; exact h)

end Writer

end Wireform
