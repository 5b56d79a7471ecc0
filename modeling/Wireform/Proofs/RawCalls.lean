import Wireform.Proofs.Raw

/-!
# Raw calls at the cursor

Every codec is built from a few raw calls: bytes, numbers of a fixed width, and length prefixes.  A
raw call is atomic.  If the bytes that it takes lie in the buffer it moves the cursor over just them,
a write replaces just them, and a read makes its answer of them; if not, it reports an error and
leaves the buffer and the cursor as they were (`Behaves`).

There is one place where this fails.  The check in front of an access compares the number of bytes
with those that are left, so a call that takes no bytes passes it everywhere; past the end of the
buffer it is then an access out of bounds, though of no bytes.  Numbers and prefixes take some bytes,
so this concerns raw bytes only.
-/
namespace Wireform

/-! ## 1. Calls -/

/-- What a raw call answers. -/
inductive RawAnswer where
  | written
  | bytes (bytes : List UInt8)
  | number (n : Int)
  deriving DecidableEq, Repr

/-- A raw call at the cursor.  Numbers are of formats that have a width; a floating-point number is
its bit pattern, in an unsigned format. -/
inductive RawCall where
  | writeBytes (source : List UInt8)
  | readBytes (length : Nat)
  | writeNumber (format : IntFormat) (hwidth : 0 < format.width) (n : Int)
  | readNumber (format : IntFormat) (hwidth : 0 < format.width)
  | writeLength (length : Nat)
  | writeNullLength

/-- A reader that runs where a writer may: it leaves the buffer as it is. -/
def Reader.onOutput {α : Type} (reader : Reader α) : EStateM Failure Output α := fun out =>
  match reader out.buffer out.cursor with
  | .ok value cursor => .ok value { out with cursor := cursor }
  | .error failure cursor => .error failure { out with cursor := cursor }

namespace RawCall

/-- Carries the call out. -/
def run : RawCall → EStateM Failure Output RawAnswer
  | .writeBytes source => do
    Wireform.writeBytes source
    pure .written
  | .readBytes length => do
    let bytes ← (Wireform.readBytes length).onOutput
    pure (.bytes bytes)
  | .writeNumber format _ n => do
    writeInt format n
    pure .written
  | .readNumber format _ => do
    let n ← (readInt format).onOutput
    pure (.number n)
  | .writeLength length => do
    Wireform.writeLength length
    pure .written
  | .writeNullLength => do
    Wireform.writeNullLength
    pure .written

/-- How many bytes the call takes. -/
def width : RawCall → Nat
  | .writeBytes source => source.length
  | .readBytes length => length
  | .writeNumber format _ _ => format.width
  | .readNumber format _ => format.width
  | .writeLength _ => lengthPrefixSize
  | .writeNullLength => lengthPrefixSize

/-- Whether there are bytes for what is to be written: only a length may be too large. -/
def Encodable : RawCall → Prop
  | .writeLength length => length ≤ maxLength
  | _ => True

/-- What the bytes that a call takes have to do with the call and its answer. -/
def Carries : RawCall → RawAnswer → List UInt8 → Prop
  | .writeBytes source, answer, bytes => answer = .written ∧ bytes = source
  | .readBytes _, answer, bytes => answer = .bytes bytes
  | .writeNumber format _ n, answer, bytes => answer = .written ∧ bytes = format.encode n
  | .readNumber format _, answer, bytes => answer = .number (format.decode bytes)
  | .writeLength length, answer, bytes => answer = .written ∧ bytes = lengthBytes length
  | .writeNullLength, answer, bytes => answer = .written ∧ bytes = nullLengthBytes

/-- Whether the call writes. -/
def writes : RawCall → Bool
  | .readBytes _ => false
  | .readNumber _ _ => false
  | _ => true

/-- The report that the bytes which the call takes are not there. -/
def lack (call : RawCall) (out : Output) : WireError :=
  if call.writes then .bufferTooSmall call.width out.room out.cursor
  else .insufficientData call.width out.room out.cursor

/-- What is reported when the call cannot be served; a length that is too large comes first. -/
def refusal (call : RawCall) (out : Output) : WireError :=
  match call with
  | .writeLength length =>
    if length ≤ maxLength then call.lack out else .encode (.lengthTooLarge length)
  | _ => call.lack out

/-- The call has been served: the cursor has moved over the bytes that it takes, to a place in the
buffer, they carry what was asked for, and the others are as they were; a read changes none. -/
structure Serves (call : RawCall) (out : Output) (answer : RawAnswer) (out' : Output) : Prop where
  cursor : out'.cursor = out.cursor + call.width
  inside : out'.cursor ≤ out'.buffer.length
  length : out'.buffer.length = out.buffer.length
  carries : call.Carries answer ((out'.buffer.drop out.cursor).take call.width)
  before : out'.buffer.take out.cursor = out.buffer.take out.cursor
  behind : out'.buffer.drop out'.cursor = out.buffer.drop out'.cursor
  kept : call.writes = false → out'.buffer = out.buffer

/-- All or nothing: the call is served, or it reports why not and changes nothing. -/
def Atomic (call : RawCall) (out : Output) : EStateM.Result Failure Output RawAnswer → Prop
  | .ok answer out' => call.Serves out answer out'
  | .error failure out' => out' = out ∧ failure = .wire (call.refusal out)

/-- The call takes no bytes, past the end of the buffer. -/
def TakesNonePastEnd (call : RawCall) (out : Output) : Prop :=
  (call = .writeBytes [] ∨ call = .readBytes 0) ∧ out.buffer.length < out.cursor

/-! ## 2. What a call does -/

/-- What a call does is settled by where the bytes lie that it takes. -/
structure Behaves (call : RawCall) (out : Output) : Prop where
  served : call.Encodable → out.cursor + call.width ≤ out.buffer.length →
    ∃ answer out', call.run out = .ok answer out' ∧ call.Serves out answer out'
  refused : ¬(call.Encodable ∧ out.cursor + call.width ≤ out.buffer.length) →
    ¬(call.width = 0 ∧ out.buffer.length < out.cursor) →
    call.run out = .error (.wire (call.refusal out)) out
  beyond : call.width = 0 → out.buffer.length < out.cursor →
    call.run out = .error .outOfBounds out

theorem bind_onOutput {α : Type} (reader : Reader α) (next : α → RawAnswer) (out : Output) :
    (do let value ← reader.onOutput; pure (next value) : EStateM Failure Output RawAnswer) out =
      match reader out.buffer out.cursor with
      | .ok value cursor => .ok (next value) { out with cursor := cursor }
      | .error failure cursor => .error failure { out with cursor := cursor } := by
  show EStateM.bind reader.onOutput _ out = _
  simp only [EStateM.bind, Reader.onOutput]
  cases reader out.buffer out.cursor <;> rfl

theorem bind_written (writer : Writer) (out : Output) :
    (do writer; pure .written : EStateM Failure Output RawAnswer) out =
      match writer out with
      | .ok _ out => .ok .written out
      | .error failure out => .error failure out := by
  show EStateM.bind writer _ out = _
  simp only [EStateM.bind]
  cases writer out <;> rfl

section

variable {call : RawCall} {out : Output}

theorem refusal_of_encodable (h : call.Encodable) : call.refusal out = call.lack out := by
  cases call with
  | writeLength length => exact if_pos h
  | _ => rfl

/-- Bytes that are put where they fit are served. -/
theorem serves_put {source : List UInt8} (hwidth : source.length = call.width)
    (hcarries : call.Carries .written source) (hwrites : call.writes = true)
    (hend : out.cursor + call.width ≤ out.buffer.length) :
    call.Serves out .written (out.put source) := by
  have hroom : source.length ≤ out.buffer.length - out.cursor := by omega
  have hlength := length_splice hroom
  obtain ⟨hholds, hbefore, hbehind⟩ := splice_around hroom
  have htake := hholds.take_eq
  rw [hwidth] at htake hbehind
  refine ⟨?_, ?_, hlength, ?_, hbefore, ?_, fun hreads => ?_⟩
  · simp [Output.put, hwidth]
  · simpa [Output.put, hlength, hwidth] using hend
  · simpa [Output.put, htake] using hcarries
  · simpa [Output.put, hwidth] using hbehind
  · simp [hwrites] at hreads

/-- A call that writes bytes which it has. -/
theorem behaves_of_writes {source : List UInt8} (hwidth : source.length = call.width)
    (hcarries : call.Carries .written source) (hwrites : call.writes = true)
    (hrun : call.run out = (do Wireform.writeBytes source; pure .written :
      EStateM Failure Output RawAnswer) out) (hencodable : call.Encodable) : call.Behaves out := by
  rw [bind_written, Writer.writeBytes_apply, hwidth, Output.room] at hrun
  refine ⟨fun _ hend => ?_, fun hout hinside => ?_, fun hnone hpast => ?_⟩
  · rw [if_neg (by omega), if_pos hend] at hrun
    exact ⟨_, _, hrun, serves_put hwidth hcarries hwrites hend⟩
  · have hshort : out.buffer.length - out.cursor < call.width := by
      have hend : ¬ out.cursor + call.width ≤ out.buffer.length := fun h => hout ⟨hencodable, h⟩
      omega
    rw [hrun, if_pos hshort, refusal_of_encodable hencodable, lack, if_pos hwrites]
    rfl
  · rw [if_neg (by omega), if_neg (by omega)] at hrun
    exact hrun

/-- A call that makes its answer of bytes which it reads. -/
theorem behaves_of_reads {answer : List UInt8 → RawAnswer}
    (hcarries : ∀ bytes, call.Carries (answer bytes) bytes)
    (hrun : call.run out = (do
      let bytes ← (Wireform.readBytes call.width).onOutput
      pure (answer bytes) : EStateM Failure Output RawAnswer) out) (hreads : call.writes = false)
    (hencodable : call.Encodable) : call.Behaves out := by
  rw [bind_onOutput, Reader.readBytes_apply] at hrun
  refine ⟨fun _ hend => ?_, fun hout hinside => ?_, fun hnone hpast => ?_⟩
  · rw [if_neg (by omega), if_pos hend] at hrun
    exact ⟨_, _, hrun, ⟨rfl, hend, rfl, hcarries _, rfl, rfl, fun _ => rfl⟩⟩
  · have hshort : out.buffer.length - out.cursor < call.width := by
      have hend : ¬ out.cursor + call.width ≤ out.buffer.length := fun h => hout ⟨hencodable, h⟩
      omega
    rw [hrun, if_pos hshort, refusal_of_encodable hencodable, lack, hreads]
    rfl
  · rw [if_neg (by omega), if_neg (by omega)] at hrun
    exact hrun

end

/-- A number is made of as many bytes as its format is wide. -/
theorem run_readNumber (format : IntFormat) (hwidth : 0 < format.width) (out : Output) :
    (RawCall.readNumber format hwidth).run out = (do
      let bytes ← (Wireform.readBytes format.width).onOutput
      pure (.number (format.decode bytes)) : EStateM Failure Output RawAnswer) out := by
  rw [run, bind_onOutput, bind_onOutput, readInt, Reader.bind_apply]
  cases Wireform.readBytes format.width out.buffer out.cursor <;> rfl

/-- Each raw call writes bytes which it has, reads some, or has none for a length. -/
theorem behaves (call : RawCall) (out : Output) : call.Behaves out := by
  cases call with
  | writeBytes source => exact behaves_of_writes rfl ⟨rfl, rfl⟩ rfl rfl trivial
  | readBytes length => exact behaves_of_reads (fun _ => rfl) rfl rfl trivial
  | writeNumber format hwidth n =>
    exact behaves_of_writes (format.length_encode n) ⟨rfl, rfl⟩ rfl rfl trivial
  | readNumber format hwidth =>
    exact behaves_of_reads (fun _ => rfl) (run_readNumber format hwidth out) rfl trivial
  | writeLength length =>
    by_cases hlength : length ≤ maxLength
    · refine behaves_of_writes (length_lengthBytes length) ⟨rfl, rfl⟩ rfl ?_ hlength
      rw [run, Wireform.writeLength, if_pos hlength]
      rfl
    · refine ⟨fun hencodable => absurd hencodable hlength, fun _ _ => ?_, fun hnone => ?_⟩
      · rw [run, Wireform.writeLength, if_neg hlength, refusal, if_neg hlength]
        rfl
      · cases hnone
  | writeNullLength => exact behaves_of_writes (by decide) ⟨rfl, rfl⟩ rfl rfl trivial

/-- Only raw bytes can be none. -/
theorem width_eq_zero_iff (call : RawCall) :
    call.width = 0 ↔ call = .writeBytes [] ∨ call = .readBytes 0 := by
  cases call with
  | writeNumber format hwidth n => simp [width, Nat.ne_of_gt hwidth]
  | readNumber format hwidth => simp [width, Nat.ne_of_gt hwidth]
  | _ => simp [width, lengthPrefixSize]

/-! ## 3. All or nothing -/

/-- **Raw calls are atomic, unless they take no bytes past the end.**  Exactly then a call is neither
served nor refused: it is an access out of bounds.  All other calls are served if what they write has
an encoding and the bytes that they take lie in the buffer, and change nothing otherwise. -/
theorem raw_calls_atomic_iff (call : RawCall) (out : Output) :
    (call.Atomic out (call.run out) ↔ ¬ call.TakesNonePastEnd out) ∧
      (call.TakesNonePastEnd out → call.run out = .error .outOfBounds out) ∧
      ((∃ answer out', call.run out = .ok answer out') ↔
        call.Encodable ∧ out.cursor + call.width ≤ out.buffer.length) := by
  have hbehaves := call.behaves out
  have hnone : call.TakesNonePastEnd out ↔ call.width = 0 ∧ out.buffer.length < out.cursor := by
    rw [TakesNonePastEnd, width_eq_zero_iff]
  rw [hnone]
  by_cases hserved : call.Encodable ∧ out.cursor + call.width ≤ out.buffer.length
  · obtain ⟨answer, out', hrun, hserves⟩ := hbehaves.served hserved.1 hserved.2
    have hinside : ¬(call.width = 0 ∧ out.buffer.length < out.cursor) := by omega
    rw [hrun]
    exact ⟨iff_of_true hserves hinside, fun h => absurd h hinside,
      iff_of_true ⟨answer, out', rfl⟩ hserved⟩
  · by_cases hpast : call.width = 0 ∧ out.buffer.length < out.cursor
    · rw [hbehaves.beyond hpast.1 hpast.2]
      refine ⟨iff_of_false ?_ (not_not_intro hpast), fun _ => rfl, iff_of_false ?_ hserved⟩
      · rintro ⟨-, hfailure⟩
        cases hfailure
      · rintro ⟨answer, out', hrun⟩
        cases hrun
    · rw [hbehaves.refused hserved hpast]
      refine ⟨iff_of_true ⟨rfl, rfl⟩ hpast, fun h => absurd h hpast, iff_of_false ?_ hserved⟩
      rintro ⟨answer, out', hrun⟩
      cases hrun

/-- One place past the end of three bytes, no bytes can be read or written. -/
theorem no_bytes_past_end :
    (RawCall.readBytes 0).run ⟨[0, 0, 0], 4⟩ = .error .outOfBounds ⟨[0, 0, 0], 4⟩ ∧
      (RawCall.writeBytes []).run ⟨[0, 0, 0], 4⟩ = .error .outOfBounds ⟨[0, 0, 0], 4⟩ ∧
      ¬(RawCall.readBytes 0).Atomic ⟨[0, 0, 0], 4⟩ ((RawCall.readBytes 0).run ⟨[0, 0, 0], 4⟩) ∧
      ¬(RawCall.writeBytes []).Atomic ⟨[0, 0, 0], 4⟩
        ((RawCall.writeBytes []).run ⟨[0, 0, 0], 4⟩) := by
  refine ⟨rfl, rfl, ?_, ?_⟩
  · rintro ⟨-, hfailure⟩
    cases hfailure
  · rintro ⟨-, hfailure⟩
    cases hfailure

end RawCall

end Wireform
