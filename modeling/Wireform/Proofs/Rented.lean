import Wireform.Proofs.Buckets
import Wireform.Proofs.Sizes
import Wireform.Proofs.Writers

/-!
# Writing into rented buffers

A rented buffer is as long as its bucket says, longer than the value needs more often than not, and
holds what was left in it.  Nothing of that shows in what `BufferPool.encode` returns: it is what
encoding into a new buffer of just the right size returns.

* If the value has an encoding, its bytes are put over what the buffer held, and the rest is cut
  off.
* If it has none, writing it fails in both buffers, and with one failure: a writer that fails in two
  places fails there in one way, unless it lacks room in one of them (`Writer.Settled`).  This is a
  statement about two runs, and goes from writers to what is made of them in sequence.
-/
namespace Wireform

variable {α : Type}

/-! ## 1. Two runs of a writer -/

/-- Whether a failure is for lack of room. -/
def Failure.IsLackOfRoom : Failure → Prop
  | .wire (.bufferTooSmall _ _ _) => True
  | .outOfBounds => True
  | _ => False

/-- Two runs of a writer end alike, as far as both have room. -/
def Writer.EndAlike :
    EStateM.Result Failure Output Unit → EStateM.Result Failure Output Unit → Prop
  | .ok _ _, .ok _ _ => True
  | .ok _ _, .error failure _ => failure.IsLackOfRoom
  | .error failure _, .ok _ _ => failure.IsLackOfRoom
  | .error failure _, .error failure' _ =>
    failure = failure' ∨ failure.IsLackOfRoom ∨ failure'.IsLackOfRoom

/-- Whether and how a writer fails does not depend on where it writes, as far as there is room. -/
def Writer.Settled (writer : Writer) : Prop :=
  ∀ out out', Writer.EndAlike (writer out) (writer out')

namespace Writer

theorem EndAlike.symm {first second : EStateM.Result Failure Output Unit}
    (h : EndAlike first second) : EndAlike second first := by
  cases first with
  | ok done out => cases second <;> exact h
  | error failure out =>
    cases second with
    | ok done out' => exact h
    | error failure' out' => exact h.imp Eq.symm Or.symm

/-- Nothing is asked of a run beside one that lacks room. -/
theorem EndAlike.of_lack {failure : Failure} (h : failure.IsLackOfRoom)
    (result : EStateM.Result Failure Output Unit) (out : Output) :
    EndAlike result (.error failure out) := by
  cases result with
  | ok done after => exact h
  | error other after => exact .inr (.inr h)

theorem settled_writeBytes (source : List UInt8) : (writeBytes source).Settled := by
  have hends : ∀ out, (∃ after, writeBytes source out = .ok () after) ∨
      ∃ failure, failure.IsLackOfRoom ∧ writeBytes source out = .error failure out := by
    intro out
    rw [writeBytes_apply]
    split
    · exact .inr ⟨_, by trivial, rfl⟩
    · split
      · exact .inl ⟨_, rfl⟩
      · exact .inr ⟨_, by trivial, rfl⟩
  intro out out'
  rcases hends out' with ⟨after', hwrite'⟩ | ⟨failure, hlack, hwrite'⟩
  · rcases hends out with ⟨after, hwrite⟩ | ⟨failure, hlack, hwrite⟩
    · rw [hwrite, hwrite']
      trivial
    · rw [hwrite]
      exact (EndAlike.of_lack hlack _ _).symm
  · rw [hwrite']
    exact .of_lack hlack _ _

/-- The second writer decides if the first one succeeds in both runs. -/
theorem Settled.bind {writer : Writer} {next : Unit → Writer} (h : writer.Settled)
    (hnext : (next ()).Settled) : Settled (writer >>= next) := by
  intro out out'
  have hends := h out out'
  rw [bind_apply, bind_apply]
  cases hwrite : writer out with
  | ok done after =>
    cases hwrite' : writer out' with
    | ok done' after' => exact hnext after after'
    | error failure' after' =>
      rw [hwrite, hwrite'] at hends
      exact .of_lack hends _ _
  | error failure after =>
    cases hwrite' : writer out' with
    | ok done' after' =>
      rw [hwrite, hwrite'] at hends
      exact (EndAlike.of_lack hends _ _).symm
    | error failure' after' => rwa [hwrite, hwrite'] at hends

theorem inherited_settled : Writer.Inherited Writer.Settled where
  pure := fun _ _ => trivial
  throw := fun _ _ _ => .inl rfl
  bytes := settled_writeBytes
  bind := Settled.bind

end Writer

/-! ## 2. Any buffer that is long enough -/

/-- **Where there is room, the buffer does not matter.**  What is written into a buffer, up to the
cursor, is what is encoded. -/
theorem Codec.Writes.encode_into {codec : Codec α} {form : NullForm} {value : α} {good : Prop}
    {bytes : List UInt8} (h : codec.Writes form value good bytes)
    (hsettled : (codec.write value).Settled) {buffer : Buffer}
    (hlength : codec.size value ≤ buffer.length) (typeName : String) :
    let written := Writer.run (codec.write value) buffer 0
    (written.outcome.map fun _ => written.output.buffer.take written.output.cursor) =
      codec.encode typeName value := by
  dsimp only
  have hroom : bytes.length ≤ (⟨buffer, 0⟩ : Output).room := h.size ▸ hlength
  by_cases hgood : good
  · rw [h.encode_eq hgood]
    unfold Writer.run
    rw [((h.puts ⟨buffer, 0⟩).emits hgood).fits hroom]
    have hput : (splice buffer 0 bytes).take (0 + bytes.length) = bytes := by
      unfold splice
      rw [List.take_zero, List.nil_append, Nat.zero_add, List.take_left]
    exact congrArg Except.ok hput
  · -- neither failure is for lack of room, so they are one
    obtain ⟨fault, out, -, hwrite⟩ := (h.puts ⟨buffer, 0⟩).refuses hgood hroom
    obtain ⟨fault', out', -, hwrite'⟩ :=
      (h.puts ⟨List.replicate bytes.length 0, 0⟩).refuses hgood (by simp [Output.room])
    have hends := hsettled ⟨buffer, 0⟩ ⟨List.replicate bytes.length 0, 0⟩
    rw [hwrite, hwrite'] at hends
    unfold encode Writer.run
    rw [h.size]
    dsimp only
    rw [hwrite, hwrite']
    rcases hends with hsame | hlack | hlack
    · exact congrArg Except.error hsame
    · exact hlack.elim
    · exact hlack.elim

/-! ## 3. Pools -/

namespace BufferPool

open Samples (chain chain_planned frameBytes frameValue frameValue_hasShape)

variable {catalogue : Catalogue}

/-- **Writing into a rented buffer is encoding.**  Whatever has been done with a pool, a value is
encoded into one of its buffers just as it is encoded into a new one, with the same bytes or the same
failure.  The bytes are those of the value, as many as its size says. -/
theorem encode_after [DecimalForm] (hplanned : catalogue.Planned) (sharing : Sharing Value)
    {shape : Shape} {value : Value} (h : catalogue.HasShape shape value) (specs : List BucketSpec)
    (calls : List Call) (typeName : String) :
    ((after specs calls).encode (catalogue.codecOf sharing shape) value).1 =
        (catalogue.codecOf sharing shape).encode typeName value ∧
      ∀ bytes, ((after specs calls).encode (catalogue.codecOf sharing shape) value).1 = .ok bytes →
        bytes = catalogue.wire shape value ∧
          bytes.length = (catalogue.codecOf sharing shape).size value := by
  have hwrites := hplanned.writes_codecOf sharing h
  have hsettled := (catalogue.writesWith Writer.inherited_settled sharing shape).write value
  have hlong := (classified_after specs calls).le_length_rent
    ((catalogue.codecOf sharing shape).size value)
  have hencode : ((after specs calls).encode (catalogue.codecOf sharing shape) value).1 =
      (catalogue.codecOf sharing shape).encode typeName value :=
    hwrites.encode_into hsettled hlong typeName
  refine ⟨hencode, fun bytes hbytes => ?_⟩
  obtain ⟨-, rfl⟩ := hwrites.of_encode (hencode.symm.trans hbytes)
  exact ⟨rfl, hwrites.size.symm⟩

/-- A frame is written over an old buffer of sevens, of which the pool has one. -/
theorem encode_after_dirty :
    let pool := after [⟨64, 1⟩] [.release (List.replicate 64 7) false]
    (chain.Planned ∧ chain.HasShape (.named "Frame") frameValue ∧
      (pool.rent frameBytes.length).1 = List.replicate 64 7) ∧
      (pool.encode (chain.codecOf Sharing.none (.named "Frame")) frameValue).1 =
        .ok frameBytes := by
  intro pool
  have hwire : chain.wire (.named "Frame") frameValue = frameBytes := by decide
  have hwrites := chain_planned.writes_codecOf Sharing.none frameValue_hasShape
  have hencode := hwrites.encode_eq (by decide) "Frame"
  rw [hwire] at hencode
  obtain ⟨hsame, -⟩ := encode_after chain_planned Sharing.none frameValue_hasShape [⟨64, 1⟩]
    [.release (List.replicate 64 7) false] "Frame"
  exact ⟨⟨chain_planned, frameValue_hasShape, by decide⟩, hsame.trans hencode⟩

end BufferPool

end Wireform
