import Mathlib.Data.List.Induction
import Wireform.Proofs.NullBits

/-!
# A bitset is a map from slots

Of a bitset that starts empty and is marked by calls, each slot answers what it was told last, and
present if it was told nothing: the bitset is a finite map from its slots to whether they are null,
and a call updates it at one place (`isNull?_of_on?`).  The bytes are that map bit by bit, eight
slots to a byte.  And the map survives the wire: written wherever there is room for its bytes, it is
read back from there, and the bytes around it are left alone.

A bitset without bytes has no slots.  It is written and read at every cursor, also past the end of
the buffer, where there is room for nothing.
-/
namespace Wireform

namespace NullBitset

variable {size : Nat}

/-! ## 1. Calls -/

/-- A call that marks a slot. -/
inductive Call where
  | setNull (slot : Nat)
  | clear (slot : Nat)
  | set (slot : Nat) (isNull : Bool)
  deriving DecidableEq, Repr

namespace Call

/-- The slot that is marked. -/
def slot : Call → Nat
  | .setNull slot => slot
  | .clear slot => slot
  | .set slot _ => slot

/-- What the slot is told. -/
def isNull : Call → Bool
  | .setNull _ => true
  | .clear _ => false
  | .set _ isNull => isNull

/-- The bitset after the call; `none` when the slot has no position. -/
def on? (call : Call) (bits : NullBitset size) : Option (NullBitset size) :=
  match call with
  | .setNull slot => bits.setNull? slot
  | .clear slot => bits.clear? slot
  | .set slot isNull => bits.set? slot isNull

/-- The slot that is marked is one of a bitset of `size` bytes. -/
def HasPlace (size : Nat) (call : Call) : Prop := 1 ≤ call.slot ∧ call.slot ≤ 8 * size

/-- All calls are calls that set a slot to what it is told. -/
theorem on?_eq_set? (call : Call) (bits : NullBitset size) :
    call.on? bits = bits.set? call.slot call.isNull := by
  cases call <;> rfl

end Call

/-- The bitset after some calls on an empty one. -/
def after? (size : Nat) (calls : List Call) : Option (NullBitset size) :=
  calls.foldlM (fun bits call => call.on? bits) empty

/-- What a slot was told last; a slot that was told nothing is not null. -/
def lastTold (calls : List Call) (slot : Nat) : Bool :=
  ((calls.reverse.find? fun call => call.slot = slot).map Call.isNull).getD false

/-- Only the last call on a slot counts. -/
theorem lastTold_concat (calls : List Call) (call : Call) (slot : Nat) :
    lastTold (calls ++ [call]) slot = if slot = call.slot then call.isNull else lastTold calls slot := by
  rcases eq_or_ne slot call.slot with rfl | hne
  · simp [lastTold]
  · simp [lastTold, hne.symm, hne]

/-- **A call updates the map at one place.** -/
theorem isNull?_of_on? {call : Call} {bits marked : NullBitset size} (h : call.on? bits = some marked)
    (slot : Nat) :
    marked.isNull? slot = if slot = call.slot then some call.isNull else bits.isNull? slot := by
  rw [Call.on?_eq_set?] at h
  exact isNull?_of_set? h slot

/-- **A slot answers what it was told last.**  All calls are carried out if their slots are slots of
the bitset. -/
theorem after?_answers {calls : List Call} (h : ∀ call ∈ calls, call.HasPlace size) :
    ∃ bits : NullBitset size, after? size calls = some bits ∧
      ∀ slot, 1 ≤ slot → slot ≤ 8 * size → bits.isNull? slot = some (lastTold calls slot) := by
  induction calls using List.reverseRecOn with
  | nil => exact ⟨empty, rfl, fun slot hpos hle => isNull?_empty ⟨hpos, hle⟩⟩
  | append_singleton calls call ih =>
    rcases List.forall_mem_append.mp h with ⟨hcalls, hcall⟩
    obtain ⟨bits, hbits, hanswers⟩ := ih hcalls
    obtain ⟨marked, hmarked⟩ := set?_isSome bits call.isNull (hcall call List.mem_cons_self)
    rw [← Call.on?_eq_set?] at hmarked
    refine ⟨marked, ?_, ?_⟩
    · unfold after? at hbits ⊢
      simp [hbits, hmarked]
    · intro slot hpos hle
      rw [isNull?_of_on? hmarked, lastTold_concat, hanswers slot hpos hle]
      split <;> rfl

/-! ## 2. On the wire -/

/-- What writing a bitset at a cursor and reading it from there comes to: the bytes of the bitset
stand there, the others are as they were, and both have moved the cursor behind them. -/
structure Crosses (bits : NullBitset size) (buffer : Buffer) (cursor : Nat) (written : Buffer) :
    Prop where
  write : bits.write ⟨buffer, cursor⟩ = .ok () ⟨written, cursor + size⟩
  read : (NullBitset.read : Reader (NullBitset size)) written cursor = .ok bits (cursor + size)
  holds : HoldsAt written cursor bits.toBytes
  length : written.length = buffer.length
  before : written.take cursor = buffer.take cursor
  behind : written.drop (cursor + size) = buffer.drop (cursor + size)

theorem exists_crosses (bits : NullBitset size) {buffer : Buffer} {cursor : Nat}
    (h : size ≤ buffer.length - cursor) : ∃ written, bits.Crosses buffer cursor written := by
  have hlength := bits.length_toBytes
  have hroom : bits.toBytes.length ≤ buffer.length - cursor := hlength.trans_le h
  obtain ⟨hholds, hbefore, hbehind⟩ := splice_around hroom
  have hwrite := ((bits.puts_write ⟨buffer, cursor⟩).emits trivial).fits hroom
  have hread := (bits.yields_read (splice buffer cursor bits.toBytes) cursor).whole hholds
  rw [Output.put, hlength] at hwrite
  rw [hlength] at hread hbehind
  exact ⟨_, hwrite, hread, hholds, length_splice hroom, hbefore, hbehind⟩

/-! ## 3. The map -/

/-- **A bitset is a map from its slots.**  However it was marked, if only at its slots: all calls are
carried out, and then every slot answers what it was told last, or that it is not null if it was told
nothing; in the bytes the bit of a slot is set exactly if it is null; and wherever there is room for
the bytes, writing and reading them gives back the bitset and leaves all other bytes alone. -/
theorem marked_bitset_is_map {calls : List Call} (h : ∀ call ∈ calls, call.HasPlace size) :
    ∃ bits : NullBitset size, after? size calls = some bits ∧ bits.toBytes.length = size ∧
      (∀ slot, 1 ≤ slot → slot ≤ 8 * size → bits.isNull? slot = some (lastTold calls slot) ∧
        ∃ byte, bits.toBytes[(slot - 1) / 8]? = some byte ∧
          byte.toNat.testBit ((slot - 1) % 8) = lastTold calls slot) ∧
      ∀ (buffer : Buffer) (cursor : Nat), size ≤ buffer.length - cursor →
        ∃ written, bits.Crosses buffer cursor written := by
  obtain ⟨bits, hbits, hanswers⟩ := after?_answers h
  refine ⟨bits, hbits, bits.length_toBytes, ?_, fun buffer cursor => bits.exists_crosses⟩
  intro slot hpos hle
  have hanswer := hanswers slot hpos hle
  obtain ⟨byte, hget, hbit⟩ := bits.toBytes_bit ⟨hpos, hle⟩
  exact ⟨hanswer, byte, hget, Option.some.inj (hbit.symm.trans hanswer)⟩

/-- Slots on both sides of a byte boundary, one of them told twice, in a bitset that is written
between other bytes. -/
theorem marked_bitset_is_map_pair :
    let calls : List Call := [.setNull 8, .set 9 true, .clear 8, .setNull 16, .set 1 false]
    (∀ call ∈ calls, call.HasPlace 2) ∧
      ∃ bits : NullBitset 2, after? 2 calls = some bits ∧ bits.toBytes = [0, 129] ∧
        bits.isNull? 8 = some false ∧ bits.isNull? 9 = some true ∧
        bits.Crosses [1, 2, 3, 4, 5] 2 [1, 2, 0, 129, 5] := by
  intro calls
  have hplaces : ∀ call ∈ calls, call.HasPlace 2 := by simp [calls, Call.HasPlace, Call.slot]
  obtain ⟨bits, hbits, -, hslots, hcrosses⟩ := marked_bitset_is_map hplaces
  have hbytes : bits.toBytes = [0, 129] := by
    cases hbits
    rfl
  obtain ⟨written, hwritten⟩ := hcrosses [1, 2, 3, 4, 5] 2 (by decide)
  have hput : written = [1, 2, 0, 129, 5] := by
    cases hbits
    cases hwritten.write
    rfl
  exact ⟨hplaces, bits, hbits, hbytes, (hslots 8 (by decide) (by decide)).1,
    (hslots 9 (by decide) (by decide)).1, hput ▸ hwritten⟩

end NullBitset

end Wireform
