import Wireform.NullBitset
import Wireform.Proofs.Raw

/-!
# Nullability bits

Marking a slot changes the bit of that slot and no other, so a bitset that has been marked slot by
slot answers for every slot what it was told last; with different slots, what it was told.  The
bytes of a bitset hold the bit of each slot (`toBytes_bit`) and are read back as the bitset.  Only
the slots that are marked say anything: bits that belong to no slot are clear in what is written,
and may be anything in what is read.
-/
namespace Wireform

namespace NullBitset

variable {size : Nat}

/-! ## 1. Marks -/

theorem position?_of_le {slot : Nat} (h : 1 ≤ slot ∧ slot ≤ 8 * size) :
    position? size slot = some (slot - 1) := if_pos h

/-- **Marking a slot is local.**  The marked slot answers what it was told, every other slot what
it answered before. -/
theorem isNull?_of_set? {set marked : NullBitset size} {slot : Nat} {isNull : Bool}
    (h : set.set? slot isNull = some marked) (other : Nat) :
    marked.isNull? other = if other = slot then some isNull else set.isNull? other := by
  by_cases hslot : 1 ≤ slot ∧ slot ≤ 8 * size
  · have hposition := position?_of_le hslot
    by_cases hother : 1 ≤ other ∧ other ≤ 8 * size
    · have hposition' := position?_of_le hother
      have hlt : slot - 1 < 8 * size := by omega
      have hlt' : other - 1 < 8 * size := by omega
      have hsame : slot - 1 = other - 1 ↔ other = slot := by omega
      cases isNull with
      | true =>
        simp only [set?, if_true, setNull?, hposition, Option.bind_eq_bind, Option.bind_some,
          Option.pure_def, Option.some.injEq] at h
        subst h
        simp only [isNull?, hposition', Option.bind_eq_bind, Option.bind_some, Option.pure_def,
          BitVec.getLsbD_or, BitVec.getLsbD_twoPow]
        split <;> simp_all
      | false =>
        simp only [set?, Bool.false_eq_true, if_false, clear?, hposition, Option.bind_eq_bind,
          Option.bind_some, Option.pure_def, Option.some.injEq] at h
        subst h
        simp only [isNull?, hposition', Option.bind_eq_bind, Option.bind_some, Option.pure_def,
          BitVec.getLsbD_and, BitVec.getLsbD_not, BitVec.getLsbD_twoPow]
        split <;> simp_all
    · have hposition' : position? size other = none := if_neg hother
      have hne : other ≠ slot := by
        rintro rfl
        exact hother hslot
      simp [isNull?, hposition', hne]
  · have hposition : position? size slot = none := if_neg hslot
    cases isNull <;> simp [set?, setNull?, clear?, hposition] at h

/-- A slot that has a position can be marked. -/
theorem set?_isSome (set : NullBitset size) {slot : Nat} (isNull : Bool)
    (h : 1 ≤ slot ∧ slot ≤ 8 * size) : ∃ marked, set.set? slot isNull = some marked := by
  have hposition := position?_of_le h
  cases isNull
  · exact ⟨_, by simp [set?, clear?, hposition]; rfl⟩
  · exact ⟨_, by simp [set?, setNull?, hposition]; rfl⟩

/-- A slot that has a position has an answer. -/
theorem isNull?_isSome (set : NullBitset size) {slot : Nat} (h : 1 ≤ slot ∧ slot ≤ 8 * size) :
    ∃ isNull, set.isNull? slot = some isNull :=
  ⟨set.bits.getLsbD (slot - 1), by simp [isNull?, position?_of_le h]⟩

theorem isNull?_empty {slot : Nat} (h : 1 ≤ slot ∧ slot ≤ 8 * size) :
    (empty : NullBitset size).isNull? slot = some false := by
  simp [isNull?, position?_of_le h, empty]

/-- Slots in order, all of which have a position, can be marked one after the other: each answers
what it was told, and slots before them what they answered before. -/
theorem foldlM_set? {marks : List (Nat × Bool)} (set : NullBitset size)
    (horder : marks.Pairwise fun a b => a.1 < b.1)
    (hrange : ∀ mark ∈ marks, 1 ≤ mark.1 ∧ mark.1 ≤ 8 * size) :
    ∃ marked, marks.foldlM (fun set mark => set.set? mark.1 mark.2) set = some marked ∧
      (∀ mark ∈ marks, marked.isNull? mark.1 = some mark.2) ∧
      ∀ slot, (∀ mark ∈ marks, slot < mark.1) → marked.isNull? slot = set.isNull? slot := by
  induction marks generalizing set with
  | nil => exact ⟨set, rfl, by simp, by simp⟩
  | cons mark rest ih =>
    rw [List.pairwise_cons] at horder
    obtain ⟨first, hfirst⟩ := set?_isSome set mark.2 (hrange mark List.mem_cons_self)
    have hfirst' := isNull?_of_set? hfirst
    obtain ⟨marked, hmarked, htold, hbefore⟩ :=
      ih first horder.2 fun m hm => hrange m (List.mem_cons_of_mem _ hm)
    refine ⟨marked, ?_, ?_, ?_⟩
    · rw [List.foldlM_cons, hfirst]
      exact hmarked
    · intro m hm
      rcases List.mem_cons.mp hm with rfl | hm
      · rw [hbefore m.1 horder.1, hfirst', if_pos rfl]
      · exact htold m hm
    · intro slot hslot
      have hlt := hslot mark List.mem_cons_self
      rw [hbefore slot fun m hm => hslot m (List.mem_cons_of_mem _ hm), hfirst',
        if_neg (by omega)]

/-- **A bitset answers what it was told.** -/
theorem ofMarks?_answers {marks : List (Nat × Bool)}
    (horder : marks.Pairwise fun a b => a.1 < b.1)
    (hrange : ∀ mark ∈ marks, 1 ≤ mark.1 ∧ mark.1 ≤ 8 * size) :
    ∃ set : NullBitset size, ofMarks? marks = some set ∧
      ∀ mark ∈ marks, set.isNull? mark.1 = some mark.2 := by
  obtain ⟨set, hset, htold, -⟩ := foldlM_set? empty horder hrange
  exact ⟨set, hset, htold⟩

/-! ## 2. Bytes -/

/-- **The bytes of a bitset are read back as the bitset.** -/
theorem ofBytes_toBytes (set : NullBitset size) : ofBytes set.toBytes = set := by
  have hpow : Nat.pow 256 size = 2 ^ (8 * size) := by
    rw [Nat.pow_mul]
    rfl
  have hlt : set.bits.toNat < Nat.pow 256 size := by
    rw [hpow]
    exact set.bits.isLt
  unfold ofBytes toBytes
  rw [ofLittleEndian_littleEndian, Nat.mod_eq_of_lt hlt, BitVec.ofNat_toNat, BitVec.setWidth_eq]

/-- Bytes that are read as a bitset are its bytes. -/
theorem toBytes_ofBytes {bytes : List UInt8} (hlength : bytes.length = size) :
    (ofBytes bytes : NullBitset size).toBytes = bytes := by
  subst hlength
  have hbound := ofLittleEndian_lt bytes
  have hpow : Nat.pow 256 bytes.length = 2 ^ (8 * bytes.length) := by
    rw [Nat.pow_mul]
    rfl
  unfold toBytes ofBytes
  rw [BitVec.toNat_ofNat, Nat.mod_eq_of_lt (hpow ▸ hbound), littleEndian_ofLittleEndian]

theorem toBytes_ne_nil (set : NullBitset size) (h : size ≠ 0) : set.toBytes ≠ [] := by
  rw [← List.length_pos_iff, length_toBytes]
  omega

/-- A bitset without bytes holds nothing. -/
theorem eq_empty (set : NullBitset size) (h : size = 0) : set = empty := by
  subst h
  obtain ⟨bits⟩ := set
  rw [NullBitset.mk.injEq]
  exact BitVec.of_length_zero

theorem puts_write (set : NullBitset size) : set.write.Puts True set.toBytes := by
  by_cases hsize : size = 0
  · subst hsize
    exact Writer.puts_pure
  · rw [write, if_neg hsize]
    exact Writer.puts_writeBytes (set.toBytes_ne_nil hsize)

theorem yields_read (set : NullBitset size) :
    (read : Reader (NullBitset size)).Yields set set.toBytes := by
  unfold read
  by_cases hsize : size = 0
  · rw [if_pos hsize, set.eq_empty hsize]
    subst hsize
    exact Reader.yields_pure _
  · rw [if_neg hsize]
    intro buffer cursor
    have hbytes : (readBytes set.toBytes.length).YieldsAt set.toBytes set.toBytes buffer cursor :=
      Reader.yieldsAt_readBytes (.inl (set.toBytes_ne_nil hsize))
    rw [length_toBytes] at hbytes
    exact hbytes.map (by rw [ofBytes_toBytes])

theorem sound_read : (read : Reader (NullBitset size)).Sound := by
  unfold read
  by_cases hsize : size = 0
  · rw [if_pos hsize]
    exact Reader.sound_pure _
  · rw [if_neg hsize]
    exact (Reader.sound_readBytes (by omega)).bind fun _ => Reader.sound_pure _

/-- A bitset that has bytes is read from inside the buffer. -/
theorem read_eq_ok {buffer : Buffer} {cursor stop : Nat} {set : NullBitset size}
    (hsize : size ≠ 0)
    (h : (read : Reader (NullBitset size)) buffer cursor = .ok set stop) :
    cursor < stop ∧ stop ≤ buffer.length := by
  unfold read at h
  rw [if_neg hsize] at h
  obtain ⟨bytes, middle, hbytes, hrest⟩ := Reader.bind_eq_ok h
  obtain ⟨hlength, hstop, hend, -⟩ := Reader.readBytes_eq_ok hbytes
  cases hrest
  omega

/-- Eight slots make a byte. -/
theorem toBytes_bit (set : NullBitset size) {slot : Nat} (h : 1 ≤ slot ∧ slot ≤ 8 * size) :
    ∃ byte, set.toBytes[(slot - 1) / 8]? = some byte ∧
      set.isNull? slot = some (byte.toNat.testBit ((slot - 1) % 8)) := by
  obtain ⟨byte, hget, hbit, -⟩ :=
    littleEndian_or_two_pow set.bits.toNat (show slot - 1 < 8 * size by omega)
  refine ⟨byte, hget, ?_⟩
  simp only [isNull?, position?_of_le h, Option.bind_eq_bind, Option.bind_some, Option.pure_def]
  rw [hbit]
  rfl

/-- Marking a slot as null sets its bit, which said before whether it was null. -/
theorem toBytes_of_setNull? {set marked : NullBitset size} {slot : Nat}
    (h : set.setNull? slot = some marked) : ∃ byte,
      set.toBytes[(slot - 1) / 8]? = some byte ∧
        set.isNull? slot = some (byte.toNat.testBit ((slot - 1) % 8)) ∧
        marked.toBytes =
          set.toBytes.set ((slot - 1) / 8) (byte ||| UInt8.ofNat (2 ^ ((slot - 1) % 8))) := by
  by_cases hslot : 1 ≤ slot ∧ slot ≤ 8 * size
  · have hposition := position?_of_le hslot
    have hlt : slot - 1 < 8 * size := by omega
    simp only [setNull?, hposition, Option.bind_eq_bind, Option.bind_some, Option.pure_def,
      Option.some.injEq] at h
    subst h
    obtain ⟨byte, hget, hbit⟩ := set.toBytes_bit hslot
    obtain ⟨byte', hget', -, hset⟩ := littleEndian_or_two_pow set.bits.toNat hlt
    obtain rfl : byte' = byte := Option.some.inj (hget'.symm.trans hget)
    have hpow : (BitVec.twoPow (8 * size) (slot - 1)).toNat = 2 ^ (slot - 1) := by
      rw [BitVec.toNat_twoPow]
      exact Nat.mod_eq_of_lt (Nat.pow_lt_pow_right (by decide) hlt)
    refine ⟨byte', hget, hbit, ?_⟩
    unfold toBytes
    rw [BitVec.toNat_or, hpow, hset]
  · have hposition : position? size slot = none := if_neg hslot
    simp [setNull?, hposition] at h

/-! ## 3. What a bitset says -/

/-- A slot that is not marked keeps its answer. -/
theorem isNull?_of_foldlM_set? {marks : List (Nat × Bool)} {set marked : NullBitset size}
    (h : marks.foldlM (fun set mark => set.set? mark.1 mark.2) set = some marked) {slot : Nat}
    (hslot : ∀ mark ∈ marks, mark.1 ≠ slot) : marked.isNull? slot = set.isNull? slot := by
  induction marks generalizing set with
  | nil =>
    cases h
    rfl
  | cons mark rest ih =>
    rw [List.foldlM_cons, Option.bind_eq_bind, Option.bind_eq_some_iff] at h
    obtain ⟨first, hfirst, hrest⟩ := h
    have hne := hslot mark List.mem_cons_self
    rw [ih hrest fun m hm => hslot m (List.mem_cons_of_mem _ hm), isNull?_of_set? hfirst,
      if_neg hne.symm]

/-- A slot that answers alike in two bitsets still does so when the same slots are marked in both. -/
theorem isNull?_congr_of_foldlM_set? {marks : List (Nat × Bool)}
    {first second marked marked' : NullBitset size}
    (h : marks.foldlM (fun set mark => set.set? mark.1 mark.2) first = some marked)
    (h' : marks.foldlM (fun set mark => set.set? mark.1 mark.2) second = some marked') {slot : Nat}
    (hslot : first.isNull? slot = second.isNull? slot) :
    marked.isNull? slot = marked'.isNull? slot := by
  induction marks generalizing first second with
  | nil =>
    cases h
    cases h'
    exact hslot
  | cons mark rest ih =>
    rw [List.foldlM_cons, Option.bind_eq_bind, Option.bind_eq_some_iff] at h h'
    obtain ⟨next, hnext, hrest⟩ := h
    obtain ⟨next', hnext', hrest'⟩ := h'
    refine ih hrest hrest' ?_
    rw [isNull?_of_set? hnext, isNull?_of_set? hnext', hslot]

/-- Bitsets that answer alike are the same. -/
theorem ext_isNull? {first second : NullBitset size}
    (h : ∀ slot, 1 ≤ slot → slot ≤ 8 * size → first.isNull? slot = second.isNull? slot) :
    first = second := by
  obtain ⟨first⟩ := first
  obtain ⟨second⟩ := second
  rw [NullBitset.mk.injEq]
  refine BitVec.eq_of_getLsbD_eq fun i hi => ?_
  have hslot := h (i + 1) (by omega) (by omega)
  have hposition : position? size (i + 1) = some i := position?_of_le (by omega)
  simpa [isNull?, hposition] using hslot

/-- The slots that are null in both. -/
def meet (first second : NullBitset size) : NullBitset size := ⟨first.bits &&& second.bits⟩

theorem toBytes_meet (first second : NullBitset size) : (first.meet second).toBytes =
    List.zipWith (· &&& ·) first.toBytes second.toBytes := by
  unfold toBytes meet
  rw [BitVec.toNat_and, littleEndian_and]

theorem isNull?_meet {first second : NullBitset size} {slot : Nat} {isNull isNull' : Bool}
    (h : first.isNull? slot = some isNull) (h' : second.isNull? slot = some isNull') :
    (first.meet second).isNull? slot = some (isNull && isNull') := by
  by_cases hslot : 1 ≤ slot ∧ slot ≤ 8 * size
  · have hposition := position?_of_le hslot
    simp only [isNull?, hposition, Option.bind_eq_bind, Option.bind_some, Option.pure_def,
      Option.some.injEq] at h h' ⊢
    rw [meet, BitVec.getLsbD_and, h, h']
  · have hposition : position? size slot = none := if_neg hslot
    simp [isNull?, hposition] at h

/-- **Only the marked slots of a bitset say anything.**  A bitset that answers the marks is the
bitset of the marks, but for slots that have no mark. -/
theorem ofMarks?_eq_meet {marks : List (Nat × Bool)} (horder : marks.Pairwise fun a b => a.1 < b.1)
    (hrange : ∀ mark ∈ marks, 1 ≤ mark.1 ∧ mark.1 ≤ 8 * size) {set : NullBitset size}
    (hset : ∀ mark ∈ marks, set.isNull? mark.1 = some mark.2) : ∃ all : NullBitset size,
      ofMarks? (marks.map fun mark => (mark.1, true)) = some all ∧
        ofMarks? marks = some (set.meet all) := by
  have horder' : (marks.map fun mark => (mark.1, true)).Pairwise fun a b => a.1 < b.1 :=
    List.pairwise_map.mpr horder
  have hrange' : ∀ mark ∈ marks.map fun mark => (mark.1, true),
      1 ≤ mark.1 ∧ mark.1 ≤ 8 * size := List.forall_mem_map.mpr hrange
  obtain ⟨own, hown, htold⟩ := ofMarks?_answers horder hrange
  obtain ⟨all, hall, htold'⟩ := ofMarks?_answers horder' hrange'
  refine ⟨all, hall, hown.trans (congrArg some (ext_isNull? fun slot hpos hle => ?_))⟩
  obtain ⟨isNull, hslot⟩ := set.isNull?_isSome ⟨hpos, hle⟩
  by_cases hmark : ∃ mark ∈ marks, mark.1 = slot
  · obtain ⟨mark, hmem, rfl⟩ := hmark
    have htrue : all.isNull? mark.1 = some true :=
      htold' (mark.1, true) (List.mem_map.mpr ⟨mark, hmem, rfl⟩)
    rw [htold mark hmem, isNull?_meet (hset mark hmem) htrue, Bool.and_true]
  · have hother : ∀ mark ∈ marks, mark.1 ≠ slot := fun mark hmem heq => hmark ⟨mark, hmem, heq⟩
    have hother' : ∀ mark ∈ marks.map fun mark => (mark.1, true), mark.1 ≠ slot :=
      List.forall_mem_map.mpr hother
    have hempty : (empty : NullBitset size).isNull? slot = some false := isNull?_empty ⟨hpos, hle⟩
    have hfalse := (isNull?_of_foldlM_set? hall hother').trans hempty
    rw [isNull?_of_foldlM_set? hown hother, hempty, isNull?_meet hslot hfalse, Bool.and_false]

end NullBitset

end Wireform
