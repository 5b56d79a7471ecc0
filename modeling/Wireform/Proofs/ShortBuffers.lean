import Wireform.Proofs.RoundTrip

/-!
# Buffers that are too short

A buffer may end before the bytes of a value do.  Then reading the value reports the missing data,
and writing it reports the lack of room, and neither has any other way to fail:

* `truncation_detected`: a beginning of the bytes of a value, at the end of any buffer, is read as
  missing data, whether afresh or over a value.  The bytes in front of the cut are read as they would
  be in the whole encoding (`YieldsAt.cut`), so no other check can fail before the one that meets the
  end of the buffer;
* `write_bounded`: a value is written just if there is room for all of its bytes; otherwise some
  beginning of them has been written, up to the cursor.  The rest of the buffer is left alone.
-/
namespace Wireform

/-! ## 1. Truncated input -/

/-- A read ends with a report of missing data: what is left behind the cursor is less than what was
needed there. -/
def Reading.IsTruncated {α : Type} (buffer : Buffer) (result : Reading α) : Prop :=
  ∃ needed available offset,
    result = .error (.wire (.insufficientData needed available offset)) offset ∧
      offset + available = buffer.length ∧ available < needed

/-- What is alike to a report of missing data is the same report. -/
theorem Reading.IsTruncated.of_alike {α : Type} {buffer : Buffer} {first second : Reading α}
    (h : Reading.IsTruncated buffer first) (halike : Reading.Alike first second) :
    Reading.IsTruncated buffer second := by
  obtain ⟨needed, available, offset, rfl, hrest⟩ := h
  refine ⟨needed, available, offset, ?_, hrest⟩
  cases second with
  | ok value stop => exact halike.elim
  | error failure stop =>
    obtain ⟨hsame | ⟨a, b, ha, hb⟩, rfl⟩ := halike
    · rw [← hsame]
    · cases ha

/-- A buffer that ends with a beginning of some bytes ends inside them. -/
theorem endsInside_append_take (before : List UInt8) {bytes : List UInt8} {count : Nat}
    (h : count < bytes.length) : EndsInside (before ++ bytes.take count) before.length bytes := by
  refine ⟨by simp, ?_, ?_⟩
  · rw [List.drop_left]
    exact List.take_prefix _ _
  · rw [List.length_append, List.length_take]
    omega

/-! ## 2. Bounded output -/

/-- A writer of `bytes` has come as far as the cursor of `out'`: a beginning of `bytes` stands
between the cursors, and the rest of the buffer is as it was. -/
structure Output.Progresses (bytes : List UInt8) (out out' : Output) : Prop where
  forward : out.cursor ≤ out'.cursor
  bounded : out'.cursor ≤ out.cursor + bytes.length
  length : out'.buffer.length = out.buffer.length
  written : (out'.buffer.drop out.cursor).take (out'.cursor - out.cursor) =
    bytes.take (out'.cursor - out.cursor)
  before : out'.buffer.take out.cursor = out.buffer.take out.cursor
  behind : out'.buffer.drop out'.cursor = out.buffer.drop out'.cursor

/-- Putting a beginning of the bytes is progress. -/
theorem Output.progresses_put (bytes : List UInt8) {out : Output} {count : Nat}
    (hroom : count ≤ out.room) (hcount : count ≤ bytes.length) :
    Output.Progresses bytes out (out.put (bytes.take count)) := by
  have hlength : (bytes.take count).length = count := List.length_take_of_le hcount
  have hfits : (bytes.take count).length ≤ out.buffer.length - out.cursor := hlength.trans_le hroom
  obtain ⟨hholds, hbefore, hbehind⟩ := splice_around hfits
  have hcursor : (out.put (bytes.take count)).cursor = out.cursor + count :=
    congrArg (out.cursor + ·) hlength
  have htook := hholds.take_eq
  rw [hlength] at hbehind htook
  refine ⟨by omega, by omega, length_splice hfits, ?_, hbefore, ?_⟩
  · rw [hcursor, Nat.add_sub_cancel_left]
    exact htook
  · rw [hcursor]
    exact hbehind

/-! ## 3. Catalogues -/

namespace Catalogue

open Samples (chain chain_planned chain_closed chain_grounded frameBytes frameValue
  frameValue_hasShape linkBytes linkValue linkValue_hasShape)

variable {catalogue : Catalogue} (sharing : Sharing Value)

/-- **Truncation is always detected.**  Of the bytes of a value let only a beginning stand at the end
of a buffer.  Reading it ends with a report of the missing data, where the cursor is left: needed was
more than what is available from there to the end.  Reading it over a value ends in the same way. -/
theorem truncation_detected [DecimalForm] (hplanned : catalogue.Planned) (hclosed : catalogue.Closed)
    (hgrounded : catalogue.Grounded) {shape : Shape} (hknows : catalogue.Knows shape)
    {value : Value} (h : catalogue.HasShape shape value) {typeName : String} {bytes : Buffer}
    (hencode : (catalogue.codecOf sharing shape).encode typeName value = .ok bytes) {count : Nat}
    (hcount : count < bytes.length) (before : Buffer) :
    Reading.IsTruncated (before ++ bytes.take count)
        ((catalogue.codecOf sharing shape).read (before ++ bytes.take count) before.length) ∧
      ∀ target, catalogue.HasShape shape target →
        Reading.IsTruncated (before ++ bytes.take count)
          ((catalogue.codecOf sharing shape).overwrite target (before ++ bytes.take count)
            before.length).toResult := by
  obtain ⟨hfits, rfl⟩ := (hplanned.writes_codecOf sharing h).of_encode hencode
  have hends := endsInside_append_take before hcount
  generalize before ++ (catalogue.wire shape value).take count = buffer at hends ⊢
  generalize before.length = cursor at hends ⊢
  -- with enough nestings for the buffer and for the value the bytes are read as some value
  obtain ⟨value', hreads, -⟩ := hplanned.exists_readsBack sharing h hfits
    (Nat.le_max_left value.height (catalogue.nestingsOf buffer))
  have hsteady := hplanned.steady sharing hclosed hgrounded hknows buffer cursor
    (Nat.le_max_right value.height (catalogue.nestingsOf buffer))
  have hcut : Reading.IsTruncated buffer ((catalogue.codecOf sharing shape).read buffer cursor) :=
    .of_alike ((hreads.read buffer cursor).cut hends) hsteady.alike.symm
  refine ⟨hcut, fun target htarget => hcut.of_alike ?_⟩
  exact (hplanned.agrees sharing (catalogue.nestingsOf buffer) htarget.isTarget buffer cursor).symm

/-- A frame that is cut inside the number of its first link. -/
theorem truncation_detected_frame :
    (chain.Planned ∧ chain.Closed ∧ chain.Grounded ∧ chain.Knows (.named "Frame") ∧
      chain.HasShape (.named "Frame") frameValue ∧
      (chain.codecOf Sharing.none (.named "Frame")).encode "Frame" frameValue = .ok frameBytes ∧
      10 < frameBytes.length) ∧
      Reading.IsTruncated ([7, 7] ++ frameBytes.take 10)
        ((chain.codecOf Sharing.none (.named "Frame")).read ([7, 7] ++ frameBytes.take 10) 2) ∧
      Reading.IsTruncated ([7, 7] ++ frameBytes.take 10)
        ((chain.codecOf Sharing.none (.named "Frame")).overwrite frameValue
          ([7, 7] ++ frameBytes.take 10) 2).toResult := by
  have hknows : chain.Knows (.named "Frame") := by
    intro name hname
    rw [List.mem_singleton.mp hname]
    exact ⟨_, rfl⟩
  have hwire : chain.wire (.named "Frame") frameValue = frameBytes := by decide
  have hwrites := chain_planned.writes_codecOf Sharing.none frameValue_hasShape
  have hencode := hwrites.encode_eq (by decide) "Frame"
  rw [hwire] at hencode
  have hcount : 10 < frameBytes.length := by decide
  obtain ⟨hread, hoverwrite⟩ := truncation_detected Sharing.none chain_planned chain_closed
    chain_grounded hknows frameValue_hasShape hencode hcount [7, 7]
  exact ⟨⟨chain_planned, chain_closed, chain_grounded, hknows, frameValue_hasShape, hencode, hcount⟩,
    hread, hoverwrite frameValue frameValue_hasShape⟩

/-- **Writing into a bounded buffer.**  A value is written just if its size is no more than what is
left of the buffer behind the cursor, which is nothing if the cursor is past the end.  Otherwise the
lack of room is reported where the cursor is left.  Either way a beginning of the encoding has been
written, all of it in the first case, and the rest of the buffer is left alone. -/
theorem write_bounded [DecimalForm] (hplanned : catalogue.Planned) {shape : Shape} {value : Value}
    (h : catalogue.HasShape shape value) {typeName : String} {bytes : Buffer}
    (hencode : (catalogue.codecOf sharing shape).encode typeName value = .ok bytes) (out : Output) :
    (catalogue.codecOf sharing shape).size value = bytes.length ∧
      ((∃ out', (catalogue.codecOf sharing shape).write value out = .ok () out') ↔
        (catalogue.codecOf sharing shape).size value ≤ out.buffer.length - out.cursor) ∧
      (∀ out', (catalogue.codecOf sharing shape).write value out = .ok () out' →
        Output.Progresses bytes out out' ∧ out'.cursor = out.cursor + bytes.length) ∧
      ∀ failure out', (catalogue.codecOf sharing shape).write value out = .error failure out' →
        Output.Progresses bytes out out' ∧ ∃ needed available,
          failure = .wire (.bufferTooSmall needed available out'.cursor) ∧ available < needed := by
  have hwrites := hplanned.writes_codecOf sharing h
  obtain ⟨hfits, rfl⟩ := hwrites.of_encode hencode
  have hemits := (hwrites.puts out).emits hfits
  rw [hwrites.size]
  generalize (catalogue.codecOf sharing shape).write value = writer at hemits ⊢
  generalize catalogue.wire shape value = bytes at hemits ⊢
  change _ ∧ (_ ↔ bytes.length ≤ out.room) ∧ _
  rcases Nat.lt_or_ge out.room bytes.length with hshort | hroom
  · obtain ⟨count, needed, available, hcount, hless, hwrite⟩ := hemits.short hshort
    have hprogress := Output.progresses_put bytes hcount (by omega)
    rw [hwrite]
    refine ⟨rfl, ⟨fun hok => ?_, fun hfit => by omega⟩, fun out' hok => ?_,
      fun failure out' herror => ?_⟩
    · obtain ⟨out', hok⟩ := hok
      cases hok
    · cases hok
    · cases herror
      refine ⟨hprogress, needed, available, ?_, hless⟩
      rw [Output.put, List.length_take_of_le (by omega)]
  · have hprogress := Output.progresses_put bytes hroom (Nat.le_refl _)
    rw [List.take_length] at hprogress
    rw [hemits.fits hroom]
    refine ⟨rfl, ⟨fun _ => hroom, fun _ => ⟨_, rfl⟩⟩, fun out' hok => ?_,
      fun failure out' herror => ?_⟩
    · cases hok
      exact ⟨hprogress, rfl⟩
    · cases herror

/-- Two links that are written into a buffer that ends inside the number of the second one. -/
theorem write_bounded_link :
    (chain.Planned ∧ chain.HasShape (.named "Link") linkValue ∧
      (chain.codecOf Sharing.none (.named "Link")).encode "Link" linkValue = .ok linkBytes) ∧
      (chain.codecOf Sharing.none (.named "Link")).write linkValue ⟨List.replicate 11 7, 2⟩ =
        .error (.wire (.bufferTooSmall 4 3 8)) ⟨[7, 7, 0, 7, 0, 0, 0, 1, 7, 7, 7], 8⟩ ∧
      Output.Progresses linkBytes ⟨List.replicate 11 7, 2⟩
        ⟨[7, 7, 0, 7, 0, 0, 0, 1, 7, 7, 7], 8⟩ := by
  have hencode : (chain.codecOf Sharing.none (.named "Link")).encode "Link" linkValue =
      .ok linkBytes := rfl
  have hwrite : (chain.codecOf Sharing.none (.named "Link")).write linkValue
      ⟨List.replicate 11 7, 2⟩ =
        .error (.wire (.bufferTooSmall 4 3 8)) ⟨[7, 7, 0, 7, 0, 0, 0, 1, 7, 7, 7], 8⟩ := rfl
  obtain ⟨-, -, -, hfails⟩ :=
    write_bounded Sharing.none chain_planned linkValue_hasShape hencode ⟨List.replicate 11 7, 2⟩
  exact ⟨⟨chain_planned, linkValue_hasShape, hencode⟩, hwrite, (hfails _ _ hwrite).1⟩

end Catalogue

end Wireform
