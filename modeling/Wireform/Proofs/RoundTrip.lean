import Wireform.Proofs.Maps
import Wireform.Proofs.Reads
import Wireform.Proofs.Sizes
import Wireform.Proofs.Steady

/-!
# Round trips

What is written is read back, wherever it stands.  The halves are there: a codec writes the wire
format of a value (`Planned.writes_codecOf`), and what is read from it is the restored value
(`exists_recovers`), with as many nestings as the value is high.  A buffer grants its own count of
nestings, and since enough of them are all alike (`Planned.steady`), it reads the same.

The restored value is the written one in the sense of `Catalogue.Same`: skipped fields are initial
again, hashed maps have their entries in some order, and everything else is as it was.
-/
namespace Wireform

/-! ## 1. The same value -/

namespace Catalogue

variable (catalogue : Catalogue)

mutual

/-- The second value is what the first one is, but for what the wire does not carry. -/
inductive Same : Shape → Value → Value → Prop where
  | leaf {l : Leaf} {value : Value} : Same (.leaf l) value value
  | null {inner : Shape} : Same (.option inner) .null .null
  | present {inner : Shape} {value value' : Value} (h : Same inner value value') :
    Same (.option inner) (.present value) (.present value')
  | boxed {inner : Shape} {value value' : Value} (h : Same inner value value') :
    Same (.boxed inner) value value'
  | shared {inner : Shape} {value value' : Value} (h : Same inner value value') :
    Same (.shared inner) value value'
  | sequence {kind : SequenceKind} {element : Shape} {items items' : List Value}
    (hlength : items.length = items'.length)
    (h : ∀ pair ∈ items.zip items', Same element pair.1 pair.2) :
    Same (.sequence kind element) (.list items) (.list items')
  | array {length : Nat} {element : Shape} {items items' : List Value}
    (hlength : items.length = items'.length)
    (h : ∀ pair ∈ items.zip items', Same element pair.1 pair.2) :
    Same (.array length element) (.list items) (.list items')
  /-- Each entry is the same, and together they are the same map, unless two keys differed only in
  what the wire does not carry. -/
  | mapping {kind : MapKind} {key value : Shape} {entries carried entries' : List (Value × Value)}
    (hlength : entries.length = carried.length)
    (hkey : ∀ pair ∈ entries.zip carried, Same key pair.1.1 pair.2.1)
    (hvalue : ∀ pair ∈ entries.zip carried, Same value pair.1.2 pair.2.2)
    (hmap : kind.Apart carried → kind.Arranges carried entries') :
    Same (.mapping kind key value) (.entries entries) (.entries entries')
  | variant {name : String} {discriminant : Int} :
    Same (.named name) (.variant discriminant) (.variant discriminant)
  | record {name : String} {fields : List FieldLayout} {values values' : List Value}
    (hname : catalogue.layout? name = some fields) (hlength : values.length = values'.length)
    (h : ∀ triple ∈ fields.zip (values.zip values'), SameField triple.1 triple.2.1 triple.2.2) :
    Same (.named name) (.record values) (.record values')

/-- The second value of a field is what the first one is, but for what the wire does not carry. -/
inductive SameField : FieldLayout → Value → Value → Prop where
  | always {shape : Shape} {initial value value' : Value} (h : Same shape value value') :
    SameField ⟨.always, shape, initial⟩ value value'
  | null {slot : Nat} {shape : Shape} {initial : Value} :
    SameField ⟨.nullable slot, shape, initial⟩ .null .null
  | present {slot : Nat} {shape : Shape} {initial value value' : Value}
    (h : Same shape value value') :
    SameField ⟨.nullable slot, shape, initial⟩ (.present value) (.present value')
  /-- A skipped field is initial, whatever it was. -/
  | skipped {shape : Shape} {initial value : Value} :
    SameField ⟨.skipped, shape, initial⟩ value initial

end

variable {catalogue}

theorem sameField_restored {field : FieldLayout} {value : Value} (htakes : field.Takes value)
    (h : ∀ content, field.content? value = some content →
      catalogue.Same field.shape content (catalogue.restored field.shape content)) :
    catalogue.SameField field value (field.restored catalogue.restored value) := by
  obtain ⟨presence, shape, initial⟩ := field
  cases presence with
  | always => exact .always (h value rfl)
  | skipped => exact .skipped
  | nullable slot =>
    cases value with
    | null => exact .null
    | present inner => exact .present (h inner rfl)
    | _ => exact htakes.elim

/-- Beside fields and values stands for each field its value and the image of both. -/
theorem mem_zip_zip_map {f : FieldLayout × Value → Value} {fields : List FieldLayout}
    {values : List Value} {triple : FieldLayout × Value × Value}
    (h : triple ∈ fields.zip (values.zip ((fields.zip values).map f))) :
    (triple.1, triple.2.1) ∈ fields.zip values ∧ triple.2.2 = f (triple.1, triple.2.1) := by
  induction fields generalizing values with
  | nil => cases h
  | cons field fields ih =>
    cases values with
    | nil => cases h
    | cons value values =>
      rw [List.zip_cons_cons, List.map_cons, List.zip_cons_cons, List.zip_cons_cons] at h
      rcases List.mem_cons.mp h with rfl | hrest
      · exact ⟨List.mem_cons_self, rfl⟩
      · exact ⟨List.mem_cons_of_mem _ (ih hrest).1, (ih hrest).2⟩

/-- **The restored value is the same value.** -/
theorem same_restored {shape : Shape} {value : Value} (h : catalogue.HasShape shape value) :
    catalogue.Same shape value (catalogue.restored shape value) := by
  induction h with
  | leaf h =>
    rw [restored_leaf h]
    exact .leaf
  | null => exact .null
  | present h ih => exact .present ih
  | boxed h ih =>
    rw [restored_boxed]
    exact .boxed ih
  | shared h ih =>
    rw [restored_shared]
    exact .shared ih
  | @sequence kind element items h ih =>
    rw [restored, restoredItems_eq]
    refine .sequence (List.length_map _).symm fun pair hpair => ?_
    obtain ⟨hitem, heq⟩ := mem_zip_map hpair
    rw [heq]
    exact ih pair.1 hitem
  | @array length element items hlength h ih =>
    rw [restored, restoredItems_eq]
    refine .array (List.length_map _).symm fun pair hpair => ?_
    obtain ⟨hitem, heq⟩ := mem_zip_map hpair
    rw [heq]
    exact ih pair.1 hitem
  | @mapping kind key value entries hkey hvalue ihkey ihvalue =>
    rw [restored, restoredEntries_eq]
    refine .mapping (List.length_map _).symm (fun pair hpair => ?_) (fun pair hpair => ?_)
      MapKind.ofPairs_arranges
    · obtain ⟨hentry, heq⟩ := mem_zip_map hpair
      rw [heq]
      exact ihkey pair.1 hentry
    · obtain ⟨hentry, heq⟩ := mem_zip_map hpair
      rw [heq]
      exact ihvalue pair.1 hentry
  | variant hname h => exact .variant
  | @record name fields values hname hlength htakes h ih =>
    rw [restored, fieldsOf_named hname, restoredFields_eq]
    refine .record hname ?_ fun triple htriple => ?_
    · rw [List.length_map, List.length_zip, hlength, Nat.min_self]
    · obtain ⟨hpair, heq⟩ := mem_zip_zip_map htriple
      rw [heq]
      exact sameField_restored (htakes _ hpair) (ih _ hpair)

/-! ## 2. Writing and reading back -/

open Samples (chain chain_planned chain_closed chain_grounded chain_distinct frameValue
  frameValue_hasShape)

section

variable [DecimalForm] (sharing : Sharing Value)

/-- What is read with enough nestings for the buffer is read. -/
theorem Planned.read_of_within (hplanned : catalogue.Planned) (hclosed : catalogue.Closed)
    (hgrounded : catalogue.Grounded) {shape : Shape} (hknows : catalogue.Knows shape)
    {buffer bytes : Buffer} {cursor nestings : Nat} {value : Value}
    (hnestings : catalogue.nestingsOf buffer ≤ nestings)
    (hreads : (catalogue.within sharing nestings shape).read.Yields value bytes)
    (hholds : HoldsAt buffer cursor bytes) :
    (catalogue.codecOf sharing shape).read buffer cursor = .ok value (cursor + bytes.length) := by
  have halike :=
    (hplanned.steady sharing hclosed hgrounded hknows buffer cursor hnestings).alike.symm
  rw [(hreads buffer cursor).whole hholds] at halike
  exact halike.eq_ok

section

variable {shape shape' : Shape} {value value' : Value} (h : catalogue.Recovers shape value value')
  {other : Catalogue} (hplanned : other.Planned) (hclosed : other.Closed)
  (hgrounded : other.Grounded) (hinterchanges : catalogue.Interchanges other)
  (hform : shape'.wireForm = shape.wireForm) (hknows : other.Knows shape') {buffer : Buffer}
  {cursor : Nat} (hholds : HoldsAt buffer cursor (other.wire shape' value))

include h hplanned hclosed hgrounded hinterchanges hform hknows hholds

/-- What is recovered in the types of a form is read by each of them that the value is of. -/
theorem Recovers.read (hshape : other.HasShape shape' value) :
    (other.codecOf sharing shape').read buffer cursor =
      .ok value' (cursor + (other.wire shape' value).length) := by
  -- enough nestings for the buffer and for the value
  have hreads := h.reads other sharing shape' _ hplanned hinterchanges hform
    (Nat.le_max_left value.height (other.nestingsOf buffer))
  exact hplanned.read_of_within sharing hclosed hgrounded hknows (Nat.le_max_right _ _)
    (hreads.read.yields hshape) hholds

/-- The other types of the form stumble. -/
theorem Recovers.stumbled (hshape : ¬ other.HasShape shape' value) :
    Reading.Stumbled (other.wire shape' value) cursor
      ((other.codecOf sharing shape').read buffer cursor) := by
  have hreads := h.reads other sharing shape' _ hplanned hinterchanges hform
    (Nat.le_max_left value.height (other.nestingsOf buffer))
  have hsteady := hplanned.steady sharing hclosed hgrounded hknows buffer cursor
    (Nat.le_max_right value.height (other.nestingsOf buffer))
  exact ((hreads.read.stumbles hshape).stumbled hholds).of_alike hsteady.alike.symm

end

/-- Reading over a value of the shape ends as reading does. -/
theorem Planned.overwrite_alike (hplanned : catalogue.Planned) {shape : Shape} {target : Value}
    (htarget : catalogue.HasShape shape target) (buffer : Buffer) (cursor : Nat) :
    Reading.Alike ((catalogue.codecOf sharing shape).read buffer cursor)
      ((catalogue.codecOf sharing shape).overwrite target buffer cursor).toResult :=
  (hplanned.agrees sharing (catalogue.nestingsOf buffer) htarget.isTarget buffer cursor).symm

/-- What is read is also read over any value of the shape. -/
theorem Planned.overwrite_of_read (hplanned : catalogue.Planned) {shape : Shape} {buffer : Buffer}
    {cursor stop : Nat} {target value : Value} (htarget : catalogue.HasShape shape target)
    (hread : (catalogue.codecOf sharing shape).read buffer cursor = .ok value stop) :
    ((catalogue.codecOf sharing shape).overwrite target buffer cursor).toResult =
      .ok value stop := by
  have halike := hplanned.overwrite_alike sharing htarget buffer cursor
  rw [hread] at halike
  exact halike.eq_ok

/-- The wire format of a value is read as the restored value, wherever it stands. -/
theorem Planned.read_wire (hplanned : catalogue.Planned) (hclosed : catalogue.Closed)
    (hgrounded : catalogue.Grounded) (hdistinct : catalogue.Distinct) {shape : Shape}
    (hknows : catalogue.Knows shape) {value : Value} (h : catalogue.HasShape shape value)
    (hfits : catalogue.fits shape value = true) {buffer : Buffer} {cursor : Nat}
    (hholds : HoldsAt buffer cursor (catalogue.wire shape value)) :
    (catalogue.codecOf sharing shape).read buffer cursor =
      .ok (catalogue.restored shape value) (cursor + (catalogue.wire shape value).length) := by
  obtain ⟨value', hrecovers⟩ := exists_recovers h hfits
  rw [← hrecovers.restored hdistinct]
  exact hrecovers.read sharing hplanned hclosed hgrounded (.refl catalogue) rfl hknows hholds h

/-- **What is written is read back.**  A value that fits is written wherever there is room for the
bytes that it announces, and nothing else is touched.  Reading it there gives the same value, but
for what the wire does not carry, and leaves the cursor behind it; and so it does wherever else the
bytes that were written stand. -/
theorem round_trip (hplanned : catalogue.Planned) (hclosed : catalogue.Closed)
    (hgrounded : catalogue.Grounded) (hdistinct : catalogue.Distinct) {shape : Shape}
    (hknows : catalogue.Knows shape) {value : Value} (h : catalogue.HasShape shape value)
    (hfits : catalogue.fits shape value = true) {buffer : Buffer} {start size : Nat}
    (hsize : (catalogue.codecOf sharing shape).size value = size)
    (hroom : size ≤ buffer.length - start) :
    ∃ written value', catalogue.Same shape value value' ∧
      (catalogue.codecOf sharing shape).write value ⟨buffer, start⟩ =
        .ok () ⟨written, start + size⟩ ∧
      written.length = buffer.length ∧ written.take start = buffer.take start ∧
      written.drop (start + size) = buffer.drop (start + size) ∧
      (catalogue.codecOf sharing shape).read written start = .ok value' (start + size) ∧
      ∀ buffer' start', HoldsAt buffer' start' ((written.drop start).take size) →
        (catalogue.codecOf sharing shape).read buffer' start' = .ok value' (start' + size) := by
  have hwrites := hplanned.writes_codecOf sharing h
  have hlength : size = (catalogue.wire shape value).length := hsize.symm.trans hwrites.size
  subst hlength
  have hread : ∀ buffer' start', HoldsAt buffer' start' (catalogue.wire shape value) →
      (catalogue.codecOf sharing shape).read buffer' start' =
        .ok (catalogue.restored shape value) (start' + (catalogue.wire shape value).length) :=
    fun _ _ => hplanned.read_wire sharing hclosed hgrounded hdistinct hknows h hfits
  obtain ⟨hholds, hbefore, hbehind⟩ := splice_around hroom
  refine ⟨splice buffer start (catalogue.wire shape value), catalogue.restored shape value,
    same_restored h, ((hwrites.puts ⟨buffer, start⟩).emits hfits).fits hroom, length_splice hroom,
    hbefore, hbehind, hread _ _ hholds, fun buffer' start' hholds' => ?_⟩
  rw [hholds.take_eq] at hholds'
  exact hread _ _ hholds'

end

/-- A frame is read back from the middle of a buffer. -/
theorem round_trip_frame :
    (chain.Planned ∧ chain.Closed ∧ chain.Grounded ∧ chain.Distinct ∧
      chain.Knows (.named "Frame") ∧ chain.HasShape (.named "Frame") frameValue ∧
      chain.fits (.named "Frame") frameValue = true ∧
      (chain.codecOf Sharing.none (.named "Frame")).size frameValue = 28 ∧
      28 ≤ (List.replicate 31 (7 : UInt8)).length - 2) ∧
      ∃ written value', chain.Same (.named "Frame") frameValue value' ∧
        (chain.codecOf Sharing.none (.named "Frame")).write frameValue ⟨List.replicate 31 7, 2⟩ =
          .ok () ⟨written, 30⟩ ∧
        (chain.codecOf Sharing.none (.named "Frame")).read written 2 = .ok value' 30 := by
  have hknows : chain.Knows (.named "Frame") := by
    intro name hname
    rw [List.mem_singleton.mp hname]
    exact ⟨_, rfl⟩
  have hfits : chain.fits (.named "Frame") frameValue = true := by decide
  have hsize : (chain.codecOf Sharing.none (.named "Frame")).size frameValue = 28 := by decide
  have hroom : 28 ≤ (List.replicate 31 (7 : UInt8)).length - 2 := by decide
  obtain ⟨written, value', hsame, hwrite, -, -, -, hread, -⟩ :=
    round_trip Sharing.none chain_planned chain_closed chain_grounded chain_distinct hknows
      frameValue_hasShape hfits hsize hroom
  exact ⟨⟨chain_planned, chain_closed, chain_grounded, chain_distinct, hknows, frameValue_hasShape,
    hfits, hsize, hroom⟩, written, value', hsame, hwrite, hread⟩

end Catalogue

end Wireform
