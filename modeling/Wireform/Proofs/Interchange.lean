import Wireform.Proofs.RoundTrip

/-!
# Types that are interchangeable on the wire

A list, a deque, a slice and an array of the same elements, two kinds of text, a type and its boxes:
types of one form exchange their values (`containers_interchange`).  A value has one size and one
encoding in all of them, wherever in a type or in a record the difference lies, and each of them
reads the encoding as one and the same value.

The one exception are the arrays.  A type with an array of another length does not have the value,
and reading the encoding there ends with a refusal, right behind the count of the array.
-/
namespace Wireform

namespace Catalogue

variable [DecimalForm] {catalogue other : Catalogue} (sharing : Sharing Value)

/-! ## 1. Arrays and null -/

/-- An array refuses every count but its own, right behind it and whatever stands there. -/
theorem read_array_of_count {shape element : Shape} {length count : Nat}
    (hbare : shape.bare = .array length element) (hcount : count ≤ maxLength)
    (hne : count ≠ length) {buffer : Buffer} {cursor : Nat}
    (hholds : HoldsAt buffer cursor (lengthBytes count)) :
    (catalogue.codecOf sharing shape).read buffer cursor =
      Reading.wrongCount length count (cursor + lengthPrefixSize) := by
  let codec := catalogue.within sharing (catalogue.nestingsOf buffer)
  have hrefuses : (codec (.array length element)).read.Refuses [] length count :=
    ((Reader.yields_readRequiredLength "array" hcount).refuses hne.symm (if_pos hne)).bind _
  have hread := hrefuses.read buffer cursor hholds
  rw [← hbare, (within_bare sharing _ shape).1] at hread
  rw [List.nil_append, length_lengthBytes] at hread
  exact hread

/-- Null and a value that is present, behind the option of a type. -/
theorem Planned.encode_option (hplanned : catalogue.Planned) (shape : Shape) (typeName : String) :
    (catalogue.codecOf sharing (.option shape)).encode typeName .null = .ok shape.nullForm.null ∧
      ∀ value, catalogue.HasShape shape value → catalogue.fits shape value = true →
        (catalogue.codecOf sharing (.option shape)).encode typeName (.present value) =
          .ok (shape.nullForm.lead ++ catalogue.wire shape value) := by
  refine ⟨?_, fun value h hfits => ?_⟩
  · have hnull : catalogue.HasShape (.option shape) .null := .null
    exact (hplanned.writes_codecOf sharing hnull).encode_eq rfl typeName
  · exact (hplanned.writes_codecOf sharing h.present).encode_eq hfits typeName

/-! ## 2. Exchange -/

/-- What a type makes of a value and of its bytes.  If it has the value, it announces and writes
just these bytes, and reads `value'` from them; otherwise the read ends with the refusal of a count
in them, its own one if the type is an array.  Reading over a value ends as reading afresh.  Behind
an option, a type whose values start with a count has no byte for presence, and null is the count
-1. -/
structure Exchanges (catalogue : Catalogue) (sharing : Sharing Value) (shape : Shape)
    (value : Value) (bytes : Buffer) (value' : Value) : Prop where
  size : catalogue.HasShape shape value →
    (catalogue.codecOf sharing shape).size value = bytes.length
  encode : catalogue.HasShape shape value → ∀ typeName,
    (catalogue.codecOf sharing shape).encode typeName value = .ok bytes
  read : catalogue.HasShape shape value → ∀ buffer cursor, HoldsAt buffer cursor bytes →
    (catalogue.codecOf sharing shape).read buffer cursor = .ok value' (cursor + bytes.length)
  stumbles : ¬ catalogue.HasShape shape value → ∀ buffer cursor, HoldsAt buffer cursor bytes →
    Reading.Stumbled bytes cursor ((catalogue.codecOf sharing shape).read buffer cursor)
  array : ∀ length element items, shape.bare = .array length element → value = .list items →
    items.length ≠ length → ∀ buffer cursor, HoldsAt buffer cursor bytes →
      (catalogue.codecOf sharing shape).read buffer cursor =
        Reading.wrongCount length items.length (cursor + lengthPrefixSize)
  overwrite : ∀ target, catalogue.HasShape shape target →
    ∀ buffer cursor, HoldsAt buffer cursor bytes →
      ((catalogue.codecOf sharing shape).overwrite target buffer cursor).toResult =
        (catalogue.codecOf sharing shape).read buffer cursor
  option : shape.nullForm = .inBand → ∀ typeName,
    (catalogue.codecOf sharing (.option shape)).encode typeName .null = .ok [255, 255, 255, 255] ∧
      (catalogue.HasShape shape value →
        (catalogue.codecOf sharing (.option shape)).encode typeName (.present value) = .ok bytes)

/-- **Types of one form exchange their values.** -/
theorem Recovers.exchanges {shape shape' : Shape} {value value' : Value}
    (h : catalogue.Recovers shape value value') (hplanned : other.Planned) (hclosed : other.Closed)
    (hgrounded : other.Grounded) (hinterchanges : catalogue.Interchanges other)
    (hform : shape'.wireForm = shape.wireForm) (hknows : other.Knows shape')
    (hfits : other.fits shape' value = true) :
    other.Exchanges sharing shape' value (other.wire shape' value) value' := by
  have hread : other.HasShape shape' value → ∀ buffer cursor,
      HoldsAt buffer cursor (other.wire shape' value) →
        (other.codecOf sharing shape').read buffer cursor =
          .ok value' (cursor + (other.wire shape' value).length) := fun hshape _ _ hholds =>
    h.read sharing hplanned hclosed hgrounded hinterchanges hform hknows hholds hshape
  have hstumbles : ¬ other.HasShape shape' value → ∀ buffer cursor,
      HoldsAt buffer cursor (other.wire shape' value) →
        Reading.Stumbled (other.wire shape' value) cursor
          ((other.codecOf sharing shape').read buffer cursor) := fun hshape _ _ hholds =>
    h.stumbled sharing hplanned hclosed hgrounded hinterchanges hform hknows hholds hshape
  constructor
  case size => exact fun hshape => (hplanned.writes_codecOf sharing hshape).size
  case encode => exact fun hshape => (hplanned.writes_codecOf sharing hshape).encode_eq hfits
  case read => exact hread
  case stumbles => exact hstumbles
  case array =>
    rintro length element items hbare rfl hne buffer cursor hholds
    rw [fits, Bool.and_eq_true, decide_eq_true_eq] at hfits
    rw [wire] at hholds
    exact read_array_of_count sharing hbare hfits.1 hne (holdsAt_append.mp hholds).1
  case overwrite =>
    intro target htarget buffer cursor hholds
    have halike := hplanned.overwrite_alike sharing htarget buffer cursor
    by_cases hshape : other.HasShape shape' value
    · rw [hread hshape buffer cursor hholds] at halike ⊢
      exact halike.eq_ok
    · obtain ⟨before, expected, found, -, -, hrefused⟩ := hstumbles hshape buffer cursor hholds
      rw [hrefused] at halike ⊢
      exact halike.eq_wrongCount
  case option =>
    intro hnull typeName
    obtain ⟨hnone, hsome⟩ := hplanned.encode_option sharing shape' typeName
    rw [hnull] at hnone hsome
    exact ⟨hnone, fun hshape => hsome value hshape hfits⟩

/-- **Sequence containers, texts and boxes are interchangeable on the wire.**  Let a value have an
encoding in some type.  There is one value, the same as that one, that every type of the same form
reads from these bytes, in every catalogue whose records have fields of the same forms: types that
hold a sequence as a list, a deque, a slice or an array, a text as either kind, and anything in
boxes or without, at any depth.  In each of them the value has just this size and encoding, unless
it is not one of theirs because of the length of an array; then the read ends behind the count. -/
theorem containers_interchange (hplanned : catalogue.Planned) {shape : Shape}
    (hknows : catalogue.Knows shape) {value : Value} (h : catalogue.HasShape shape value)
    {typeName : String} {bytes : Buffer}
    (hencode : (catalogue.codecOf sharing shape).encode typeName value = .ok bytes) :
    ∃ value', (catalogue.Distinct → catalogue.Same shape value value') ∧
      ∀ other : Catalogue, other.Planned → other.Closed → other.Grounded →
        catalogue.Interchanges other → ∀ (sharing' : Sharing Value) (shape' : Shape),
          shape'.wireForm = shape.wireForm →
            other.Exchanges sharing' shape' value bytes value' := by
  obtain ⟨hfits, rfl⟩ := (hplanned.writes_codecOf sharing h).of_encode hencode
  obtain ⟨value', hrecovers⟩ := exists_recovers h hfits
  refine ⟨value', fun hdistinct => ?_, fun other hplanned' hclosed hgrounded hinterchanges sharing'
    shape' hform => ?_⟩
  · rw [hrecovers.restored hdistinct]
    exact same_restored h
  · have hsame := hinterchanges.sameWire h hform
    rw [← hsame.wire]
    exact hrecovers.exchanges sharing' hplanned' hclosed hgrounded hinterchanges hform
      (hinterchanges.knows hknows hform) (hsame.fits.trans hfits)

/-! ## 3. Rows of cells -/

end Catalogue

namespace Samples

/-- A catalogue of one record, the cells of which are of some type. -/
def row (cells : Shape) : Catalogue := ⟨[("Row", .record [⟨"cells", .plain cells⟩])]⟩

variable {cells : Shape}

theorem row_layout? {name : String} {fields : List FieldLayout}
    (h : (row cells).layout? name = some fields) :
    name = "Row" ∧ fields = [⟨.always, cells, cells.initial (row cells).initial⟩] := by
  obtain ⟨definition, hdefinition, hlayout⟩ := Catalogue.exists_of_layout? h
  have hmem := Catalogue.mem_of_get? hdefinition
  simp only [row, List.mem_singleton, Prod.mk.injEq] at hmem
  obtain ⟨rfl, rfl⟩ := hmem
  exact ⟨rfl, Option.some.inj (hlayout.symm.trans rfl)⟩

theorem row_planned (cells : Shape) : (row cells).Planned := by
  intro name definition h
  have hmem := Catalogue.mem_of_get? h
  simp only [row, List.mem_singleton, Prod.mk.injEq] at hmem
  obtain ⟨-, rfl⟩ := hmem
  exact trivial

theorem row_get?_ne_enumeration (name : String) (e : Enumeration) :
    (row cells).get? name ≠ some (.enumeration e) := by
  intro h
  have hmem := Catalogue.mem_of_get? h
  simp [row] at hmem

theorem row_distinct (cells : Shape) : (row cells).Distinct :=
  fun name e h => absurd h (row_get?_ne_enumeration name e)

section

variable (hcells : cells.names = [])

include hcells

theorem row_closed : (row cells).Closed := by
  intro name fields h field hfield other hother
  obtain ⟨-, rfl⟩ := row_layout? h
  rw [List.mem_singleton.mp hfield, hcells] at hother
  cases hother

theorem row_grounded : (row cells).Grounded := by
  refine .of_rank (fun _ => 0) ?_
  rintro name other ⟨fields, h, -, field, hfield, -, hother⟩
  obtain ⟨-, rfl⟩ := row_layout? h
  rw [List.mem_singleton.mp hfield] at hother
  have hmem := Catalogue.mem_names_of_inline? hother
  rw [hcells] at hmem
  cases hmem

end

/-- A row is one if its cells are. -/
theorem row_hasShape_iff {value : Value} :
    (row cells).HasShape (.named "Row") (.record [value]) ↔ (row cells).HasShape cells value := by
  have hlayout : (row cells).layout? "Row" =
      some [⟨.always, cells, cells.initial (row cells).initial⟩] := rfl
  refine Iff.trans (Catalogue.hasShape_record_iff hlayout rfl ?_) ?_
  · exact List.forall_mem_singleton.mpr trivial
  · exact List.forall_mem_singleton.trans (FieldLayout.isGood_iff rfl)

/-- Rows whose cells are of one form are interchangeable. -/
theorem row_interchanges {cells' : Shape} (h : cells'.wireForm = cells.wireForm) :
    (row cells).Interchanges (row cells') := by
  constructor
  case enumeration => exact fun {name e} hname => absurd hname (row_get?_ne_enumeration name e)
  case record =>
    intro name fields hname
    obtain ⟨rfl, rfl⟩ := row_layout? hname
    exact ⟨_, rfl, .cons ⟨rfl, fun _ => h, nofun⟩ .nil⟩

end Samples

namespace Catalogue

open Samples (row row_planned row_closed row_distinct row_grounded row_hasShape_iff
  row_interchanges)

/-- One row of three bytes in a list, as others have it: with its cells in a deque of boxes, in a
slice of rows; with two cells, where the read ends behind the second count; and in an array of two
rows, where it ends behind the first one. -/
theorem containers_interchange_rows :
    let byte : Shape := .leaf (.primitive .u8)
    let lists := row (.sequence .list byte)
    let deques := row (.sequence .deque (.boxed byte))
    let pairs := row (.shared (.array 2 byte))
    let rows : Shape := .sequence .list (.named "Row")
    let value : Value := .list [.record [.list [.int 1, .int 2, .int 3]]]
    let bytes : Buffer := [1, 0, 0, 0, 3, 0, 0, 0, 1, 2, 3]
    (lists.Planned ∧ lists.Knows rows ∧ lists.HasShape rows value ∧
        (lists.codecOf Sharing.none rows).encode "Vec" value = .ok bytes ∧
        deques.Planned ∧ deques.Closed ∧ deques.Grounded ∧ lists.Interchanges deques ∧
        pairs.Planned ∧ pairs.Closed ∧ pairs.Grounded ∧ lists.Interchanges pairs) ∧
      ∃ value', lists.Same rows value value' ∧
        (deques.codecOf Sharing.none (.sequence .slice (.boxed (.named "Row")))).read bytes 0 =
          .ok value' 11 ∧
        Reading.Stumbled bytes 0 ((pairs.codecOf Sharing.none rows).read bytes 0) ∧
        (deques.codecOf Sharing.none (.array 2 (.named "Row"))).read bytes 0 =
          Reading.wrongCount 2 1 4 ∧
        (deques.codecOf Sharing.none (.option rows)).encode "Vec" .null =
          .ok [255, 255, 255, 255] := by
  intro byte lists deques pairs rows value bytes
  have hknows : lists.Knows rows := by
    intro name hname
    rw [List.mem_singleton.mp hname]
    exact ⟨_, rfl⟩
  have hcells : ∀ catalogue : Catalogue, ∀ item ∈ [Value.int 1, .int 2, .int 3],
      catalogue.HasShape byte item := by
    intro catalogue
    simp only [List.forall_mem_cons, List.not_mem_nil, false_implies, implies_true, and_true]
    exact ⟨.leaf rfl, .leaf rfl, .leaf rfl⟩
  have hrows : lists.HasShape rows value :=
    .sequence (List.forall_mem_singleton.mpr (row_hasShape_iff.mpr (.sequence (hcells lists))))
  have hencode : (lists.codecOf Sharing.none rows).encode "Vec" value = .ok bytes := by
    have hwire : lists.wire rows value = bytes := by decide
    rw [← hwire]
    exact ((row_planned _).writes_codecOf Sharing.none hrows).encode_eq (by decide) "Vec"
  have hinterchanges : lists.Interchanges deques := row_interchanges rfl
  have hinterchanges' : lists.Interchanges pairs := row_interchanges rfl
  have hpairs : ¬ pairs.HasShape rows value := by
    intro h
    have hcells := row_hasShape_iff.mp (hasShape_sequence_iff.mp h _ List.mem_cons_self)
    cases hcells with
    | shared h => exact absurd (hasShape_array_iff.mp h).1 (by decide)
  obtain ⟨value', hsame, hexchange⟩ := containers_interchange Sharing.none (row_planned _) hknows
    hrows hencode
  have hdeques := hexchange deques (row_planned _) (row_closed rfl) (row_grounded rfl) hinterchanges
    Sharing.none
  have hpair := hexchange pairs (row_planned _) (row_closed rfl) (row_grounded rfl) hinterchanges'
    Sharing.none rows rfl
  have hslice : deques.HasShape (.sequence .slice (.boxed (.named "Row"))) value := by
    refine .sequence (List.forall_mem_singleton.mpr (.boxed (row_hasShape_iff.mpr ?_)))
    exact .sequence fun item hitem => .boxed (hcells deques item hitem)
  have hholds : HoldsAt bytes 0 bytes := List.prefix_refl _
  refine ⟨⟨row_planned _, hknows, hrows, hencode, row_planned _, row_closed rfl, row_grounded rfl,
    hinterchanges, row_planned _, row_closed rfl, row_grounded rfl, hinterchanges'⟩, value',
    hsame (row_distinct _), ?_, ?_, ?_, ?_⟩
  · exact (hdeques (.sequence .slice (.boxed (.named "Row"))) rfl).read hslice bytes 0 hholds
  · exact hpair.stumbles hpairs bytes 0 hholds
  · exact (hdeques (.array 2 (.named "Row")) rfl).array 2 _ _ rfl rfl (by decide) bytes 0 hholds
  · exact ((hdeques rows rfl).option rfl "Vec").1

end Catalogue

end Wireform
