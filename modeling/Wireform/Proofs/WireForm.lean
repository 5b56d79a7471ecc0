import Wireform.Proofs.Nesting

/-!
# Types of one wire form

What stands on the wire tells less than the type does: not how a sequence is held or whether its
length is fixed, not how a text is kept, and nothing of boxes.  `Shape.wireForm` is what it does
tell, as a type of lists and plain texts without boxes.  How null stands and what the parts of a
type are can be read off the form.

Two catalogues are *interchangeable* (`Catalogue.Interchanges`) if their records have fields of one
form, one by one.  A value then has one encoding in all types of one form (`Interchanges.sameWire`,
by induction on how the value comes to have its shape).
-/
namespace Wireform

/-! ## 1. Shapes -/

/-- The leaf that stands for all that are written alike as a text. -/
def Leaf.wireForm : Leaf → Leaf
  | .smol => .primitive .string
  | leaf => leaf

namespace Leaf

variable {l l' : Leaf}

/-- Leaves of one form have the same values and the same bytes. -/
theorem same_of_form [DecimalForm] (h : l'.wireForm = l.wireForm) (value : Value) :
    (l'.kind.Holds value ↔ l.kind.Holds value) ∧ l'.kind.fits value = l.kind.fits value ∧
      l'.kind.wire value = l.kind.wire value := by
  have hform : ∀ l : Leaf, (l.wireForm.kind.Holds value ↔ l.kind.Holds value) ∧
      l.wireForm.kind.fits value = l.kind.fits value ∧
        l.wireForm.kind.wire value = l.kind.wire value := by
    intro l
    cases l with
    | smol => cases value <;> exact ⟨Iff.rfl, rfl, rfl⟩
    | _ => exact ⟨Iff.rfl, rfl, rfl⟩
  obtain ⟨hholds, hfits, hwire⟩ := hform l
  obtain ⟨hholds', hfits', hwire'⟩ := hform l'
  rw [h] at hholds' hfits' hwire'
  exact ⟨hholds'.symm.trans hholds, hfits'.symm.trans hfits, hwire'.symm.trans hwire⟩

end Leaf

namespace Shape

/-- What the wire tells of a type: every sequence is a list, every text a plain one, and there are
no boxes. -/
def wireForm : Shape → Shape
  | .leaf l => .leaf l.wireForm
  | .option inner => .option inner.wireForm
  | .boxed inner => inner.wireForm
  | .shared inner => inner.wireForm
  | .sequence _ element => .sequence .list element.wireForm
  | .array _ element => .sequence .list element.wireForm
  | .mapping kind key value => .mapping kind key.wireForm value.wireForm
  | .named name => .named name

theorem names_wireForm (shape : Shape) : shape.wireForm.names = shape.names := by
  induction shape with
  | mapping kind key value ihkey ihvalue => exact congrArg₂ (· ++ ·) ihkey ihvalue
  | leaf l => rfl
  | named name => rfl
  | option inner ih => exact ih
  | boxed inner ih => exact ih
  | shared inner ih => exact ih
  | sequence kind element ih => exact ih
  | array length element ih => exact ih

/-! The parts of a form are the forms of the parts, and null stands as the form has it. -/

theorem nullForm_wireForm (shape : Shape) : shape.wireForm.nullForm = shape.nullForm := by
  induction shape with
  | leaf l => cases l <;> rfl
  | boxed inner ih => exact ih
  | shared inner ih => exact ih
  | _ => rfl

theorem inner_wireForm (shape : Shape) : shape.wireForm.inner = shape.inner.wireForm := by
  induction shape with
  | boxed inner ih => exact ih
  | shared inner ih => exact ih
  | _ => rfl

theorem element_wireForm (shape : Shape) : shape.wireForm.element = shape.element.wireForm := by
  induction shape with
  | boxed inner ih => exact ih
  | shared inner ih => exact ih
  | _ => rfl

theorem entry_wireForm (shape : Shape) :
    shape.wireForm.entry = (shape.entry.1, shape.entry.2.1.wireForm, shape.entry.2.2.wireForm) := by
  induction shape with
  | boxed inner ih => exact ih
  | shared inner ih => exact ih
  | _ => rfl

section

variable {shape shape' : Shape} (h : shape'.wireForm = shape.wireForm)

include h

theorem nullForm_of_form : shape'.nullForm = shape.nullForm := by
  rw [← nullForm_wireForm, h, nullForm_wireForm]

theorem inner_of_form : shape'.inner.wireForm = shape.inner.wireForm := by
  rw [← inner_wireForm, h, inner_wireForm]

theorem element_of_form : shape'.element.wireForm = shape.element.wireForm := by
  rw [← element_wireForm, h, element_wireForm]

theorem entry_of_form : shape'.entry.1 = shape.entry.1 ∧
    shape'.entry.2.1.wireForm = shape.entry.2.1.wireForm ∧
      shape'.entry.2.2.wireForm = shape.entry.2.2.wireForm := by
  have hentry := congrArg Shape.entry h
  rw [entry_wireForm, entry_wireForm, Prod.mk.injEq, Prod.mk.injEq] at hentry
  exact hentry

end

/-! A type of a given form is one of a few, its boxes apart. -/

variable {shape : Shape}

theorem bare_of_leaf {l : Leaf} (h : shape.wireForm = .leaf l) :
    ∃ l', shape.bare = .leaf l' ∧ l'.wireForm = l := by
  induction shape with
  | leaf l' => exact ⟨l', rfl, Shape.leaf.inj h⟩
  | boxed inner ih => exact ih h
  | shared inner ih => exact ih h
  | _ => cases h

theorem bare_of_option {form : Shape} (h : shape.wireForm = .option form) :
    ∃ inner, shape.bare = .option inner ∧ inner.wireForm = form := by
  induction shape with
  | option inner _ => exact ⟨inner, rfl, Shape.option.inj h⟩
  | boxed inner ih => exact ih h
  | shared inner ih => exact ih h
  | _ => cases h

theorem bare_of_sequence {kind : SequenceKind} {form : Shape}
    (h : shape.wireForm = .sequence kind form) :
    (∃ kind' element, shape.bare = .sequence kind' element ∧ element.wireForm = form) ∨
      ∃ length element, shape.bare = .array length element ∧ element.wireForm = form := by
  induction shape with
  | sequence kind' element _ => exact .inl ⟨kind', element, rfl, (Shape.sequence.inj h).2⟩
  | array length element _ => exact .inr ⟨length, element, rfl, (Shape.sequence.inj h).2⟩
  | boxed inner ih => exact ih h
  | shared inner ih => exact ih h
  | _ => cases h

theorem bare_of_mapping {kind : MapKind} {key value : Shape}
    (h : shape.wireForm = .mapping kind key value) :
    ∃ key' value', shape.bare = .mapping kind key' value' ∧ key'.wireForm = key ∧
      value'.wireForm = value := by
  induction shape with
  | mapping kind' key' value' _ _ =>
    cases h
    exact ⟨key', value', rfl, rfl, rfl⟩
  | boxed inner ih => exact ih h
  | shared inner ih => exact ih h
  | _ => cases h

theorem bare_of_named {name : String} (h : shape.wireForm = .named name) :
    shape.bare = .named name := by
  induction shape with
  | named name' => exact h
  | boxed inner ih => exact ih h
  | shared inner ih => exact ih h
  | _ => cases h

end Shape

/-! ## 2. Catalogues -/

/-- A field takes part like another one, and is of the same form if it is on the wire; if it is not,
it has the same initial value. -/
structure FieldLayout.Interchanges (field field' : FieldLayout) : Prop where
  presence : field'.presence = field.presence
  form : field.presence ≠ .skipped → field'.shape.wireForm = field.shape.wireForm
  initial : field.presence = .skipped → field'.initial = field.initial

namespace FieldLayout.Interchanges

variable {field field' : FieldLayout}

theorem refl (field : FieldLayout) : field.Interchanges field := ⟨rfl, fun _ => rfl, fun _ => rfl⟩

theorem content? (h : field.Interchanges field') (value : Value) :
    field'.content? value = field.content? value := by
  unfold FieldLayout.content?
  rw [h.presence]

theorem takes (h : field.Interchanges field') {value : Value} (htakes : field.Takes value) :
    field'.Takes value := by
  unfold FieldLayout.Takes
  rwa [h.presence]

theorem mark? (h : field.Interchanges field') (value : Value) :
    field'.mark? value = field.mark? value := by
  unfold FieldLayout.mark?
  rw [h.presence]

theorem isNullable (h : field.Interchanges field') : field'.isNullable = field.isNullable := by
  unfold FieldLayout.isNullable
  rw [h.presence]

/-- What is on the wire is of the same form. -/
theorem form_of_content (h : field.Interchanges field') {value content : Value}
    (hcontent : field.content? value = some content) :
    field'.shape.wireForm = field.shape.wireForm := by
  refine h.form fun hskipped => ?_
  unfold FieldLayout.content? at hcontent
  rw [hskipped] at hcontent
  cases hcontent

/-- What is on the wire alike is restored alike. -/
theorem restored (h : field.Interchanges field') {restore restore' : Shape → Value → Value}
    {value : Value} (hcontent : ∀ content, field.content? value = some content →
      restore' field'.shape content = restore field.shape content) :
    field'.restored restore' value = field.restored restore value := by
  obtain ⟨presence, shape, initial⟩ := field
  obtain ⟨presence', shape', initial'⟩ := field'
  obtain ⟨hpresence, -, hinitial⟩ := h
  cases hpresence
  cases presence with
  | always => exact hcontent value rfl
  | skipped => exact hinitial rfl
  | nullable slot =>
    cases value with
    | present inner => exact congrArg Value.present (hcontent inner rfl)
    | _ => rfl

end FieldLayout.Interchanges

/-- Each field beside a value is interchangeable with one beside the same value. -/
theorem exists_of_mem_zip {fields fields' : List FieldLayout}
    (h : List.Forall₂ FieldLayout.Interchanges fields fields') {values : List Value}
    {pair' : FieldLayout × Value} (hpair : pair' ∈ fields'.zip values) :
    ∃ field, (field, pair'.2) ∈ fields.zip values ∧ field.Interchanges pair'.1 := by
  induction h generalizing values with
  | nil => cases hpair
  | @cons field field' fields fields' hfield _ ih =>
    cases values with
    | nil => cases hpair
    | cons value values =>
      rw [List.zip_cons_cons] at hpair
      rcases List.mem_cons.mp hpair with rfl | hrest
      · exact ⟨field, List.mem_cons_self, hfield⟩
      · obtain ⟨other, hother, hinterchanges⟩ := ih hrest
        exact ⟨other, List.mem_cons_of_mem _ hother, hinterchanges⟩

/-- Fields that are restored by their forms are restored alike. -/
theorem map_restored_of_interchanges {fields fields' : List FieldLayout}
    (h : List.Forall₂ FieldLayout.Interchanges fields fields') (restore : Shape → Value → Value)
    (values : List Value) :
    ((fields'.zip values).map fun pair =>
        pair.1.restored (fun shape => restore shape.wireForm) pair.2) =
      (fields.zip values).map fun pair =>
        pair.1.restored (fun shape => restore shape.wireForm) pair.2 := by
  induction h generalizing values with
  | nil => rfl
  | cons hfield _ ih =>
    cases values with
    | nil => rfl
    | cons value values =>
      rw [List.zip_cons_cons, List.zip_cons_cons, List.map_cons, List.map_cons, ih]
      refine congrArg (· :: _) (hfield.restored fun content hcontent => ?_)
      rw [hfield.form_of_content hcontent]

namespace Catalogue

/-- A catalogue has the names of another one: the same enumerations, and records whose fields are
of the same forms, one by one. -/
structure Interchanges (catalogue other : Catalogue) : Prop where
  enumeration : ∀ {name e}, catalogue.get? name = some (.enumeration e) →
    other.get? name = some (.enumeration e)
  record : ∀ {name fields}, catalogue.layout? name = some fields →
    ∃ fields', other.layout? name = some fields' ∧
      List.Forall₂ FieldLayout.Interchanges fields fields'

variable {catalogue other : Catalogue}

theorem Interchanges.refl (catalogue : Catalogue) : catalogue.Interchanges catalogue :=
  ⟨id, fun {_ fields} hname => ⟨fields, hname, List.forall₂_same.mpr fun field _ => .refl field⟩⟩

/-- What one catalogue knows the other one knows. -/
theorem Interchanges.knows (h : catalogue.Interchanges other) {shape shape' : Shape}
    (hknows : catalogue.Knows shape) (hform : shape'.wireForm = shape.wireForm) :
    other.Knows shape' := by
  intro name hname
  rw [← Shape.names_wireForm, hform, Shape.names_wireForm] at hname
  obtain ⟨definition, hdefinition⟩ := hknows name hname
  obtain ⟨e, rfl⟩ | ⟨fields, hlayout⟩ := definition.enumeration_or_layout catalogue.initial
  · exact ⟨_, h.enumeration hdefinition⟩
  · obtain ⟨fields', hlayout', -⟩ := h.record ((layout?_of_get? hdefinition).trans hlayout)
    obtain ⟨definition', hdefinition', -⟩ := exists_of_layout? hlayout'
    exact ⟨definition', hdefinition'⟩

/-! ## 3. One encoding -/

variable [DecimalForm]

/-- A value has the same encoding in two types, and the encoding stands for the same value. -/
structure SameWire (catalogue : Catalogue) (shape : Shape) (other : Catalogue) (shape' : Shape)
    (value : Value) : Prop where
  fits : other.fits shape' value = catalogue.fits shape value
  wire : other.wire shape' value = catalogue.wire shape value
  restored : other.restored shape' value = catalogue.restored shape value

theorem SameWire.of_bare {shape shape' : Shape} {value : Value}
    (h : catalogue.SameWire shape other shape'.bare value) :
    catalogue.SameWire shape other shape' value :=
  ⟨(fits_bare shape' value).symm.trans h.fits, (wire_bare shape' value).symm.trans h.wire,
    (restored_bare shape' value).symm.trans h.restored⟩

theorem SameWire.list {shape shape' : Shape} {items : List Value}
    (h : ∀ item ∈ items, catalogue.SameWire shape.element other shape'.element item) :
    catalogue.SameWire shape other shape' (.list items) := by
  constructor
  case fits =>
    rw [Bool.eq_iff_iff, Catalogue.fits, Catalogue.fits, Bool.and_eq_true, Bool.and_eq_true,
      fitsItems_iff, fitsItems_iff]
    exact and_congr_right fun _ => forall₂_congr fun item hitem =>
      Bool.eq_iff_iff.mp (h item hitem).fits
  case wire =>
    rw [Catalogue.wire, Catalogue.wire, wireItems_eq, wireItems_eq]
    exact congrArg _ (List.flatMap_congr fun item hitem => (h item hitem).wire)
  case restored =>
    rw [Catalogue.restored, Catalogue.restored, restoredItems_eq, restoredItems_eq]
    exact congrArg _ (List.map_congr_left fun item hitem => (h item hitem).restored)

theorem SameWire.entries {shape shape' : Shape} {entries : List (Value × Value)}
    (hkind : shape'.entry.1 = shape.entry.1)
    (hkey : ∀ entry ∈ entries,
      catalogue.SameWire shape.entry.2.1 other shape'.entry.2.1 entry.1)
    (hvalue : ∀ entry ∈ entries,
      catalogue.SameWire shape.entry.2.2 other shape'.entry.2.2 entry.2) :
    catalogue.SameWire shape other shape' (.entries entries) := by
  constructor
  case fits =>
    rw [Bool.eq_iff_iff, Catalogue.fits, Catalogue.fits, Bool.and_eq_true, Bool.and_eq_true,
      fitsEntries_iff, fitsEntries_iff]
    exact and_congr_right fun _ => forall₂_congr fun entry hentry => and_congr
      (Bool.eq_iff_iff.mp (hkey entry hentry).fits) (Bool.eq_iff_iff.mp (hvalue entry hentry).fits)
  case wire =>
    rw [Catalogue.wire, Catalogue.wire, wireEntries_eq, wireEntries_eq]
    exact congrArg _ (List.flatMap_congr fun entry hentry => congrArg₂ (· ++ ·)
      (hkey entry hentry).wire (hvalue entry hentry).wire)
  case restored =>
    rw [Catalogue.restored, Catalogue.restored, restoredEntries_eq, restoredEntries_eq, hkind]
    exact congrArg (fun pairs => Value.entries (shape.entry.1.ofPairs pairs))
      (List.map_congr_left fun entry hentry => congrArg₂ Prod.mk
        (hkey entry hentry).restored (hvalue entry hentry).restored)

omit [DecimalForm] in
/-- The bitset is told by how the fields take part. -/
theorem bitsetOf_of_interchanges {fields fields' : List FieldLayout}
    (h : List.Forall₂ FieldLayout.Interchanges fields fields') (values : List Value) :
    bitsetOf fields' values = bitsetOf fields values := by
  have hnullables : nullableCount fields' = nullableCount fields := by
    induction h with
    | nil => rfl
    | cons hfield _ ih => rw [nullableCount_cons, nullableCount_cons, hfield.isNullable, ih]
  have hmarks : marksOf fields' values = marksOf fields values := by
    clear hnullables
    induction h generalizing values with
    | nil => rfl
    | cons hfield _ ih =>
      cases values with
      | nil => rfl
      | cons value values => rw [marksOf_cons, marksOf_cons, hfield.mark?, ih]
  exact bitsetOf_congr hnullables hmarks

/-- One field of a record, with the rest of them. -/
theorem sameWire_fields {fields fields' : List FieldLayout}
    (hfields : List.Forall₂ FieldLayout.Interchanges fields fields') {values : List Value}
    (h : ∀ pair ∈ fields.zip values, ∀ content, pair.1.content? pair.2 = some content →
      ∀ shape', shape'.wireForm = pair.1.shape.wireForm →
        catalogue.SameWire pair.1.shape other shape' content) :
    other.fitsFields fields' values = catalogue.fitsFields fields values ∧
      other.wireFields fields' values = catalogue.wireFields fields values ∧
        other.restoredFields fields' values = catalogue.restoredFields fields values := by
  induction hfields generalizing values with
  | nil => cases values <;> exact ⟨rfl, rfl, rfl⟩
  | @cons field field' fields fields' hfield _ ih =>
    cases values with
    | nil => exact ⟨rfl, rfl, rfl⟩
    | cons value values =>
      rw [List.zip_cons_cons, List.forall_mem_cons] at h
      obtain ⟨hfits, hwire, hrestored⟩ := ih h.2
      have hsame : ∀ content, field.content? value = some content →
          catalogue.SameWire field.shape other field'.shape content := fun content hcontent =>
        h.1 content hcontent field'.shape (hfield.form_of_content hcontent)
      refine ⟨?_, ?_, ?_⟩
      · rw [fitsFields_cons, fitsFields_cons, hfits, hfield.content?]
        cases hcontent : field.content? value with
        | none => rfl
        | some content => exact congrArg (· && _) (hsame content hcontent).fits
      · rw [wireFields_cons, wireFields_cons, hwire, FieldLayout.bytes, FieldLayout.bytes,
          hfield.content?]
        cases hcontent : field.content? value with
        | none => rfl
        | some content => exact congrArg (· ++ _) (hsame content hcontent).wire
      · rw [restoredFields_cons, restoredFields_cons, hrestored]
        exact congrArg (· :: _)
          (hfield.restored fun content hcontent => (hsame content hcontent).restored)

/-- **A value has one encoding in all types of one form**, and it stands for one value. -/
theorem Interchanges.sameWire (h : catalogue.Interchanges other) {shape : Shape} {value : Value}
    (hshape : catalogue.HasShape shape value) {shape' : Shape}
    (hform : shape'.wireForm = shape.wireForm) : catalogue.SameWire shape other shape' value := by
  induction hshape generalizing shape' with
  | @leaf l value hholds =>
    obtain ⟨l', hbare, hl⟩ := Shape.bare_of_leaf hform
    obtain ⟨hiff, hfits, hwire⟩ := Leaf.same_of_form hl value
    have hholds' := hiff.mpr hholds
    refine .of_bare ?_
    rw [hbare]
    exact ⟨by rw [fits_leaf hholds', hfits, fits_leaf hholds],
      by rw [wire_leaf hholds', hwire, wire_leaf hholds],
      (restored_leaf hholds').trans (restored_leaf hholds).symm⟩
  | null =>
    exact ⟨rfl, congrArg NullForm.null (Shape.nullForm_of_form (Shape.inner_of_form hform)), rfl⟩
  | present _ ih =>
    have hinner := Shape.inner_of_form hform
    have hsame := ih hinner
    refine ⟨hsame.fits, ?_, congrArg Value.present hsame.restored⟩
    exact congrArg₂ (fun form bytes => NullForm.lead form ++ bytes)
      (Shape.nullForm_of_form hinner) hsame.wire
  | boxed _ ih =>
    have hsame := ih hform
    exact ⟨by rw [fits_boxed, hsame.fits], by rw [wire_boxed, hsame.wire],
      by rw [restored_boxed, hsame.restored]⟩
  | shared _ ih =>
    have hsame := ih hform
    exact ⟨by rw [fits_shared, hsame.fits], by rw [wire_shared, hsame.wire],
      by rw [restored_shared, hsame.restored]⟩
  | sequence _ ih =>
    exact .list fun item hitem => ih item hitem (Shape.element_of_form hform)
  | array _ _ ih =>
    exact .list fun item hitem => ih item hitem (Shape.element_of_form hform)
  | mapping _ _ ihkey ihvalue =>
    obtain ⟨hkind, hkey, hvalue⟩ := Shape.entry_of_form hform
    exact .entries hkind (fun entry hentry => ihkey entry hentry hkey)
      fun entry hentry => ihvalue entry hentry hvalue
  | variant hname _ =>
    refine .of_bare ?_
    rw [Shape.bare_of_named hform]
    exact ⟨rfl, (wire_variant (h.enumeration hname) _).trans (wire_variant hname _).symm, rfl⟩
  | @record name fields values hname _ _ _ ih =>
    obtain ⟨fields', hname', hfields⟩ := h.record hname
    obtain ⟨hfits, hwire, hrestored⟩ := sameWire_fields hfields ih
    refine .of_bare ?_
    rw [Shape.bare_of_named hform]
    constructor
    case fits => rwa [Catalogue.fits, Catalogue.fits, fieldsOf_named hname, fieldsOf_named hname']
    case wire =>
      rw [Catalogue.wire, Catalogue.wire, fieldsOf_named hname, fieldsOf_named hname', hwire,
        bitsetOf_of_interchanges hfields]
    case restored =>
      rw [Catalogue.restored, Catalogue.restored, fieldsOf_named hname, fieldsOf_named hname',
        hrestored]

end Catalogue

end Wireform
