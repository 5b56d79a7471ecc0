import Wireform.Proofs.Declaration
import Wireform.Proofs.Sizes

/-!
# What generated structures write

A structure that is generated from a declaration writes what the derived one writes, which is
declared that way.  Its values are others: they have no skipped fields, and their variants are the
numbers of the declaration.  `Catalogue.declared` is the value that corresponds to one of a derived
type.

`Catalogue.Alike` says that two values of two shapes have the same wire format.  By induction on how
a value comes to have its shape, it holds of a value and the declared one (`alike_declared`); for
records the induction is on the `Twins` of their fields.
-/
namespace Wireform

open Schema (FieldPlan KnownTypes StructDecl EnumDecl TypeSchema analyze)
open StructCodec (layoutOf lowerField)

/-! ## 1. Shapes that differ in boxes -/

theorem Shape.nullForm_generated (scope : String) (shape : Shape) :
    (shape.generated scope).nullForm = shape.nullForm := by
  induction shape with
  | leaf l => cases l <;> rfl
  | boxed inner ih => exact ih
  | shared inner ih => exact ih
  | _ => rfl

namespace Catalogue

variable (catalogue : Catalogue)

/-- A value has the same wire format as another one, which is of another shape. -/
structure Alike [DecimalForm] (shape : Shape) (value : Value) (shape' : Shape) (value' : Value) : Prop where
  hasShape : catalogue.HasShape shape' value'
  fits : catalogue.fits shape' value' = catalogue.fits shape value
  wire : catalogue.wire shape' value' = catalogue.wire shape value

variable {catalogue}

/-- Boxes around the other shape change nothing. -/
theorem Alike.of_bare [DecimalForm] {shape shape' : Shape} {value value' : Value}
    (h : catalogue.Alike shape value shape'.bare value') :
    catalogue.Alike shape value shape' value' :=
  ⟨.of_bare h.hasShape, (fits_bare shape' value').symm.trans h.fits,
    (wire_bare shape' value').symm.trans h.wire⟩

/-! ## 2. Corresponding values -/

variable (catalogue)

mutual

/-- The value of the generated type that corresponds to one of a derived type. -/
def declared (shape : Shape) : Value → Value
  | .present value => .present (declared shape.inner value)
  | .list items => .list (declaredItems shape.element items)
  | .entries entries => .entries (declaredEntries shape.entry.2.1 shape.entry.2.2 entries)
  | .variant discriminant => .variant (IntFormat.i64.wrap discriminant)
  | .record values => .record (declaredFields (catalogue.fieldsOf shape) values)
  | value => value

/-- What corresponds to items. -/
def declaredItems (shape : Shape) : List Value → List Value
  | [] => []
  | item :: rest => declared shape item :: declaredItems shape rest

/-- What corresponds to entries. -/
def declaredEntries (key value : Shape) : List (Value × Value) → List (Value × Value)
  | [] => []
  | (k, v) :: rest => (declared key k, declared value v) :: declaredEntries key value rest

/-- What corresponds to fields: nothing, where they are skipped. -/
def declaredFields : List FieldLayout → List Value → List Value
  | field :: fields, value :: values =>
    (match field.presence, value with
      | .always, value => [declared field.shape value]
      | .nullable _, .present inner => [.present (declared field.shape inner)]
      | .nullable _, value => [value]
      | .skipped, _ => []) ++ declaredFields fields values
  | _, _ => []

end

variable {catalogue}

theorem declaredItems_eq (shape : Shape) (items : List Value) :
    catalogue.declaredItems shape items = items.map (catalogue.declared shape) := by
  induction items with
  | nil => rfl
  | cons item rest ih => rw [declaredItems, ih, List.map_cons]

theorem declaredEntries_eq (key value : Shape) (entries : List (Value × Value)) :
    catalogue.declaredEntries key value entries =
      entries.map fun entry =>
        (catalogue.declared key entry.1, catalogue.declared value entry.2) := by
  induction entries with
  | nil => rfl
  | cons entry rest ih => rw [declaredEntries, ih, List.map_cons]

theorem declared_boxed (inner : Shape) (value : Value) :
    catalogue.declared (.boxed inner) value = catalogue.declared inner value := by
  cases value <;> rfl

theorem declared_shared (inner : Shape) (value : Value) :
    catalogue.declared (.shared inner) value = catalogue.declared inner value := by
  cases value <;> rfl

theorem declared_leaf {l : Leaf} {value : Value} (h : l.kind.Holds value) :
    catalogue.declared (.leaf l) value = value := by
  cases h.isScalar <;> rfl

/-! ## 3. Values alike -/

variable [DecimalForm]

theorem alike_leaf {l : Leaf} {value : Value} (h : l.kind.Holds value) (scope : String) :
    catalogue.Alike (.leaf l) value (Shape.generated scope (.leaf l)) value := by
  cases l with
  | smol =>
    -- a text is a text, whichever way it is kept
    have hstring : (Leaf.primitive .string).kind.Holds value := by
      cases value <;> exact h
    refine ⟨.leaf hstring, ?_, ?_⟩
    · cases value <;> first | rfl | exact h.elim
    · cases value <;> first | rfl | exact h.elim
  | _ => exact ⟨.leaf h, rfl, rfl⟩

theorem alike_null (inner : Shape) (scope : String) :
    catalogue.Alike (.option inner) .null (Shape.generated scope (.option inner)) .null := by
  refine ⟨.null, rfl, ?_⟩
  exact congrArg NullForm.null (Shape.nullForm_generated scope inner)

section

variable {scope : String}

theorem Alike.present {inner : Shape} {value value' : Value}
    (h : catalogue.Alike inner value (inner.generated scope) value') :
    catalogue.Alike (.option inner) (.present value) (Shape.generated scope (.option inner))
      (.present value') := by
  refine ⟨.present h.hasShape, h.fits, ?_⟩
  show (inner.generated scope).nullForm.lead ++ catalogue.wire (inner.generated scope) value' =
    inner.nullForm.lead ++ catalogue.wire inner value
  rw [h.wire, Shape.nullForm_generated]

/-- A sequence of items that are alike, however the items are held. -/
theorem Alike.items {element shape : Shape} {items : List Value}
    (h : ∀ item ∈ items, catalogue.Alike element item (element.generated scope)
      (catalogue.declared element item)) (kind : SequenceKind) (helement : shape.element = element) :
    catalogue.Alike shape (.list items) (.sequence kind (element.generated scope))
      (catalogue.declared shape (.list items)) := by
  rw [declared, helement, declaredItems_eq]
  refine ⟨.sequence ?_, ?_, ?_⟩
  · exact List.forall_mem_map.mpr fun item hitem => (h item hitem).hasShape
  · rw [Bool.eq_iff_iff, Catalogue.fits, Catalogue.fits, Bool.and_eq_true, Bool.and_eq_true,
      fitsItems_iff, fitsItems_iff, List.length_map, List.forall_mem_map, helement]
    exact and_congr_right fun _ => forall₂_congr fun item hitem =>
      Bool.eq_iff_iff.mp (h item hitem).fits
  · rw [Catalogue.wire, Catalogue.wire, wireItems_eq, wireItems_eq, List.length_map, helement,
      List.flatMap_map]
    exact congrArg _ (List.flatMap_congr fun item hitem => (h item hitem).wire)

theorem Alike.mapping {key value : Shape} {entries : List (Value × Value)} (kind : MapKind)
    (hkey : ∀ entry ∈ entries, catalogue.Alike key entry.1 (key.generated scope)
      (catalogue.declared key entry.1))
    (hvalue : ∀ entry ∈ entries, catalogue.Alike value entry.2 (value.generated scope)
      (catalogue.declared value entry.2)) :
    catalogue.Alike (.mapping kind key value) (.entries entries)
      (Shape.generated scope (.mapping kind key value))
      (catalogue.declared (.mapping kind key value) (.entries entries)) := by
  rw [declared, declaredEntries_eq]
  refine ⟨.mapping ?_ ?_, ?_, ?_⟩
  · exact List.forall_mem_map.mpr fun entry hentry => (hkey entry hentry).hasShape
  · exact List.forall_mem_map.mpr fun entry hentry => (hvalue entry hentry).hasShape
  · rw [Bool.eq_iff_iff, Catalogue.fits, Catalogue.fits, Bool.and_eq_true, Bool.and_eq_true,
      fitsEntries_iff, fitsEntries_iff, List.length_map, List.forall_mem_map]
    exact and_congr_right fun _ => forall₂_congr fun entry hentry => and_congr
      (Bool.eq_iff_iff.mp (hkey entry hentry).fits) (Bool.eq_iff_iff.mp (hvalue entry hentry).fits)
  · rw [Catalogue.wire, Catalogue.wire, wireEntries_eq, wireEntries_eq, List.length_map,
      List.flatMap_map]
    exact congrArg _ (List.flatMap_congr fun entry hentry => congrArg₂ (· ++ ·)
      (hkey entry hentry).wire (hvalue entry hentry).wire)

end

/-! ## 4. Fields alike -/

/-- The fields of a record have the same wire format as those of another one, some of which are
left out. -/
structure FieldsAlike (catalogue : Catalogue) (fields : List FieldLayout) (values : List Value)
    (fields' : List FieldLayout) (values' : List Value) : Prop where
  length : fields'.length = values'.length
  takes : ∀ pair ∈ fields'.zip values', pair.1.Takes pair.2
  content : ∀ pair ∈ fields'.zip values', ∀ content, pair.1.content? pair.2 = some content →
    catalogue.HasShape pair.1.shape content
  fits : catalogue.fitsFields fields' values' = catalogue.fitsFields fields values
  wire : catalogue.wireFields fields' values' = catalogue.wireFields fields values
  marks : marksOf fields' values' = marksOf fields values
  nullables : nullableCount fields' = nullableCount fields

namespace FieldsAlike

variable {fields fields' : List FieldLayout} {values values' : List Value}

theorem nil : FieldsAlike catalogue [] [] [] [] :=
  ⟨rfl, fun _ hpair => (nomatch hpair), fun _ hpair => (nomatch hpair), rfl, rfl, rfl, rfl⟩

/-- A skipped field leaves nothing on the wire. -/
theorem skipped (h : FieldsAlike catalogue fields values fields' values') (shape : Shape)
    (initial value : Value) :
    FieldsAlike catalogue (⟨.skipped, shape, initial⟩ :: fields) (value :: values) fields' values' := by
  refine ⟨h.length, h.takes, h.content, ?_, ?_, h.marks, ?_⟩
  · rw [h.fits]
    rfl
  · rw [h.wire]
    rfl
  · rw [h.nullables]
    rfl

/-- A field that is written as another one, behind the same bit. -/
theorem cons (h : FieldsAlike catalogue fields values fields' values') {field field' : FieldLayout}
    {value value' : Value} (hpresence : field'.presence = field.presence)
    (htakes : field'.Takes value') (hmark : field'.mark? value' = field.mark? value)
    (hcontent : (field.content? value = none ∧ field'.content? value' = none) ∨
      ∃ content content', field.content? value = some content ∧
        field'.content? value' = some content' ∧
          catalogue.Alike field.shape content field'.shape content') :
    FieldsAlike catalogue (field :: fields) (value :: values) (field' :: fields')
      (value' :: values') := by
  have hnullable : field'.isNullable = field.isNullable := by
    unfold FieldLayout.isNullable
    rw [hpresence]
  have hfits : (field'.content? value').all (catalogue.fits field'.shape) =
      (field.content? value).all (catalogue.fits field.shape) := by
    obtain ⟨hnone, hnone'⟩ | ⟨content, content', hsome, hsome', halike⟩ := hcontent
    · rw [hnone, hnone']
      rfl
    · rw [hsome, hsome']
      exact halike.fits
  have hbytes : field'.bytes catalogue.wire value' = field.bytes catalogue.wire value := by
    unfold FieldLayout.bytes
    obtain ⟨hnone, hnone'⟩ | ⟨content, content', hsome, hsome', halike⟩ := hcontent
    · rw [hnone, hnone']
    · rw [hsome, hsome']
      exact halike.wire
  constructor
  case length => exact congrArg (· + 1) h.length
  case takes =>
    rw [List.zip_cons_cons]
    exact List.forall_mem_cons.mpr ⟨htakes, h.takes⟩
  case content =>
    rw [List.zip_cons_cons]
    refine List.forall_mem_cons.mpr ⟨fun content hfound => ?_, h.content⟩
    obtain ⟨-, hnone'⟩ | ⟨source, content', -, hsome', halike⟩ := hcontent
    · cases hnone'.symm.trans hfound
    · rw [← Option.some.inj (hsome'.symm.trans hfound)]
      exact halike.hasShape
  case fits => rw [fitsFields_cons, fitsFields_cons, hfits, h.fits]
  case wire => rw [wireFields_cons, wireFields_cons, hbytes, h.wire]
  case marks => rw [marksOf_cons, marksOf_cons, hmark, h.marks]
  case nullables => rw [nullableCount_cons, nullableCount_cons, hnullable, h.nullables]

end FieldsAlike

/-- **The fields of twins are alike**, if what they have on the wire is. -/
theorem fieldsAlike_of_twins {scope : String} {initial : String → Value}
    {numbered : List (FieldDef × Presence)} {plans : List FieldPlan}
    (htwins : Twins scope numbered plans) {values : List Value}
    (hlength : (numbered.map (FieldDef.layout initial)).length = values.length)
    (htakes : ∀ pair ∈ (numbered.map (FieldDef.layout initial)).zip values, pair.1.Takes pair.2)
    (halike : ∀ pair ∈ (numbered.map (FieldDef.layout initial)).zip values, ∀ content,
      pair.1.content? pair.2 = some content → catalogue.Alike pair.1.shape content
        (pair.1.shape.generated scope) (catalogue.declared pair.1.shape content)) :
    FieldsAlike catalogue (numbered.map (FieldDef.layout initial)) values
      ((plans.map lowerField).map (layoutOf scope initial))
      (catalogue.declaredFields (numbered.map (FieldDef.layout initial)) values) := by
  induction htwins generalizing values with
  | nil =>
    cases values with
    | nil => exact .nil
    | cons value values => cases hlength
  | skipped hrest ih =>
    cases values with
    | nil => cases hlength
    | cons value values =>
      rw [List.map_cons, List.zip_cons_cons, List.forall_mem_cons] at htakes halike
      exact (ih (Nat.succ.inj hlength) htakes.2 halike.2).skipped _ _ _
  | @wired field presence numbered plan plans hname hpresence hshape hrest ih =>
    cases values with
    | nil => cases hlength
    | cons value values =>
      rw [List.map_cons, List.zip_cons_cons, List.forall_mem_cons] at htakes halike
      have hfields := ih (Nat.succ.inj hlength) htakes.2 halike.2
      obtain ⟨name, kind, slot⟩ := plan
      have hcontent : ∀ content,
          (FieldDef.layout initial (field, presence)).content? value = some content →
          catalogue.Alike field.type.inner content (kind.shape scope)
            (catalogue.declared field.type.inner content) := by
        intro content hfound
        refine .of_bare ?_
        rw [hshape]
        exact halike.1 content hfound
      cases slot with
      | none =>
        cases hpresence
        exact hfields.cons rfl trivial rfl (.inr ⟨_, _, rfl, rfl, hcontent value rfl⟩)
      | some slot =>
        cases hpresence
        cases value with
        | null => exact hfields.cons rfl trivial rfl (.inl ⟨rfl, rfl⟩)
        | present inner =>
          exact hfields.cons rfl trivial rfl (.inr ⟨_, _, rfl, rfl, hcontent inner rfl⟩)
        | _ => exact htakes.1.elim

/-! ## 5. Generated types -/

/-- What a name stands for is generated, under the scope, from the declaration of the name, and what is
generated is compiled: no member is a decimal number. -/
inductive Generated (catalogue : Catalogue) (scope : String) (known : KnownTypes) (name : String) :
    Prop where
  | struct {defs : List FieldDef} {asked : Option Nat} {decl : StructDecl} {tag : Nat}
    {schema : TypeSchema} (hname : catalogue.get? name = some (.record defs))
    (hspelled : ∀ field ∈ defs, field.IsSpelled)
    (hdecl : (Definition.record defs).declare? (declaredName name) asked = some (.struct decl))
    (hschema : analyze decl known tag = .ok schema)
    (hdecimals : ∀ plan ∈ schema.fields, plan.kind ≠ .primitive .decimal)
    (hgenerated : catalogue.get? (scope ++ declaredName name) =
      some (.lowered scope (.ofSchema schema)))
  | enum {e : Enumeration} {asked : Option Nat} {decl : EnumDecl}
    (hname : catalogue.get? name = some (.enumeration e))
    (hdecl : (Definition.enumeration e).declare? (declaredName name) asked = some (.enum decl))
    (hgenerated : catalogue.get? (scope ++ declaredName name) = some (.enumeration (.ofDecl decl)))

variable {scope : String} {known : KnownTypes} {name : String}

theorem Generated.variant (h : catalogue.Generated scope known name) {e : Enumeration} {v : Variant}
    (hname : catalogue.get? name = some (.enumeration e)) (hv : v ∈ e.variants) :
    catalogue.Alike (.named name) (.variant v.discriminant) (.named (scope ++ declaredName name))
      (.variant (IntFormat.i64.wrap v.discriminant)) := by
  cases h with
  | struct hrecord => cases hrecord.symm.trans hname
  | enum henum hdecl hgenerated =>
    cases henum.symm.trans hname
    cases hdecl
    have hvariant : (⟨v.name, IntFormat.i64.wrap v.discriminant⟩ : Variant) ∈
        (Enumeration.ofDecl ⟨declaredName name, e.repr, e.variants.map Variant.declare⟩).variants :=
      List.mem_map.mpr ⟨v.declare, List.mem_map.mpr ⟨v, hv, rfl⟩, rfl⟩
    refine ⟨.variant hgenerated hvariant, rfl, ?_⟩
    have hwidth : e.repr.format.width ≤ IntFormat.i64.width := by
      cases e.repr <;> decide
    rw [wire_variant hname, wire_variant hgenerated]
    exact congrArg e.repr.format.encode (IntFormat.wrap_wrap_of_le hwidth v.discriminant)

theorem Generated.record (h : catalogue.Generated scope known name) {fields : List FieldLayout}
    (hname : catalogue.layout? name = some fields) {values : List Value}
    (hlength : fields.length = values.length)
    (htakes : ∀ pair ∈ fields.zip values, pair.1.Takes pair.2)
    (halike : ∀ pair ∈ fields.zip values, ∀ content,
      pair.1.content? pair.2 = some content → catalogue.Alike pair.1.shape content
        (pair.1.shape.generated scope) (catalogue.declared pair.1.shape content)) :
    catalogue.Alike (.named name) (.record values) (.named (scope ++ declaredName name))
      (.record (catalogue.declaredFields fields values)) := by
  cases h with
  | enum henum =>
    rw [layout?_of_get? henum] at hname
    cases hname
  | @struct defs asked decl tag schema hrecord hspelled hdecl hschema _ hgenerated =>
    have hlayout := (layout?_of_get? hrecord).symm.trans hname
    cases hlayout
    have hlayout' : catalogue.layout? (scope ++ declaredName name) =
        some ((schema.fields.map lowerField).map (layoutOf scope catalogue.initial)) := by
      rw [layout?_of_get? hgenerated, ← StructCodec.fields_ofSchema]
      rfl
    have hfields := fieldsAlike_of_twins (twins_of_declare? hspelled hdecl hschema scope) hlength
      htakes halike
    refine ⟨.record hlayout' hfields.length hfields.takes hfields.content, ?_, ?_⟩
    · rw [fits, fits, fieldsOf_named hname, fieldsOf_named hlayout', hfields.fits]
    · rw [wire, wire, fieldsOf_named hname, fieldsOf_named hlayout', hfields.wire,
        bitsetOf_congr hfields.nullables hfields.marks]

omit [DecimalForm] in
theorem ne_skipped_of_content? {field : FieldLayout} {value content : Value}
    (h : field.content? value = some content) : field.presence ≠ .skipped := by
  intro hskipped
  unfold FieldLayout.content? at h
  rw [hskipped] at h
  cases h

/-- **A value and the declared one have the same wire format**, if every name in it is generated. -/
theorem alike_declared {shape : Shape} {value : Value} (h : catalogue.HasShape shape value)
    (hgenerated : ∀ name, catalogue.Contains shape (.named name) →
      catalogue.Generated scope known name) :
    catalogue.Alike shape value (shape.generated scope) (catalogue.declared shape value) := by
  have hpart : ∀ {shape part : Shape}, catalogue.Part shape part →
      (∀ name, catalogue.Contains shape (.named name) → catalogue.Generated scope known name) →
      ∀ name, catalogue.Contains part (.named name) → catalogue.Generated scope known name :=
    fun hpart hgenerated name hname => hgenerated name (.head hpart hname)
  induction h with
  | @leaf l value h =>
    rw [declared_leaf h]
    exact alike_leaf h scope
  | @null inner => exact alike_null inner scope
  | present h ih => exact (ih (hpart .option hgenerated)).present
  | @boxed inner value h ih =>
    rw [declared_boxed]
    have hinner := ih (hpart .boxed hgenerated)
    exact ⟨hinner.hasShape, hinner.fits.trans (fits_boxed inner value).symm,
      hinner.wire.trans (wire_boxed inner value).symm⟩
  | @shared inner value h ih =>
    rw [declared_shared]
    have hinner := ih (hpart .shared hgenerated)
    exact ⟨hinner.hasShape, hinner.fits.trans (fits_shared inner value).symm,
      hinner.wire.trans (wire_shared inner value).symm⟩
  | @sequence kind element items h ih =>
    exact .items (fun item hitem => ih item hitem (hpart .sequence hgenerated)) kind.generated rfl
  | @array length element items hlength h ih =>
    exact .items (fun item hitem => ih item hitem (hpart .array hgenerated)) .slice rfl
  | @mapping kind key value entries hkey hvalue ihkey ihvalue =>
    exact .mapping kind (fun entry hentry => ihkey entry hentry (hpart .key hgenerated))
      fun entry hentry => ihvalue entry hentry (hpart .value hgenerated)
  | @variant name e v hname hv => exact (hgenerated name .refl).variant hname hv
  | @record name fields values hname hlength htakes h ih =>
    have hrecord := (hgenerated name .refl).record hname hlength htakes fun pair hpair content hfound =>
      ih pair hpair content hfound (hpart (.field hname (List.of_mem_zip hpair).1 (ne_skipped_of_content? hfound)) hgenerated)
    rw [declared, fieldsOf_named hname]
    exact hrecord

end Catalogue

/-! ## 6. Derived structures -/

/-- Two codecs announce one size for two values, and encode them as the same bytes, if at all. -/
structure Codec.SameBytes {α β : Type} (codec : Codec α) (value : α) (codec' : Codec β) (value' : β) :
    Prop where
  size : codec'.size value' = codec.size value
  encode : ∀ typeName typeName' bytes,
    codec.encode typeName value = .ok bytes ↔ codec'.encode typeName' value' = .ok bytes

theorem Codec.Writes.sameBytes {α β : Type} {codec : Codec α} {codec' : Codec β}
    {form form' : NullForm} {value : α} {value' : β} {good : Prop} {bytes : List UInt8}
    (h : codec.Writes form value good bytes) (h' : codec'.Writes form' value' good bytes) :
    codec.SameBytes value codec' value' := by
  refine ⟨h'.size.trans h.size.symm, fun typeName typeName' encoded => ⟨fun hencode => ?_,
    fun hencode => ?_⟩⟩
  · obtain ⟨hgood, rfl⟩ := h.of_encode hencode
    exact h'.encode_eq hgood typeName'
  · obtain ⟨hgood, rfl⟩ := h'.of_encode hencode
    exact h.encode_eq hgood typeName

namespace Samples

open Derive (Fields FieldShape TypeExpr derived)

/-- The types that fields below are of; two names are aliases of optional types. -/
def meaning : TypeExpr → Shape
  | .path _ [.plain "i32"] => .leaf (.primitive .i32)
  | .path _ [.plain "u8"] => .leaf (.primitive .u8)
  | .path _ [.plain "MaybeByte"] => .option (.leaf (.primitive .u8))
  | .path _ [.plain "MaybeText"] => .option (.leaf (.primitive .string))
  | .path _ [.angle "Box" _ [.type (.path _ [.plain name])] _] => .boxed (.named name)
  | _ => .sequence .list (.leaf (.primitive .u8))

/-- A path of one word. -/
def word (name : String) : TypeExpr := .path false [.plain name]

/-- A path of one word with an argument. -/
def applied (name : String) (argument : TypeExpr) : TypeExpr :=
  .path false [.angle name false [.type argument] false]

/-- The fields of a link, as they are spelled. -/
def linkSource : Fields := .named
  [⟨some "value", word "i32", []⟩,
    ⟨some "next", applied "Option" (applied "Box" (word "Link")), []⟩,
    ⟨some "cache", applied "Vec" (word "u8"), [⟨[.word "wire"], [.leaf (.word "skip") false]⟩]⟩]

/-- The fields of a link, as they are classified. -/
def linkShapes : List FieldShape :=
  [⟨.named "value", word "i32", false, none⟩,
    ⟨.named "next", applied "Option" (applied "Box" (word "Link")), false, some 1⟩,
    ⟨.named "cache", applied "Vec" (word "u8"), true, none⟩]

/-- The declaration of a link. -/
def linkDecl : StructDecl :=
  ⟨"Link", none, [⟨"value", .primitive .i32⟩, ⟨"next", .optional (.named "Link")⟩]⟩

/-- What is known where links are declared. -/
def linkKnown : KnownTypes := ⟨[("Link", .struct [.primitive .i32, .optional (.named "Link")])]⟩

/-- The plan of a link. -/
def linkSchema : TypeSchema :=
  ⟨"Link", 1, [⟨"value", .primitive .i32, none⟩, ⟨"next", .nested "Link" true, some 1⟩]⟩

/-- Links, derived and generated. -/
def links : Catalogue :=
  ⟨[("Link", derived meaning linkShapes), ("gen.Link", .lowered "gen." (.ofSchema linkSchema))]⟩

/-- The generated form of two links. -/
def generatedLink : Value := .record [.int 7, .present (.record [.int (-1), .null])]

/-- Fields of which the first and the last are optional under another name, as they are spelled. -/
def aliasSource : Fields := .named
  [⟨some "a", word "MaybeByte", []⟩, ⟨some "b", applied "Option" (word "u8"), []⟩,
    ⟨some "c", word "MaybeText", []⟩]

/-- The fields with aliases, as they are classified. -/
def aliasShapes : List FieldShape :=
  [⟨.named "a", word "MaybeByte", false, none⟩,
    ⟨.named "b", applied "Option" (word "u8"), false, some 1⟩,
    ⟨.named "c", word "MaybeText", false, none⟩]

/-- The declaration of the fields with aliases. -/
def aliasDecl : StructDecl :=
  ⟨"AliasOpt", none, [⟨"a", .optional (.primitive .u8)⟩, ⟨"b", .optional (.primitive .u8)⟩,
    ⟨"c", .optional (.primitive .string)⟩]⟩

/-- The plan of the fields with aliases. -/
def aliasSchema : TypeSchema :=
  ⟨"AliasOpt", 1, [⟨"a", .primitive .u8, some 1⟩, ⟨"b", .primitive .u8, some 2⟩,
    ⟨"c", .primitive .string, some 3⟩]⟩

/-- The fields with aliases, derived and generated. -/
def aliases : Catalogue :=
  ⟨[("AliasOpt", derived meaning aliasShapes),
    ("gen.AliasOpt", .lowered "gen." (.ofSchema aliasSchema))]⟩

/-- Three nulls. -/
def nulls : Value := .record [.null, .null, .null]

theorem analyze_linkDecl : analyze linkDecl linkKnown 1 = .ok linkSchema := by
  have hvalue : Schema.checkName "value" = .ok () := rfl
  have hnext : Schema.checkName "next" = .ok () := rfl
  simp [analyze, linkDecl, Schema.Progress.step, hvalue, hnext, Schema.planType,
    Schema.resolveNesting, Except.mapError, bind, Except.bind, pure, Except.pure,
    Schema.maxNullableFields]
  rfl

theorem analyze_aliasDecl : analyze aliasDecl .empty 1 = .ok aliasSchema := by
  have ha : Schema.checkName "a" = .ok () := rfl
  have hb : Schema.checkName "b" = .ok () := rfl
  have hc : Schema.checkName "c" = .ok () := rfl
  simp [analyze, aliasDecl, Schema.Progress.step, ha, hb, hc, Schema.planType,
    Schema.TypeRef.isOptional, Schema.resolveNesting, Except.mapError, bind, Except.bind, pure,
    Except.pure, Schema.maxNullableFields]
  rfl

theorem links_planned : links.Planned := by
  intro name definition h
  have hmem := Catalogue.mem_of_get? h
  simp only [links, List.mem_cons, Prod.mk.injEq, List.not_mem_nil, or_false] at hmem
  obtain ⟨-, rfl⟩ | ⟨-, rfl⟩ := hmem
  · exact trivial
  · exact Schema.isPlanned_of_analyze analyze_linkDecl "gen."

end Samples

namespace Derive

open Samples

/-- **A derived structure and its declaration describe one layout**, where every optional type is
spelled as one: the fields have the same slots, the bitsets the same size, and what is generated
from the declaration writes the same bytes, where that is compiled. -/
theorem declaration_describes_layout [DecimalForm] {container : String} {fields : Fields}
    {shapes : List FieldShape} {meaning : TypeExpr → Shape} {asked : Option Nat} {decl : StructDecl}
    {known : KnownTypes} {tag : Nat} {schema : TypeSchema}
    (hshapes : fieldShapes container fields = .ok shapes)
    (hspelled : ∀ shape ∈ shapes, shape.IsSpelled meaning)
    (hdecl : (derived meaning shapes).declare? container asked = some (.struct decl))
    (hschema : analyze decl known tag = .ok schema) :
    (shapes.filter fun shape => !shape.skip).map (fun shape => (shape.member.schemaName, shape.slot)) =
        schema.fields.map (fun plan => (plan.name, plan.slot)) ∧
      shapesBitsetBytes shapes = schema.bitsetBytes ∧
      ((∀ plan ∈ schema.fields, plan.kind ≠ .primitive .decimal) →
        ∀ {catalogue : Catalogue} {scope name : String}, catalogue.Planned →
          declaredName name = container →
          catalogue.get? name = some (derived meaning shapes) →
          catalogue.get? (scope ++ container) = some (.lowered scope (.ofSchema schema)) →
          (∀ other, catalogue.Contains (.named name) (.named other) → other ≠ name →
            catalogue.Generated scope known other) →
          ∀ value, catalogue.HasShape (.named name) value →
            catalogue.HasShape (.named (scope ++ container)) (catalogue.declared (.named name) value) ∧
            ∀ sharing, (catalogue.codecOf sharing (.named name)).SameBytes value
              (catalogue.codecOf sharing (.named (scope ++ container)))
              (catalogue.declared (.named name) value)) := by
  have hdefs : ∀ field ∈ shapes.map (FieldShape.define meaning), field.IsSpelled := by
    intro field hfield
    obtain ⟨shape, hshape, rfl⟩ := List.mem_map.mp hfield
    exact (hspelled shape hshape).define
  obtain ⟨hslots, hcount⟩ := (classified_of_shapesFrom hshapes).slots_eq
    (twins_of_declare? hdefs hdecl hschema "")
  refine ⟨hslots, congrArg bitsetSize hcount, ?_⟩
  rintro hdecimals catalogue scope name hplanned rfl hname hgenerated hothers value hvalue
  have hself : catalogue.Generated scope known name :=
    .struct hname hdefs hdecl hschema hdecimals hgenerated
  have halike := Catalogue.alike_declared hvalue fun other hother => by
    by_cases hsame : other = name
    · rw [hsame]
      exact hself
    · exact hothers other hother hsame
  have hhas : catalogue.HasShape (.named (scope ++ declaredName name))
      (catalogue.declared (.named name) value) := halike.hasShape
  have hfits : catalogue.fits (.named (scope ++ declaredName name))
      (catalogue.declared (.named name) value) = catalogue.fits (.named name) value := halike.fits
  have hwire : catalogue.wire (.named (scope ++ declaredName name))
      (catalogue.declared (.named name) value) = catalogue.wire (.named name) value := halike.wire
  refine ⟨hhas, fun sharing => ?_⟩
  have hwrites := hplanned.writes_codecOf sharing hvalue
  have hwrites' := hplanned.writes_codecOf sharing hhas
  rw [hfits, hwire] at hwrites'
  exact hwrites.sameBytes hwrites'

/-- What is generated for a link writes the bytes of the derived link. -/
theorem declaration_describes_layout_link :
    (fieldShapes "Link" linkSource = .ok linkShapes ∧
      (∀ shape ∈ linkShapes, shape.IsSpelled meaning) ∧
      (derived meaning linkShapes).declare? "Link" none = some (.struct linkDecl) ∧
      analyze linkDecl linkKnown 1 = .ok linkSchema ∧ links.Planned ∧
      links.HasShape (.named "Link") linkValue) ∧
    links.HasShape (.named "gen.Link") generatedLink ∧
    (links.codecOf Sharing.none (.named "Link")).SameBytes linkValue
      (links.codecOf Sharing.none (.named "gen.Link")) generatedLink ∧
    (links.codecOf Sharing.none (.named "Link")).encode "Link" linkValue = .ok linkBytes := by
  have hspelled : ∀ shape ∈ linkShapes, shape.IsSpelled meaning := by
    intro shape hshape
    simp only [linkShapes, List.mem_cons, List.not_mem_nil, or_false] at hshape
    obtain rfl | rfl | rfl := hshape
    · exact fun _ hoptional => (Bool.false_ne_true hoptional).elim
    · exact fun _ _ => rfl
    · exact fun hskip => (Bool.false_ne_true hskip.symm).elim
  have hvalue : links.HasShape (.named "Link") linkValue := hasShape_linkValue rfl
  obtain ⟨-, -, hgenerated⟩ := declaration_describes_layout
    (rfl : fieldShapes "Link" linkSource = .ok linkShapes) hspelled rfl analyze_linkDecl
  have hothers : ∀ other, links.Contains (.named "Link") (.named other) → other ≠ "Link" →
      links.Generated "gen." linkKnown other := by
    intro other hother hne
    rcases contains_link rfl hother with h | h | h <;> cases h
    exact (hne rfl).elim
  obtain ⟨hhas, hsame⟩ := hgenerated (by decide) links_planned (rfl : declaredName "Link" = "Link") rfl
    (rfl : links.get? ("gen." ++ "Link") = _) hothers linkValue hvalue
  exact ⟨⟨rfl, hspelled, rfl, analyze_linkDecl, links_planned, hvalue⟩, hhas, hsame Sharing.none, rfl⟩

/-- **An alias hides an optional type**: its field has a slot in the declaration only, and nulls are
written as other bytes. -/
theorem aliased_option_has_no_slot :
    (fieldShapes "AliasOpt" aliasSource = .ok aliasShapes ∧
      (derived meaning aliasShapes).declare? "AliasOpt" none = some (.struct aliasDecl) ∧
      analyze aliasDecl .empty 1 = .ok aliasSchema ∧
      aliases.declared (.named "AliasOpt") nulls = nulls) ∧
    aliasShapes.map FieldShape.slot = [none, some 1, none] ∧
    aliasSchema.fields.map FieldPlan.slot = [some 1, some 2, some 3] ∧
    (aliases.codecOf Sharing.none (.named "AliasOpt")).encode "AliasOpt" nulls =
      .ok [1, 0, 255, 255, 255, 255] ∧
    (aliases.codecOf Sharing.none (.named "gen.AliasOpt")).encode "AliasOpt" nulls = .ok [7] :=
  ⟨⟨rfl, rfl, analyze_aliasDecl, rfl⟩, rfl, rfl, rfl, rfl⟩

end Derive

end Wireform
