import Wireform.Proofs.Entries
import Wireform.Proofs.Indirection

/-!
# How deep decoding goes

The types that a run of the generator lowers make up a catalogue, each under its own name
(`Emit.catalogueOf`), and it is one in which reads end.  Its structures are planned.  The names in a
plan are declared, so they are entries of the catalogue.  And a lowered structure that holds another
one inline has a field of its very type, without a null in between; so a circle of inline fields would
be one of the declarations, and declarations that are accepted have none.

Hence to decode a declared structure comes to its end, with a value or with an error that is reported,
and decodes inside one another go only so deep: a structure comes again only behind a byte, so that
each comes at most once for every position that is left (`Emit.decoding_bounded`).
-/
namespace Wireform

namespace Schema

/-! ## 1. Names and inline fields of plans -/

/-- A kind and its shape have the same names. -/
theorem Kind.names_shape (kind : Kind) : (kind.shape "").names = kind.names := by
  have hwrap : ∀ (nullable : Bool) (shape : Shape),
      (Kind.shape.wrap nullable shape).names = shape.names := by
    intro nullable shape
    cases nullable <;> rfl
  induction kind with
  | primitive p => rfl
  | enum name repr => simp [Kind.shape, Kind.names, Shape.names]
  | nested name recursive => cases recursive <;> simp [Kind.shape, Kind.names, Shape.names]
  | list element nullable ih => simp only [Kind.shape, Kind.names, Shape.names, hwrap, ih]
  | array element nullable ih => simp only [Kind.shape, Kind.names, Shape.names, hwrap, ih]
  | map key value nullable ihkey ihvalue =>
    simp only [Kind.shape, Kind.names, Shape.names, hwrap, ihkey, ihvalue]

/-- The shape of a kind is a name only if the kind is that of a declared type. -/
theorem Kind.of_inline?_shape {kind : Kind} {name : String} (h : (kind.shape "").inline? = some name) :
    (∃ recursive, kind = .nested name recursive) ∨ ∃ repr, kind = .enum name repr := by
  cases kind with
  | enum other repr =>
    simp only [Kind.shape, Shape.inline?, Shape.bare, String.empty_append, Option.some.injEq] at h
    exact .inr ⟨repr, by rw [h]⟩
  | nested other recursive =>
    refine .inl ⟨recursive, ?_⟩
    cases recursive <;>
      simp only [Kind.shape, Shape.inline?, Shape.bare, String.empty_append, Option.some.injEq,
        Bool.false_eq_true, if_true, if_false] at h <;> rw [h]
  | _ => cases h

variable {known : KnownTypes} {decls : List TypeDecl}

/-- A structure in a plan without a slot is held by a field of its very type. -/
theorem PlannedFrom.exists_inline {holder : String} {slot : Nat} {fields : List FieldDecl}
    {plans : List FieldPlan} (h : PlannedFrom known holder slot fields plans) {plan : FieldPlan}
    (hplan : plan ∈ plans) (hslot : plan.slot = none) {name : String} {recursive : Bool}
    (hkind : plan.kind = .nested name recursive) :
    ∃ field ∈ fields, field.type = .named name := by
  induction h with
  | nil => cases hplan
  | @always slot field fields element kind plans helement hnullable hresolve _ ih =>
    rcases List.mem_cons.mp hplan with rfl | hmem
    · obtain ⟨⟨planned, hplanned⟩, -⟩ := (resolveNesting_nested_iff hresolve).mp hkind
      obtain ⟨htype, -⟩ := planType_nested helement hplanned hnullable
      exact ⟨field, List.mem_cons_self, htype⟩
    · obtain ⟨other, hother, htype⟩ := ih hmem
      exact ⟨other, List.mem_cons_of_mem _ hother, htype⟩
  | nullable _ _ _ _ ih =>
    rcases List.mem_cons.mp hplan with rfl | hmem
    · cases hslot
    · obtain ⟨other, hother, htype⟩ := ih hmem
      exact ⟨other, List.mem_cons_of_mem _ hother, htype⟩

end Schema

namespace Emit

open Schema (InlineEdge KnownTypes StructCode StructDecl TypeDecl analyze structures)

/-! ## 2. The catalogue of a run -/

/-- What a lowered type stands for, with its name. -/
def LoweredType.definition : LoweredType → String × Definition
  | .struct code => (code.name, .lowered "" code)
  | .enum e => (e.name, .enumeration e)

/-- The types of a run by their names. -/
def catalogueOf (lowered : List LoweredType) : Catalogue :=
  ⟨lowered.map LoweredType.definition⟩

variable {known : KnownTypes} {tags last : Schema.TagRegistry String} {decls : List TypeDecl}
  {lowered : List LoweredType}

/-- The entries have the names of the declarations. -/
theorem Lowers.names (h : Lowers known tags decls lowered last) :
    (catalogueOf lowered).entries.map Prod.fst = decls.map TypeDecl.name := by
  unfold catalogueOf
  induction h with
  | nil => rfl
  | struct _ hschema _ ih =>
    simp only [List.map_cons, ih, LoweredType.definition, name_of_analyze hschema, TypeDecl.name]
  | «enum» _ _ ih => simp only [List.map_cons, ih]; rfl

/-- What is known is an entry. -/
theorem Lowers.exists_get? (h : Lowers known tags decls lowered last)
    (hknown : known.Describes decls) {name : String} {entry : Schema.KnownType}
    (hname : known.get? name = some entry) :
    ∃ definition, (catalogueOf lowered).get? name = some definition := by
  obtain ⟨decl, hdecl, rfl, -⟩ := hknown.get?_eq_some_iff.mp hname
  have hmem : decl.name ∈ (catalogueOf lowered).entries.map Prod.fst := by
    rw [h.names]
    exact List.mem_map_of_mem hdecl
  obtain ⟨⟨key, definition⟩, hentry, rfl⟩ := List.mem_map.mp hmem
  rw [← Option.isSome_iff_exists]
  exact List.lookup_isSome_iff.mpr ⟨_, hentry, by simp⟩

/-- **An entry is a structure or an enumeration as it was declared.** -/
theorem Lowers.get?_cases (h : Lowers known tags decls lowered last)
    (hknown : known.Describes decls) {name : String} {definition : Definition}
    (hname : (catalogueOf lowered).get? name = some definition) :
    (∃ decl ∈ structures decls, decl.name = name ∧ ∃ tag schema,
      analyze decl known tag = .ok schema ∧ .struct (.ofSchema schema) ∈ lowered ∧
        definition = .lowered "" (.ofSchema schema)) ∨
      ∃ e repr, definition = .enumeration e ∧ known.get? name = some (.enum repr) := by
  obtain ⟨type, htype, heq⟩ := List.mem_map.mp (Catalogue.mem_of_get? hname)
  cases type with
  | struct code =>
    obtain ⟨decl, hdecl, tag, schema, hschema, rfl⟩ := h.exists_decl htype
    cases heq
    exact .inl ⟨decl, hdecl, (name_of_analyze hschema).symm, tag, schema, hschema, htype, rfl⟩
  | «enum» e =>
    obtain ⟨decl, hdecl, rfl⟩ := h.exists_enum htype
    cases heq
    exact .inr ⟨_, decl.repr, rfl, hknown.found (.enum decl) hdecl⟩

/-- A declared structure stands for its lowered form. -/
theorem Lowers.get?_structure (h : Lowers known tags decls lowered last)
    (hknown : known.Describes decls) {decl : StructDecl} (hdecl : decl ∈ structures decls) :
    ∃ code, .struct code ∈ lowered ∧ code.name = decl.name ∧
      (catalogueOf lowered).get? decl.name = some (.lowered "" code) := by
  have hget := Schema.get?_of_mem_structures hknown hdecl
  obtain ⟨definition, hdefinition⟩ := h.exists_get? hknown hget
  rcases h.get?_cases hknown hdefinition with
    ⟨other, hother, hname, tag, schema, hschema, hcode, rfl⟩ | ⟨e, repr, -, henum⟩
  · exact ⟨_, hcode, (name_of_analyze hschema).trans hname, hdefinition⟩
  · cases hget.symm.trans henum

/-- A record of the catalogue is a structure, with the fields of its plan. -/
theorem Lowers.exists_of_layout? (h : Lowers known tags decls lowered last)
    (hknown : known.Describes decls) {name : String} {fields : List FieldLayout}
    (hfields : (catalogueOf lowered).layout? name = some fields) :
    ∃ decl ∈ structures decls, decl.name = name ∧ ∃ tag schema,
      analyze decl known tag = .ok schema ∧
        fields = (schema.fields.map StructCodec.lowerField).map
          (StructCodec.layoutOf "" (catalogueOf lowered).initial) := by
  obtain ⟨definition, hdefinition, hlayout⟩ := Catalogue.exists_of_layout? hfields
  rcases h.get?_cases hknown hdefinition with
    ⟨decl, hdecl, hname, tag, schema, hschema, -, rfl⟩ | ⟨e, -, rfl, -⟩
  · refine ⟨decl, hdecl, hname, tag, schema, hschema, ?_⟩
    rw [← StructCodec.fields_ofSchema]
    exact (Option.some.inj hlayout).symm
  · cases hlayout

theorem Lowers.planned (h : Lowers known tags decls lowered last) (hknown : known.Describes decls) :
    (catalogueOf lowered).Planned := by
  intro name definition hname
  rcases h.get?_cases hknown hname with ⟨decl, -, -, tag, schema, hschema, -, rfl⟩ | ⟨e, -, rfl, -⟩
  · exact Schema.isPlanned_of_analyze hschema ""
  · exact trivial

/-- Whatever a structure mentions is declared. -/
theorem Lowers.closed (h : Lowers known tags decls lowered last) (hknown : known.Describes decls) :
    (catalogueOf lowered).Closed := by
  intro name fields hfields field hfield other hother
  obtain ⟨decl, -, -, tag, schema, hschema, rfl⟩ := h.exists_of_layout? hknown hfields
  rw [List.map_map] at hfield
  obtain ⟨plan, hplan, rfl⟩ := List.mem_map.mp hfield
  have hmem : other ∈ plan.kind.names := (Schema.Kind.names_shape plan.kind) ▸ hother
  obtain ⟨entry, hentry⟩ :=
    ((Schema.plannedFrom_of_analyze hschema).knownIn plan hplan).names other hmem
  exact h.exists_get? hknown hentry

/-- A structure that is held inline is held by a field of its very type. -/
theorem Lowers.inlineEdge (h : Lowers known tags decls lowered last)
    (hknown : known.Describes decls) {name other : String}
    (hinline : (catalogueOf lowered).Inline name other) {fields : List FieldLayout}
    (hother : (catalogueOf lowered).layout? other = some fields) : InlineEdge decls name other := by
  obtain ⟨layout, hlayout, -, field, hfield, hpresence, hshape⟩ := hinline
  obtain ⟨holder, hholder, rfl, tag, schema, hschema, rfl⟩ := h.exists_of_layout? hknown hlayout
  obtain ⟨held, hheld, rfl, -⟩ := h.exists_of_layout? hknown hother
  rw [List.map_map] at hfield
  obtain ⟨plan, hplan, rfl⟩ := List.mem_map.mp hfield
  have hplanned := Schema.plannedFrom_of_analyze hschema
  have hslot : plan.slot = none := by
    cases hslot : plan.slot with
    | none => rfl
    | some slot => simp [StructCodec.layoutOf, StructCodec.lowerField, hslot] at hpresence
  have hshape : (plan.kind.shape "").inline? = some held.name := hshape
  rcases Schema.Kind.of_inline?_shape hshape with ⟨recursive, hkind⟩ | ⟨repr, hkind⟩
  · exact ⟨holder, hholder, rfl, hplanned.exists_inline hplan hslot hkind, held, hheld, rfl⟩
  · -- an enumeration of that name would be known as well
    have hknownIn := hplanned.knownIn plan hplan
    rw [hkind] at hknownIn
    cases (Schema.get?_of_mem_structures hknown hheld).symm.trans hknownIn

/-- Where no declared structure holds itself inline, no record of the catalogue does. -/
theorem Lowers.grounded (h : Lowers known tags decls lowered last) (hknown : known.Describes decls)
    (hfinite : Schema.FinitelySized decls) : (catalogueOf lowered).Grounded := by
  -- what comes on the way of a circle holds something, so it is a structure
  have hpath : ∀ {name other : String}, Relation.TransGen (catalogueOf lowered).Inline name other →
      (∃ next, (catalogueOf lowered).Inline other next) →
        Relation.TransGen (InlineEdge decls) name other := by
    intro name other hpath
    induction hpath with
    | single hstep =>
      rintro ⟨next, fields, hfields, -⟩
      exact .single (h.inlineEdge hknown hstep hfields)
    | tail hfirst hstep ih =>
      rintro ⟨next, fields, hfields, -⟩
      exact .tail (ih ⟨_, hstep⟩) (h.inlineEdge hknown hstep hfields)
  intro name hcircle
  obtain ⟨next, hstep, -⟩ := Relation.TransGen.head'_iff.mp hcircle
  exact hfinite name (hpath hcircle ⟨next, hstep⟩)

/-! ## 3. Depth -/

/-- **Decoding a declared structure ends, and goes only so deep.**  Where files are generated, each
declared structure stands for its lowered form, and at every position of every buffer its decode ends
and goes no deeper than once through all structures for each position that is left. -/
theorem decoding_bounded [DecimalForm] (sharing : Sharing Value) {decls : List TypeDecl}
    {artifacts : List Artifact} (h : render decls = .ok artifacts) :
    ∃ lowered, lowerAll decls = .ok lowered ∧ artifacts = artifactsOf lowered ∧
      ∀ decl ∈ structures decls,
        (∃ code, .struct code ∈ lowered ∧ code.name = decl.name ∧
          (catalogueOf lowered).get? decl.name = some (.lowered "" code)) ∧
        ∀ buffer cursor, (catalogueOf lowered).DecodesWithin sharing buffer (structures decls).length
          decl.name cursor := by
  obtain ⟨lowered, hlowered, rfl⟩ := render_eq_ok_iff.mp h
  obtain ⟨known, tags, last, hofDecls, -, -, hlowers⟩ := lowerAll_eq_ok_iff.mp hlowered
  have hknown := KnownTypes.describes_of_ofDecls hofDecls
  have hnames : ∀ name fields, (catalogueOf lowered).layout? name = some fields →
      name ∈ (structures decls).map StructDecl.name := by
    intro name fields hfields
    obtain ⟨decl, hdecl, hname, -⟩ := hlowers.exists_of_layout? hknown hfields
    exact hname ▸ List.mem_map_of_mem hdecl
  refine ⟨lowered, hlowered, rfl, fun decl hdecl => ?_⟩
  obtain ⟨code, hcode, hname, hget⟩ := hlowers.get?_structure hknown hdecl
  refine ⟨⟨code, hcode, hname, hget⟩, fun buffer cursor => ?_⟩
  rw [← List.length_map (f := StructDecl.name)]
  exact (hlowers.planned hknown).decodesWithin (hlowers.closed hknown)
    (hlowers.grounded hknown (finitelySized_of_render h)) hnames (Catalogue.layout?_of_get? hget)
    cursor

open Samples

/-- In these three bytes a frame holds a link, and it another one, and it a last one, which makes four
structures inside one another. -/
theorem decoding_bounded_frame :
    ∃ artifacts, render [.struct frameStruct, .struct linkStruct] = .ok artifacts ∧
      frameStruct ∈ structures [.struct frameStruct, .struct linkStruct] ∧
      [("Frame", 0), ("Link", 0), ("Link", 1), ("Link", 2)].IsChain
        ((catalogueOf frameTypes).Enters Sharing.none [0, 0, 1]) ∧
      Reading.Contained [0, 0, 1] 0
        (((catalogueOf frameTypes).codecOf Sharing.none (.named "Frame")).read [0, 0, 1] 0) ∧
      [("Frame", 0), ("Link", 0), ("Link", 1), ("Link", 2)].Pairwise (fun outer inner =>
        outer.1 = inner.1 → outer.2 < inner.2 ∧ inner.2 ≤ 3) ∧
      [("Frame", 0), ("Link", 0), ("Link", 1), ("Link", 2)].length ≤ 2 * (3 - 0 + 1) := by
  obtain ⟨artifacts, hrender⟩ := render_frames
  have hmem : frameStruct ∈ structures [.struct frameStruct, .struct linkStruct] :=
    List.mem_cons_self
  have hfirst : (catalogueOf frameTypes).Enters Sharing.none [0, 0, 1] ("Frame", 0) ("Link", 0) :=
    ⟨⟨_, rfl⟩, _, rfl, .inl ⟨0, rfl⟩⟩
  have hsecond : (catalogueOf frameTypes).Enters Sharing.none [0, 0, 1] ("Link", 0) ("Link", 1) :=
    ⟨⟨_, rfl⟩, _, rfl, .inl ⟨1, rfl⟩⟩
  have hthird : (catalogueOf frameTypes).Enters Sharing.none [0, 0, 1] ("Link", 1) ("Link", 2) :=
    ⟨⟨_, rfl⟩, _, rfl, .inl ⟨2, rfl⟩⟩
  have hchain : [("Frame", 0), ("Link", 0), ("Link", 1), ("Link", 2)].IsChain
      ((catalogueOf frameTypes).Enters Sharing.none [0, 0, 1]) :=
    .cons_cons hfirst (.cons_cons hsecond (.cons_cons hthird (.singleton _)))
  obtain ⟨lowered, hlowered, -, hbounded⟩ := decoding_bounded Sharing.none hrender
  cases hlowered.symm.trans lowerAll_frames
  have hwithin := (hbounded frameStruct hmem).2 [0, 0, 1] 0
  exact ⟨artifacts, hrender, hmem, hchain, hwithin.read, hwithin.again _ hchain,
    hwithin.depth _ hchain⟩

end Emit

end Wireform
