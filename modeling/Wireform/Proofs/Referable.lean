import Wireform.Describe
import Wireform.Proofs.Assignment
import Wireform.Proofs.Grammar
import Wireform.Proofs.Manifests
import Wireform.Proofs.WellFormed

/-!
# Declared types in type references

A declared type can be referred to by its name unless that name is `list`, `array` or `map`, which
lead a collection in a type reference.  A name that leads no collection, is an identifier and names
no primitive is read as itself (`IsLeafName`); the set of declared types asks for all of this except
the first (`IsTypeName`).

So a type of a field is read back from its text exactly if it refers to no type of these three names
(`parse_text_iff_of_render`), and with it a manifest (`Manifest.parse_compact_eq_self_iff`).
-/
namespace Wireform.Schema

/-! ## 1. Types that are read back -/

theorem TypeRef.parse_text_eq_ok_iff (type : TypeRef) :
    TypeRef.parse type.text = .ok type ↔ type.WellNamed := by
  rw [TypeRef.parse_eq_ok_iff]
  exact and_iff_left (TypeRef.spaced_text type)

/-- All names in a type can mean a declared type, at whatever depth they stand. -/
theorem TypeRef.wellNamed_iff (type : TypeRef) :
    type.WellNamed ↔ ∀ name, .named name ∈ type.parts → IsLeafName name := by
  induction type with
  | primitive p => simp [WellNamed, parts]
  | named name => simp [WellNamed, parts]
  | list element ih => simp [WellNamed, parts, ih]
  | array element ih => simp [WellNamed, parts, ih]
  | map key value ihkey ihvalue => simp [WellNamed, parts, ihkey, ihvalue, or_imp, forall_and]
  | optional inner ih => simp [WellNamed, parts, ih]

theorem IsTypeName.isLeafName_iff {name : String} (h : IsTypeName name) :
    IsLeafName name ↔ name ∉ collectionNames := by
  constructor
  · exact IsLeafName.notCollection
  · intro hcollection
    exact ⟨h.identifier, Primitive.ofName?_eq_none_iff.mp h.notPrimitive, hcollection⟩

theorem wellNamed_iff_of_types {decls : List TypeDecl} {known : KnownTypes}
    (hknown : KnownTypes.ofDecls decls = .ok known) {type : TypeRef}
    (h : ∀ part ∈ type.parts, part.MayStand known) :
    type.WellNamed ↔ ∀ name ∈ collectionNames, .named name ∉ type.parts := by
  rw [TypeRef.wellNamed_iff]
  constructor
  · intro hleaf name hcollection hname
    exact (hleaf name hname).notCollection hcollection
  · intro hnone name hname
    obtain ⟨entry, hentry⟩ := h _ hname
    have htype := KnownTypes.isTypeName_of_ofDecls hknown hentry
    exact htype.isLeafName_iff.mpr fun hcollection => hnone name hcollection hname

/-- A type of a rendered declaration may stand where it stands. -/
theorem exists_known_of_render {decls : List TypeDecl} {artifacts : List Emit.Artifact}
    (h : Emit.render decls = .ok artifacts) :
    ∃ known, KnownTypes.ofDecls decls = .ok known ∧
      ∀ decl ∈ decls, ∀ type ∈ decl.fieldTypes, ∀ part ∈ type.parts, part.MayStand known := by
  obtain ⟨known, hknown, hanalyzed⟩ := (Emit.acceptable_of_render h).analyzed
  refine ⟨known, hknown, ?_⟩
  intro decl hdecl type htype
  cases decl with
  | enum decl => cases htype
  | struct decl =>
    obtain ⟨field, hfield, rfl⟩ := List.mem_map.mp htype
    obtain ⟨tag, hschema⟩ := hanalyzed decl (mem_structures.mpr hdecl)
    exact (exists_analyze_iff.mp hschema).types field hfield

/-! ## 2. Described types -/

/-- A declaration that a type with a codec gives of itself, with a tag of one byte if any. -/
def TypeDecl.IsDescribed (decl : TypeDecl) : Prop :=
  ∃ (name : String) (tag : Option Nat) (definition : Definition),
    (∀ n ∈ tag, n < 256) ∧ definition.declare? name tag = some decl

theorem TypeDecl.IsDescribed.inRange {decl : TypeDecl} (h : decl.IsDescribed) : decl.InRange := by
  obtain ⟨name, tag, definition, htag, hdecl⟩ := h
  cases definition with
  | record fields =>
    simp only [Definition.declare?, Option.bind_eq_bind, Option.bind_eq_some_iff] at hdecl
    obtain ⟨declared, -, hdecl⟩ := hdecl
    cases hdecl
    exact htag
  | enumeration e =>
    cases hdecl
    intro variant hvariant
    obtain ⟨v, -, rfl⟩ := List.mem_map.mp hvariant
    exact IntFormat.contains_wrap (by decide) v.discriminant
  | lowered _ _ => cases hdecl

/-! ## 3. Names that can be referred to -/

/-- **A declared type can be referred to by its name unless it is called `list`, `array` or `map`.**
So a type of a rendered schema is read back from its text exactly if it refers to no type of these
names, and a manifest of described types is read back exactly if all of their types can be. -/
theorem declared_names_referable (decls : List TypeDecl) :
    (∀ known, KnownTypes.ofDecls decls = .ok known → ∀ decl ∈ decls,
      (TypeRef.parse decl.name = .ok (.named decl.name) ↔ decl.name ∉ collectionNames)) ∧
    (∀ artifacts, Emit.render decls = .ok artifacts → ∀ decl ∈ decls, ∀ type ∈ decl.fieldTypes,
      (TypeRef.parse type.text = .ok type ↔ ∀ name ∈ collectionNames, .named name ∉ type.parts)) ∧
    ((∀ decl ∈ decls, decl.IsDescribed) →
      (Manifest.parse (Manifest.mk decls).toJson.compact = .ok ⟨decls⟩ ↔
        ∀ decl ∈ decls, ∀ type ∈ decl.fieldTypes, type.WellNamed) ∧
      ∀ artifacts, Emit.render decls = .ok artifacts →
        (Manifest.parse (Manifest.mk decls).toJson.compact = .ok ⟨decls⟩ ↔
          ∀ decl ∈ decls, ∀ type ∈ decl.fieldTypes,
            ∀ name ∈ collectionNames, .named name ∉ type.parts)) := by
  have hrendered : ∀ artifacts, Emit.render decls = .ok artifacts →
      ∀ decl ∈ decls, ∀ type ∈ decl.fieldTypes,
        (type.WellNamed ↔ ∀ name ∈ collectionNames, .named name ∉ type.parts) := by
    intro artifacts hrender decl hdecl type htype
    obtain ⟨known, hknown, hstands⟩ := exists_known_of_render hrender
    exact wellNamed_iff_of_types hknown (hstands decl hdecl type htype)
  refine ⟨?_, ?_, ?_⟩
  · intro known hknown decl hdecl
    have htype := (KnownTypes.ofDecls_eq_ok_iff.mp hknown).1 decl hdecl
    exact (TypeRef.parse_text_eq_ok_iff (.named decl.name)).trans htype.isLeafName_iff
  · intro artifacts hrender decl hdecl type htype
    exact type.parse_text_eq_ok_iff.trans (hrendered artifacts hrender decl hdecl type htype)
  · intro hdescribed
    have hread := Manifest.parse_compact_eq_self_iff ⟨decls⟩
      fun decl hdecl => (hdescribed decl hdecl).inRange
    simp only [TypeRef.parse_text_eq_ok_iff] at hread
    refine ⟨hread, ?_⟩
    intro artifacts hrender
    exact hread.trans (forall₂_congr fun decl hdecl => forall₂_congr fun type htype =>
      hrendered artifacts hrender decl hdecl type htype)

theorem declared_names_referable_frames :
    TypeRef.parse "Frame" = .ok (.named "Frame") ∧
      Manifest.parse
          (Manifest.mk [.struct Samples.frameStruct, .struct Samples.linkStruct]).toJson.compact
        = .ok ⟨[.struct Samples.frameStruct, .struct Samples.linkStruct]⟩ := by
  obtain ⟨hnames, -, hmanifest⟩ :=
    declared_names_referable [.struct Samples.frameStruct, .struct Samples.linkStruct]
  have hdescribed : ∀ decl ∈ [TypeDecl.struct Samples.frameStruct, .struct Samples.linkStruct],
      decl.IsDescribed := by
    intro decl hdecl
    rw [List.mem_pair] at hdecl
    rcases hdecl with rfl | rfl
    · exact ⟨"Frame", none, .record [⟨"first", .plain (.named "Link")⟩], by simp, rfl⟩
    · exact ⟨"Link", none, .record [⟨"next", .nullable (.named "Link")⟩], by simp, rfl⟩
  obtain ⟨artifacts, hrender⟩ := Samples.render_frames
  exact ⟨(hnames Samples.frameKnown rfl _ List.mem_cons_self).mpr (by decide),
    ((hmanifest hdescribed).2 artifacts hrender).mpr (by decide)⟩

end Wireform.Schema

namespace Wireform.Samples

open Schema (KnownTypes Manifest TypeDecl TypeRef)

/-- A type called `list`, and one that has a field of it. -/
def sheetDecls : List TypeDecl :=
  [.struct ⟨"list", none, []⟩, .struct ⟨"Sheet", none, [⟨"rows", .named "list"⟩]⟩]

/-- What is known of them. -/
def sheetKnown : KnownTypes := ⟨[("list", .struct []), ("Sheet", .struct [.named "list"])]⟩

theorem analyze_sheet :
    Schema.analyze ⟨"Sheet", none, [⟨"rows", .named "list"⟩]⟩ sheetKnown 2
      = .ok ⟨"Sheet", 2, [⟨"rows", .nested "list" false, none⟩]⟩ := by
  have hrows : Schema.checkName "rows" = .ok () := rfl
  have hkind : Schema.resolveNesting sheetKnown "Sheet" ⟨"rows", .named "list"⟩
      ⟨.nested "list" false, false⟩ = .ok (.nested "list" false) := rfl
  have hplan : Schema.planType sheetKnown (.named "list") = .ok ⟨.nested "list" false, false⟩ := rfl
  simp only [Schema.analyze, List.foldlM_cons, List.foldlM_nil, Schema.Progress.step, hrows, hplan,
    hkind, Except.mapError, bind, Except.bind, pure, Except.pure, Std.HashSet.contains_empty]
  rfl

theorem render_sheets : ∃ artifacts, Emit.render sheetDecls = .ok artifacts := by
  have hknown : KnownTypes.ofDecls sheetDecls = .ok sheetKnown := rfl
  have hnames : Emit.checkGeneratedNames sheetDecls = .ok () := rfl
  have htags : sheetDecls.foldlM Emit.claimTag Schema.TagRegistry.empty = .ok ⟨[]⟩ := rfl
  have hlist : Emit.assignTag ⟨[]⟩ ⟨"list", none, []⟩ = .ok (1, ⟨[⟨1, "list", "list"⟩]⟩) := rfl
  have hempty : Schema.analyze ⟨"list", none, []⟩ sheetKnown 1 = .ok ⟨"list", 1, []⟩ := rfl
  have hsheet : Emit.assignTag ⟨[⟨1, "list", "list"⟩]⟩ ⟨"Sheet", none, [⟨"rows", .named "list"⟩]⟩
      = .ok (2, ⟨[⟨1, "list", "list"⟩, ⟨2, "Sheet", "Sheet"⟩]⟩) := rfl
  simp only [Emit.render, Emit.lowerAll, hknown, hnames, htags, bind, Except.bind, pure, Except.pure]
  simp only [sheetDecls, List.foldlM_cons, List.foldlM_nil, Emit.lowerNext, hlist, hempty, hsheet,
    analyze_sheet, bind, Except.bind, pure, Except.pure, Except.ok.injEq, exists_eq']

/-- **A type called `list` is declared and rendered, and nothing can refer to it.** -/
theorem list_not_referable :
    KnownTypes.ofDecls sheetDecls = .ok sheetKnown ∧
      (∃ artifacts, Emit.render sheetDecls = .ok artifacts) ∧
      (∀ decl ∈ sheetDecls, decl.IsDescribed) ∧
      TypeRef.parse "list" ≠ .ok (.named "list") ∧
      Manifest.parse (Manifest.mk sheetDecls).toJson.compact = .error .wrongShape := by
  have hdescribed : ∀ decl ∈ sheetDecls, decl.IsDescribed := by
    intro decl hdecl
    rw [sheetDecls, List.mem_pair] at hdecl
    rcases hdecl with rfl | rfl
    · exact ⟨"list", none, .record [], by simp, rfl⟩
    · exact ⟨"Sheet", none, .record [⟨"rows", .plain (.named "list")⟩], by simp, rfl⟩
  refine ⟨rfl, render_sheets, hdescribed, by decide, ?_⟩
  rw [Manifest.parse_compact ⟨sheetDecls⟩ fun decl hdecl => (hdescribed decl hdecl).inRange]
  rfl

end Wireform.Samples
