import Wireform.Proofs.Lowered
import Wireform.Proofs.Planned

/-!
# Boxes around structures that lead back

A structure that holds another one in place, be it optional, is as large as that one and more.  So
where structures run in a circle something has to stand behind a box.  The plan of a field marks a
structure as recursive if it is the holder or leads back to it, and the emitted type of the field is
boxed then.

Both directions come from what the search of the analysis finds, which is exactly what edges lead to
(`KnownTypes.reaches_eq_true_iff`): an edge is boxed if and only if the way goes on from its end to
its start (`EmittedEdge.boxed_iff`).  From this alone the edges without a box have no circle: the
first edge of such a circle leads back to where it starts, and would be boxed.

The edges are those of the emitted text (`EmittedEdge`): a line of a structure's definition whose
type is the name of another structure, in a box or not, and optional or not.
-/
namespace Wireform

namespace Schema

/-! ## 1. Plans of structures that are held directly -/

variable {known : KnownTypes} {decls : List TypeDecl}

/-- **A structure is marked as recursive exactly if it leads back**: to its holder, or it is the
holder. -/
theorem resolveNesting_nested_iff {holder : String} {field : FieldDecl} {plan : ElementPlan}
    {kind : Kind} (h : resolveNesting known holder field plan = .ok kind) {name : String}
    {recursive : Bool} :
    kind = .nested name recursive ↔ (∃ planned, plan.kind = .nested name planned) ∧
      (recursive = true ↔ name = holder ∨ known.Leads true name holder) := by
  unfold resolveNesting at h
  split at h
  · next other planned hkind =>
    split at h
    · cases h
    · cases h
      simp only [hkind, Kind.nested.injEq]
      constructor
      · rintro ⟨rfl, rfl⟩
        exact ⟨⟨planned, rfl, rfl⟩, by simp [KnownTypes.reaches_eq_true_iff]⟩
      · rintro ⟨⟨_, rfl, -⟩, hback⟩
        refine ⟨rfl, Bool.eq_iff_iff.mpr ?_⟩
        rw [hback]
        simp [KnownTypes.reaches_eq_true_iff]
  · next hkind =>
    cases h
    constructor
    · intro heq
      exact absurd heq (hkind name recursive)
    · rintro ⟨⟨planned, heq⟩, -⟩
      exact absurd heq (hkind name planned)

/-- A declared field and its plan belong together. -/
def PlannedAs (known : KnownTypes) (holder : String) (field : FieldDecl) (plan : FieldPlan) : Prop :=
  ∃ element, planType known field.type = .ok element ∧
    resolveNesting known holder field element = .ok plan.kind

/-- Fields and plans stand in the same order. -/
theorem PlannedFrom.forall₂ {holder : String} {slot : Nat} {fields : List FieldDecl}
    {plans : List FieldPlan} (h : PlannedFrom known holder slot fields plans) :
    List.Forall₂ (PlannedAs known holder) fields plans := by
  induction h with
  | nil => exact .nil
  | always hplan _ hkind _ ih => exact .cons ⟨_, hplan, hkind⟩ ih
  | nullable hplan _ hkind _ ih => exact .cons ⟨_, hplan, hkind⟩ ih

/-- What a field holds directly, its plan marks as it leads back. -/
theorem PlannedAs.nested_iff {holder : String} {field : FieldDecl} {plan : FieldPlan}
    (h : PlannedAs known holder field plan) {name : String} {recursive : Bool} :
    plan.kind = .nested name recursive ↔
      (KnownTypes.directTarget? true field.type = some name ∧
        ∃ types, known.get? name = some (.struct types)) ∧
      (recursive = true ↔ name = holder ∨ known.Leads true name holder) := by
  obtain ⟨element, helement, hkind⟩ := h
  rw [resolveNesting_nested_iff hkind, planType_nested_iff helement]

/-- **The plan of a structure has the edges of its declaration**, and marks those that lead back. -/
theorem nested_iff_of_analyze {decl : StructDecl} {tag : Nat} {schema : TypeSchema}
    (h : analyze decl known tag = .ok schema) {name : String} {recursive : Bool} :
    (∃ plan ∈ schema.fields, plan.kind = .nested name recursive) ↔
      ((∃ field ∈ decl.fields, KnownTypes.directTarget? true field.type = some name) ∧
        ∃ types, known.get? name = some (.struct types)) ∧
      (recursive = true ↔ name = decl.name ∨ known.Leads true name decl.name) := by
  have hplanned := (plannedFrom_of_analyze h).forall₂
  generalize schema.fields = plans at hplanned
  generalize decl.fields = fields at hplanned
  induction hplanned with
  | nil => simp
  | @cons field plan fields plans hfield _ ih =>
    simp only [List.exists_mem_cons_iff, ih, hfield.nested_iff, or_and_right]

end Schema

namespace Emit

open Schema (HeldEdge Kind KnownTypes StructCode StructDecl TypeDecl analyze structures)

/-! ## 2. Edges of the emitted text -/

/-- A written type holds a name in place, or behind a box: as it is, or as what is optional. -/
inductive Holds : List Piece → (boxed : Bool) → String → Prop where
  | plain {name : String} : Holds [.ident name] false name
  | boxed {name : String} : Holds ["Box<", .ident name, ">"] true name
  | optional {type : List Piece} {boxed : Bool} {name : String} (h : Holds type boxed name) :
    Holds (enclose "Option<" type ">") boxed name

/-- A line of the definition of one emitted structure gives a field a type that holds another one. -/
def EmittedEdge (lowered : List LoweredType) (boxed : Bool) (source target : String) : Prop :=
  ∃ code held lines field type, .struct code ∈ lowered ∧ .struct held ∈ lowered ∧
    held.name = target ∧ structType code = .plainBlock ["pub struct ", .ident source] lines ∧
    .line ("pub " :: .ident field :: enclose ": " type ",") ∈ lines ∧ Holds type boxed target

theorem enclose_inj {before behind : String} {type other : List Piece} :
    enclose before type behind = enclose before other behind ↔ type = other := by
  simp [enclose]

/-- Only declared names are held by the type of a kind: structures, boxed if they are recursive, and
enumerations. -/
theorem holds_kindType_iff {kind : Kind} {boxed : Bool} {name : String} :
    Holds (kindType kind) boxed name ↔
      kind = .nested name boxed ∨ boxed = false ∧ ∃ repr, kind = .enum name repr := by
  constructor
  · intro h
    generalize htype : kindType kind = type at h
    cases h with
    | plain =>
      cases kind with
      | nested other recursive => cases recursive <;> simp_all [kindType]
      | _ => simp_all [kindType, enclose]
    | boxed =>
      cases kind with
      | nested other recursive => cases recursive <;> simp_all [kindType]
      | _ => simp_all [kindType, enclose]
    | optional =>
      cases kind with
      | nested other recursive => cases recursive <;> simp [kindType, enclose] at htype
      | primitive p => cases p <;> simp [kindType, enclose] at htype
      | _ => simp [kindType, enclose] at htype
  · rintro (rfl | ⟨rfl, repr, rfl⟩)
    · cases boxed
      · exact .plain
      · exact .boxed
    · exact .plain

/-- The type of a field holds what the type of its kind does. -/
theorem holds_fieldType_iff {kind : Kind} {nullable boxed : Bool} {name : String} :
    Holds (fieldType kind nullable) boxed name ↔ Holds (kindType kind) boxed name := by
  cases nullable with
  | false => exact Iff.rfl
  | true =>
    constructor
    · intro h
      generalize htype : fieldType kind true = type at h
      cases h with
      | plain => simp [fieldType, optionType, enclose] at htype
      | boxed => simp [fieldType, optionType, enclose] at htype
      | optional h =>
        rwa [← enclose_inj.mp htype] at h
    · exact .optional

/-- The lines of a structure's definition hold what its fields do. -/
theorem line_holds_iff {code : StructCode} {boxed : Bool} {source target : String} :
    (∃ lines field type, structType code = .plainBlock ["pub struct ", .ident source] lines ∧
      .line ("pub " :: .ident field :: enclose ": " type ",") ∈ lines ∧ Holds type boxed target) ↔
      code.name = source ∧ ∃ field ∈ code.fields, Holds (kindType field.2.1) boxed target := by
  constructor
  · rintro ⟨lines, field, type, htype, hline, hholds⟩
    simp only [structType, Code.plainBlock, Code.block.injEq, List.cons.injEq, Piece.ident.injEq,
      and_true, true_and] at htype
    obtain ⟨hname, rfl⟩ := htype
    obtain ⟨⟨name, kind, slot⟩, hmem, heq⟩ := List.mem_map.mp hline
    simp only [Code.line.injEq, List.cons.injEq, true_and, enclose_inj] at heq
    obtain ⟨-, rfl⟩ := heq
    exact ⟨hname, _, hmem, holds_fieldType_iff.mp hholds⟩
  · rintro ⟨rfl, ⟨name, kind, slot⟩, hmem, hholds⟩
    exact ⟨_, identOf name, fieldType kind slot.isSome, rfl, List.mem_map.mpr ⟨_, hmem, rfl⟩,
      holds_fieldType_iff.mpr hholds⟩

section

variable {known : KnownTypes} {tags last : Schema.TagRegistry String} {decls : List TypeDecl}
  {lowered : List LoweredType}

/-- What the fields of an emitted structure hold is what the plan of a declared one has. -/
theorem holds_ofSchema_iff {decl : StructDecl} {tag : Nat} {schema : Schema.TypeSchema}
    (h : analyze decl known tag = .ok schema) {boxed : Bool} {name : String}
    {types : List Schema.TypeRef} (hname : known.get? name = some (.struct types)) :
    (∃ field ∈ (StructCode.ofSchema schema).fields, Holds (kindType field.2.1) boxed name) ↔
      ∃ plan ∈ schema.fields, plan.kind = .nested name boxed := by
  simp only [StructCodec.fields_ofSchema, List.mem_map, exists_exists_and_eq_and,
    StructCodec.lowerField, holds_kindType_iff]
  refine exists_congr fun plan => and_congr_right fun hplan => ?_
  constructor
  · rintro (hkind | ⟨-, repr, hkind⟩)
    · exact hkind
    · -- the name is that of a structure, so no field holds an enumeration of that name
      have hknown := (Schema.plannedFrom_of_analyze h).knownIn plan hplan
      rw [hkind] at hknown
      cases hname.symm.trans hknown
  · exact .inl

/-- **The edges of the emitted text are those of the declarations**, and those that lead back are
boxed. -/
theorem emittedEdge_iff (hknown : known.Describes decls) (h : Lowers known tags decls lowered last)
    {boxed : Bool} {source target : String} :
    EmittedEdge lowered boxed source target ↔ HeldEdge decls true source target ∧
      (boxed = true ↔ target = source ∨ known.Leads true target source) := by
  constructor
  · rintro ⟨code, held, lines, field, type, hcode, hheld, rfl, hlines⟩
    obtain ⟨rfl, hholds⟩ := line_holds_iff.mp ⟨lines, field, type, hlines⟩
    obtain ⟨holder, hholder, tag, schema, hschema, rfl⟩ := h.exists_decl hcode
    obtain ⟨decl, hdecl, tag', schema', hschema', rfl⟩ := h.exists_decl hheld
    rw [name_of_analyze hschema'] at hholds ⊢
    rw [name_of_analyze hschema]
    rw [holds_ofSchema_iff hschema (Schema.get?_of_mem_structures hknown hdecl),
      Schema.nested_iff_of_analyze hschema] at hholds
    exact ⟨⟨holder, hholder, rfl, hholds.1.1, decl, hdecl, rfl⟩, hholds.2⟩
  · rintro ⟨⟨holder, hholder, rfl, hfield, decl, hdecl, rfl⟩, hback⟩
    obtain ⟨tag, schema, hschema, hcode⟩ := h.exists_code hholder
    obtain ⟨tag', schema', hschema', hheld⟩ := h.exists_code hdecl
    have hget := Schema.get?_of_mem_structures hknown hdecl
    have hholds := (holds_ofSchema_iff hschema hget).mpr
      ((Schema.nested_iff_of_analyze hschema).mpr ⟨⟨hfield, _, hget⟩, hback⟩)
    obtain ⟨lines, field, type, hlines⟩ := line_holds_iff.mpr ⟨name_of_analyze hschema, hholds⟩
    exact ⟨_, _, lines, field, type, hcode, hheld, name_of_analyze hschema', hlines⟩

/-- **An edge is boxed exactly if the way goes on from its end to its start.** -/
theorem EmittedEdge.boxed_iff (hknown : known.Describes decls)
    (h : Lowers known tags decls lowered last) {boxed : Bool} {source target : String}
    (hedge : EmittedEdge lowered boxed source target) :
    boxed = true ↔ Relation.ReflTransGen (HeldEdge decls true) target source := by
  obtain ⟨⟨holder, hholder, rfl, -⟩, hback⟩ := (emittedEdge_iff hknown h).mp hedge
  rw [hback, Relation.reflTransGen_iff_eq_or_transGen, Schema.leads_iff_held hknown hholder,
    eq_comm]

end

/-! ## 3. Generation -/

/-- **Emitted structures have a finite size, and no box too many.**  The text of a declared structure
holds another structure, in place or in a box, exactly where a field of the declaration holds it,
nullable or not.  The field is boxed if and only if it lies on a circle of such edges, and the edges
without a box have no circle. -/
theorem boxed_exactly_on_circles {decls : List TypeDecl} {artifacts : List Artifact}
    (h : render decls = .ok artifacts) :
    ∃ lowered, lowerAll decls = .ok lowered ∧ artifacts = artifactsOf lowered ∧
      (∀ source target, (∃ boxed, EmittedEdge lowered boxed source target) ↔
        HeldEdge decls true source target) ∧
      (∀ boxed source target, EmittedEdge lowered boxed source target →
        (boxed = true ↔ Relation.ReflTransGen
          (fun a b => ∃ boxed, EmittedEdge lowered boxed a b) target source)) ∧
      ∀ name, ¬Relation.TransGen (EmittedEdge lowered false) name name := by
  obtain ⟨lowered, hlowered, rfl⟩ := render_eq_ok_iff.mp h
  obtain ⟨known, tags, last, hknown, -, -, hlowers⟩ := lowerAll_eq_ok_iff.mp hlowered
  have hknown := KnownTypes.describes_of_ofDecls hknown
  have hedges : ∀ source target, (∃ boxed, EmittedEdge lowered boxed source target) ↔
      HeldEdge decls true source target := by
    intro source target
    simp only [emittedEdge_iff hknown hlowers, exists_and_left, and_iff_left_iff_imp]
    intro _
    by_cases hback : target = source ∨ known.Leads true target source
    · exact ⟨true, by simp [hback]⟩
    · exact ⟨false, by simp [hback]⟩
  have hall : (fun a b => ∃ boxed, EmittedEdge lowered boxed a b) = HeldEdge decls true :=
    funext fun a => funext fun b => propext (hedges a b)
  refine ⟨lowered, hlowered, rfl, hedges, fun boxed source target hedge => ?_, fun name hcircle => ?_⟩
  · rw [hall]
    exact hedge.boxed_iff hknown hlowers
  · -- the first edge of the circle leads back to where it starts
    obtain ⟨next, hedge, hrest⟩ := Relation.TransGen.head'_iff.mp hcircle
    have hback : Relation.ReflTransGen (HeldEdge decls true) next name :=
      Relation.ReflTransGen.mono (fun a b hab => (hedges a b).mp ⟨false, hab⟩) _ _ hrest
    exact Bool.noConfusion ((hedge.boxed_iff hknown hlowers).mpr hback)

open Samples (frameStruct linkStruct render_frames)

/-- A frame holds a link as it is, and a link holds the next one in a box. -/
theorem boxed_exactly_on_circles_frame :
    (∃ artifacts, render [.struct frameStruct, .struct linkStruct] = .ok artifacts) ∧
      ∃ lowered, lowerAll [.struct frameStruct, .struct linkStruct] = .ok lowered ∧
        EmittedEdge lowered false "Frame" "Link" ∧ EmittedEdge lowered true "Link" "Link" := by
  obtain ⟨artifacts, hrender⟩ := render_frames
  obtain ⟨lowered, hlowered, -, hedges, hboxed, hfinite⟩ := boxed_exactly_on_circles hrender
  obtain ⟨first, hfirst⟩ := (hedges "Frame" "Link").mpr
    ⟨frameStruct, by simp [structures], rfl, ⟨_, List.mem_cons_self, rfl⟩, linkStruct,
      by simp [structures], rfl⟩
  obtain ⟨next, hnext⟩ := (hedges "Link" "Link").mpr
    ⟨linkStruct, by simp [structures], rfl, ⟨_, List.mem_cons_self, rfl⟩, linkStruct,
      by simp [structures], rfl⟩
  have hstays : ∀ name, Relation.ReflTransGen
      (fun a b => ∃ boxed, EmittedEdge lowered boxed a b) "Link" name → name = "Link" := by
    intro name hpath
    induction hpath with
    | refl => rfl
    | tail _ hstep ih =>
      obtain ⟨holder, hholder, hname, ⟨field, hfield, htarget⟩, -⟩ := (hedges _ _).mp hstep
      simp only [structures, List.filterMap_cons, List.filterMap_nil, List.mem_cons,
        List.not_mem_nil, or_false] at hholder
      rcases hholder with rfl | rfl
      · exact absurd (hname.trans ih) (by decide)
      · simp only [linkStruct, List.mem_singleton] at hfield
        subst hfield
        cases htarget
        rfl
  refine ⟨⟨artifacts, hrender⟩, lowered, hlowered, ?_, ?_⟩
  · cases first with
    | false => exact hfirst
    | true =>
      have hpath := (hboxed true "Frame" "Link" hfirst).mp rfl
      exact absurd (hstays _ hpath) (by decide)
  · cases next with
    | false => exact absurd (.single hnext) (hfinite "Link")
    | true => exact hnext

end Emit

end Wireform
