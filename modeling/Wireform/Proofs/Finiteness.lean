import Wireform.Emit.Render
import Wireform.Proofs.Declaration
import Wireform.Proofs.Known

/-!
# Types of finite size

A structure that holds itself inline, however many other structures come between, would have no end.
The analysis looks at one field at a time: a structure that the field holds inline must neither be
its holder nor lead back to it.

That is enough.  If declared structures run in a circle, an edge leads from each of them to the next,
and from the next back to it: so whichever of them is analysed first is refused
(`Emit.finitelySized_of_render`).  And a field that is refused for that reason closes a circle
(`FinitelySized.not_infinitelySized`).
-/
namespace Wireform

/-! ## 1. Steps of a fold -/

/-- Each item of a fold that succeeds is taken in a step that does. -/
theorem exists_step_of_foldlM {ε σ α : Type} {step : σ → α → Except ε σ} {items : List α}
    {first last : σ} (h : items.foldlM step first = .ok last) {item : α} (hitem : item ∈ items) :
    ∃ before after, step before item = .ok after := by
  induction items generalizing first with
  | nil => cases hitem
  | cons head items ih =>
    rw [List.foldlM_cons] at h
    obtain ⟨next, hnext, hrest⟩ := Schema.bind_eq_ok h
    rcases List.mem_cons.mp hitem with rfl | hmem
    · exact ⟨first, next, hnext⟩
    · exact ih hrest hmem

/-- A fold that fails has an item at which a step does. -/
theorem exists_step_of_foldlM_error {ε σ α : Type} {step : σ → α → Except ε σ} {items : List α}
    {first : σ} {fault : ε} (h : items.foldlM step first = .error fault) :
    ∃ item ∈ items, ∃ before, step before item = .error fault := by
  induction items generalizing first with
  | nil => cases h
  | cons head items ih =>
    rw [List.foldlM_cons] at h
    cases hstep : step first head with
    | error other =>
      rw [hstep] at h
      cases h
      exact ⟨head, List.mem_cons_self, first, hstep⟩
    | ok next =>
      rw [hstep] at h
      obtain ⟨item, hitem, hfails⟩ := ih h
      exact ⟨item, List.mem_cons_of_mem _ hitem, hfails⟩

namespace Schema

/-! ## 2. Structures held inline -/

/-- A declared structure has a field that is not nullable and whose type is a declared structure. -/
def InlineEdge (decls : List TypeDecl) (source target : String) : Prop :=
  ∃ holder ∈ structures decls, holder.name = source ∧
    (∃ field ∈ holder.fields, field.type = .named target) ∧
    ∃ held ∈ structures decls, held.name = target

/-- No structure holds itself inline, on whatever way. -/
def FinitelySized (decls : List TypeDecl) : Prop :=
  ∀ name, ¬Relation.TransGen (InlineEdge decls) name name

theorem mem_structures {decls : List TypeDecl} {decl : StructDecl} :
    decl ∈ structures decls ↔ .struct decl ∈ decls := by
  unfold structures
  rw [List.mem_filterMap]
  constructor
  · rintro ⟨entry, hentry, heq⟩
    cases entry with
    | struct found =>
      cases heq
      exact hentry
    | «enum» found => cases heq
  · exact fun h => ⟨_, h, rfl⟩

variable {decls : List TypeDecl} {known : KnownTypes}

/-- The names of structures are known as such. -/
theorem get?_of_mem_structures (hknown : known.Describes decls) {decl : StructDecl}
    (hdecl : decl ∈ structures decls) :
    known.get? decl.name = some (.struct (decl.fields.map FieldDecl.type)) :=
  hknown.found (.struct decl) (mem_structures.mp hdecl)

/-- What is known as a structure is declared as one. -/
theorem exists_of_get?_struct (hknown : known.Describes decls) {name : String}
    {types : List TypeRef} (h : known.get? name = some (.struct types)) :
    ∃ decl ∈ structures decls, decl.name = name ∧ types = decl.fields.map FieldDecl.type := by
  obtain ⟨entry, hentry, hname, heq⟩ := hknown.get?_eq_some_iff.mp h
  cases entry with
  | struct decl =>
    cases heq
    exact ⟨decl, mem_structures.mpr hentry, hname, rfl⟩
  | «enum» decl => cases heq

/-- An edge that is not through null is that of a field of the very type. -/
theorem directTarget?_false {type : TypeRef} {name : String} :
    KnownTypes.directTarget? false type = some name ↔ type = .named name := by
  cases type <;> simp [KnownTypes.directTarget?]

/-- A declared structure has a field that holds a declared structure directly; `throughNull` looks
behind nullability. -/
def HeldEdge (decls : List TypeDecl) (throughNull : Bool) (source target : String) : Prop :=
  ∃ holder ∈ structures decls, holder.name = source ∧
    (∃ field ∈ holder.fields, KnownTypes.directTarget? throughNull field.type = some target) ∧
    ∃ held ∈ structures decls, held.name = target

/-- What is held inline is held without a null. -/
theorem inlineEdge_eq : InlineEdge decls = HeldEdge decls false := by
  funext source target
  unfold InlineEdge HeldEdge
  simp only [directTarget?_false]

theorem edge_of_heldEdge (hknown : known.Describes decls) {throughNull : Bool}
    {source target : String} (h : HeldEdge decls throughNull source target) :
    known.Edge throughNull source target := by
  obtain ⟨holder, hholder, rfl, ⟨field, hfield, htarget⟩, -⟩ := h
  unfold KnownTypes.Edge KnownTypes.targets
  rw [get?_of_mem_structures hknown hholder]
  exact List.mem_filterMap.mpr ⟨field.type, List.mem_map_of_mem hfield, htarget⟩

theorem heldEdge_of_edge (hknown : known.Describes decls) {throughNull : Bool}
    {source target : String} (h : known.Edge throughNull source target) {held : StructDecl}
    (hheld : held ∈ structures decls) (hname : held.name = target) :
    HeldEdge decls throughNull source target := by
  unfold KnownTypes.Edge KnownTypes.targets at h
  split at h
  · next types hget =>
    obtain ⟨holder, hholder, hsource, rfl⟩ := exists_of_get?_struct hknown hget
    obtain ⟨type, htype, htarget⟩ := List.mem_filterMap.mp h
    obtain ⟨field, hfield, rfl⟩ := List.mem_map.mp htype
    exact ⟨holder, hholder, hsource, ⟨field, hfield, htarget⟩, held, hheld, hname⟩
  · cases h

/-- What has an edge is declared as a structure. -/
theorem exists_of_edge (hknown : known.Describes decls) {source target : String}
    {throughNull : Bool} (h : known.Edge throughNull source target) :
    ∃ decl ∈ structures decls, decl.name = source := by
  unfold KnownTypes.Edge KnownTypes.targets at h
  split at h
  · next types hget =>
    obtain ⟨decl, hdecl, hname, -⟩ := exists_of_get?_struct hknown hget
    exact ⟨decl, hdecl, hname⟩
  · cases h

/-- **A structure is led to by edges exactly if it is held**, on whatever way: what comes on the way
has edges, and so is a structure. -/
theorem leads_iff_held (hknown : known.Describes decls) {throughNull : Bool} {source : String}
    {held : StructDecl} (hheld : held ∈ structures decls) :
    known.Leads throughNull source held.name ↔
      Relation.TransGen (HeldEdge decls throughNull) source held.name := by
  constructor
  · intro h
    induction h using Relation.TransGen.head_induction_on with
    | single hedge => exact .single (heldEdge_of_edge hknown hedge hheld rfl)
    | head hedge hleads ih =>
      obtain ⟨next, hnext, -⟩ := Relation.TransGen.head'_iff.mp hleads
      obtain ⟨decl, hdecl, hname⟩ := exists_of_edge hknown hnext
      exact .head (heldEdge_of_edge hknown hedge hdecl hname) ih
  · exact Relation.TransGen.mono (fun _ _ => edge_of_heldEdge hknown) _ _

/-- Edges that are not through null lead to what is held inline. -/
theorem leads_iff (hknown : known.Describes decls) {source : String} {held : StructDecl}
    (hheld : held ∈ structures decls) :
    known.Leads false source held.name ↔
      Relation.TransGen (InlineEdge decls) source held.name := by
  rw [inlineEdge_eq]
  exact leads_iff_held hknown hheld

/-! ## 3. Fields -/

/-- What is done in two parts fails in the first or in the second. -/
theorem bind_eq_error {ε α β : Type} {first : Except ε α} {next : α → Except ε β} {fault : ε}
    (h : (first >>= next) = .error fault) :
    first = .error fault ∨ ∃ value, first = .ok value ∧ next value = .error fault := by
  cases first with
  | error other =>
    cases h
    exact .inl rfl
  | ok value => exact .inr ⟨value, rfl, h⟩

/-- A structure is planned as nested exactly for a type that holds it directly. -/
theorem planType_nested_iff {type : TypeRef} {plan : ElementPlan}
    (h : planType known type = .ok plan) {name : String} :
    (∃ recursive, plan.kind = .nested name recursive) ↔
      KnownTypes.directTarget? true type = some name ∧
        ∃ types, known.get? name = some (.struct types) := by
  induction type generalizing plan with
  | primitive p =>
    cases h
    simp [KnownTypes.directTarget?]
  | named other =>
    unfold planType at h
    split at h
    · next repr hget =>
      cases h
      simp only [reduceCtorEq, exists_false, KnownTypes.directTarget?, Option.some.injEq, false_iff]
      rintro ⟨rfl, types, htypes⟩
      cases hget.symm.trans htypes
    · next types hget =>
      cases h
      simp only [KnownTypes.directTarget?, Kind.nested.injEq, Option.some.injEq]
      constructor
      · rintro ⟨_, rfl, -⟩
        exact ⟨rfl, types, hget⟩
      · rintro ⟨rfl, -⟩
        exact ⟨false, rfl, rfl⟩
    · cases h
  | list element _ =>
    obtain ⟨_, -, h⟩ := bind_eq_ok h
    cases h
    simp [KnownTypes.directTarget?]
  | array element _ =>
    obtain ⟨_, -, h⟩ := bind_eq_ok h
    cases h
    simp [KnownTypes.directTarget?]
  | map key value _ _ =>
    obtain ⟨_, -, h⟩ := bind_eq_ok h
    obtain ⟨_, -, h⟩ := bind_eq_ok h
    obtain ⟨_, -, h⟩ := bind_eq_ok h
    cases h
    simp [KnownTypes.directTarget?]
  | optional inner ih =>
    obtain ⟨innerPlan, hinner, -, rfl⟩ := planType_optional h
    have hnested := ih hinner
    exact hnested

/-- If the plan is not nullable, the type is that of the structure itself. -/
theorem planType_nested {type : TypeRef} {plan : ElementPlan} {name : String} {recursive : Bool}
    (h : planType known type = .ok plan) (hkind : plan.kind = .nested name recursive)
    (hnullable : plan.nullable = false) :
    type = .named name ∧ ∃ types, known.get? name = some (.struct types) := by
  obtain ⟨htarget, htypes⟩ := (planType_nested_iff h).mp ⟨recursive, hkind⟩
  cases type with
  | named other =>
    cases htarget
    exact ⟨rfl, htypes⟩
  | optional inner =>
    obtain ⟨_, -, -, rfl⟩ := planType_optional h
    cases hnullable
  | _ => cases htarget

/-- A field of a structure's very type is planned as nested. -/
theorem planType_named {name : String} {types : List TypeRef} {plan : ElementPlan}
    (hget : known.get? name = some (.struct types)) (h : planType known (.named name) = .ok plan) :
    plan = ⟨.nested name false, false⟩ := by
  unfold planType at h
  rw [hget] at h
  cases h
  rfl

/-- A structure that a field holds inline, and that is accepted, does not lead back. -/
theorem not_leads_of_resolveNesting {holder name : String} {field : FieldDecl} {kind : Kind}
    (h : resolveNesting known holder field ⟨.nested name false, false⟩ = .ok kind) :
    name ≠ holder ∧ ¬known.Leads false name holder := by
  unfold resolveNesting at h
  dsimp only at h
  split at h
  · cases h
  · next hback =>
    rw [Bool.not_false, Bool.true_and, Bool.or_eq_true, not_or, beq_iff_eq,
      KnownTypes.reaches_eq_true_iff] at hback
    exact hback

/-- A field is refused as infinitely sized only if what it holds inline leads back. -/
theorem leads_of_resolveNesting_error {holder : String} {field : FieldDecl} {plan : ElementPlan}
    {fault : SchemaError} (h : resolveNesting known holder field plan = .error fault) :
    ∃ name recursive, plan.kind = .nested name recursive ∧ plan.nullable = false ∧
      (name = holder ∨ known.Leads false name holder) := by
  unfold resolveNesting at h
  split at h
  · next name recursive hkind =>
    split at h
    · next hback =>
      rw [Bool.and_eq_true, Bool.not_eq_true', Bool.or_eq_true, beq_iff_eq,
        KnownTypes.reaches_eq_true_iff] at hback
      exact ⟨name, recursive, hkind, hback.1, hback.2⟩
    · cases h
  · cases h

/-- What a step of the analysis refuses as infinitely sized was planned, and refused then. -/
theorem Progress.step_eq_infinitelySized {holder other name : String} {progress : Progress}
    {field : FieldDecl}
    (h : Progress.step known holder progress field = .error (.infinitelySized other name)) :
    ∃ plan, planType known field.type = .ok plan ∧
      resolveNesting known holder field plan = .error (.infinitelySized other name) := by
  rcases bind_eq_error h with hname | ⟨_, -, h⟩
  · unfold checkName at hname
    split at hname <;> cases hname
  · dsimp only at h
    split at h
    · cases h
    · rcases bind_eq_error h with hplan | ⟨plan, hplan, h⟩
      · cases hresult : planType known field.type with
        | error problem =>
          rw [hresult] at hplan
          cases problem <;> cases hplan
        | ok plan =>
          rw [hresult] at hplan
          cases hplan
      · refine ⟨plan, eq_ok_of_mapError hplan, ?_⟩
        rcases bind_eq_error h with hkind | ⟨kind, hkind, h⟩
        · exact hkind
        · split at h
          · split at h <;> cases h
          · cases h

/-- Each field that is planned was planned by its type and passed the check of what it holds. -/
theorem PlannedFrom.exists_kind {holder : String} {slot : Nat} {fields : List FieldDecl}
    {plans : List FieldPlan} (h : PlannedFrom known holder slot fields plans) {field : FieldDecl}
    (hfield : field ∈ fields) :
    ∃ plan kind, planType known field.type = .ok plan ∧
      resolveNesting known holder field plan = .ok kind := by
  induction h with
  | nil => cases hfield
  | always hplan _ hkind _ ih =>
    rcases List.mem_cons.mp hfield with rfl | hmem
    · exact ⟨_, _, hplan, hkind⟩
    · exact ih hmem
  | nullable hplan _ hkind _ ih =>
    rcases List.mem_cons.mp hfield with rfl | hmem
    · exact ⟨_, _, hplan, hkind⟩
    · exact ih hmem

/-! ## 4. Declarations -/

/-- **What a structure that passes the analysis holds inline does not lead back to it.** -/
theorem not_back_of_analyze (hknown : known.Describes decls) {decl : StructDecl} {tag : Nat}
    {schema : TypeSchema} (h : analyze decl known tag = .ok schema) {field : FieldDecl}
    (hfield : field ∈ decl.fields) {held : StructDecl} (hheld : held ∈ structures decls)
    (htype : field.type = .named held.name) :
    held.name ≠ decl.name ∧ ¬known.Leads false held.name decl.name := by
  obtain ⟨plan, kind, hplan, hkind⟩ := (plannedFrom_of_analyze h).exists_kind hfield
  rw [htype] at hplan
  rw [planType_named (get?_of_mem_structures hknown hheld) hplan] at hkind
  exact not_leads_of_resolveNesting hkind

/-- If all structures pass the analysis, none holds itself inline. -/
theorem finitelySized_of_analyze (hknown : known.Describes decls)
    (h : ∀ decl ∈ structures decls, ∃ tag schema, analyze decl known tag = .ok schema) :
    FinitelySized decls := by
  intro name hcircle
  obtain ⟨next, hedge, hback⟩ := Relation.TransGen.head'_iff.mp hcircle
  obtain ⟨holder, hholder, rfl, ⟨field, hfield, htype⟩, held, hheld, rfl⟩ := hedge
  obtain ⟨tag, schema, hschema⟩ := h holder hholder
  obtain ⟨hother, hnot⟩ := not_back_of_analyze hknown hschema hfield hheld htype
  rcases Relation.reflTransGen_iff_eq_or_transGen.mp hback with heq | hleads
  · exact hother heq.symm
  · exact hnot ((leads_iff hknown hholder).mpr hleads)

/-- **Where no structure holds itself inline, none is refused as infinitely sized.** -/
theorem FinitelySized.not_infinitelySized (hknown : known.Describes decls)
    (h : FinitelySized decls) {decl : StructDecl} (hdecl : decl ∈ structures decls) (tag : Nat)
    (holder name : String) :
    analyze decl known tag ≠ .error (.infinitelySized holder name) := by
  intro herror
  rcases bind_eq_error herror with hfold | ⟨_, -, hdone⟩
  · obtain ⟨field, hfield, before, hstep⟩ := exists_step_of_foldlM_error hfold
    obtain ⟨plan, hplan, hrefused⟩ := Progress.step_eq_infinitelySized hstep
    obtain ⟨next, recursive, hkind, hnullable, hback⟩ := leads_of_resolveNesting_error hrefused
    obtain ⟨htype, types, hget⟩ := planType_nested hplan hkind hnullable
    obtain ⟨held, hheld, rfl, -⟩ := exists_of_get?_struct hknown hget
    have hedge : InlineEdge decls decl.name held.name :=
      ⟨decl, hdecl, rfl, ⟨field, hfield, htype⟩, held, hheld, rfl⟩
    rcases hback with hself | hleads
    · rw [hself] at hedge
      exact h decl.name (.single hedge)
    · exact h decl.name (.head hedge ((leads_iff hknown hdecl).mp hleads))
  · cases hdone

end Schema

namespace Samples

open Schema (KnownTypes StructDecl TypeDecl)

/-- A frame holds a link inline. -/
def frameStruct : StructDecl := ⟨"Frame", none, [⟨"first", .named "Link"⟩]⟩

/-- A link holds another one or null. -/
def linkStruct : StructDecl := ⟨"Link", none, [⟨"next", .optional (.named "Link")⟩]⟩

/-- What is known of frames and links. -/
def frameKnown : KnownTypes :=
  ⟨[("Frame", .struct [.named "Link"]), ("Link", .struct [.optional (.named "Link")])]⟩

theorem analyze_frameStruct : Schema.analyze frameStruct frameKnown 1 =
    .ok ⟨"Frame", 1, [⟨"first", .nested "Link" false, none⟩]⟩ := by
  have hfirst : Schema.checkName "first" = .ok () := rfl
  have hplan : Schema.planType frameKnown (.named "Link") = .ok ⟨.nested "Link" false, false⟩ := rfl
  have hkind : Schema.resolveNesting frameKnown "Frame" ⟨"first", .named "Link"⟩
      ⟨.nested "Link" false, false⟩ = .ok (.nested "Link" false) := rfl
  simp only [Schema.analyze, frameStruct, List.foldlM_cons, List.foldlM_nil, Schema.Progress.step,
    hfirst, hplan, hkind, Except.mapError, bind, Except.bind, pure, Except.pure,
    Std.HashSet.contains_empty]
  rfl

theorem analyze_linkStruct : Schema.analyze linkStruct frameKnown 2 =
    .ok ⟨"Link", 2, [⟨"next", .nested "Link" true, some 1⟩]⟩ := by
  have hnext : Schema.checkName "next" = .ok () := rfl
  have hplan : Schema.planType frameKnown (.optional (.named "Link")) =
      .ok ⟨.nested "Link" false, true⟩ := rfl
  have hkind : Schema.resolveNesting frameKnown "Link" ⟨"next", .optional (.named "Link")⟩
      ⟨.nested "Link" false, true⟩ = .ok (.nested "Link" true) := rfl
  simp only [Schema.analyze, linkStruct, List.foldlM_cons, List.foldlM_nil, Schema.Progress.step,
    hnext, hplan, hkind, Except.mapError, bind, Except.bind, pure, Except.pure,
    Std.HashSet.contains_empty]
  rfl

/-- What frames and links are lowered to. -/
def frameTypes : List Emit.LoweredType :=
  [.struct (.ofSchema ⟨"Frame", 1, [⟨"first", .nested "Link" false, none⟩]⟩),
    .struct (.ofSchema ⟨"Link", 2, [⟨"next", .nested "Link" true, some 1⟩]⟩)]

theorem lowerAll_frames :
    Emit.lowerAll [.struct frameStruct, .struct linkStruct] = .ok frameTypes := by
  have hknown : KnownTypes.ofDecls [.struct frameStruct, .struct linkStruct] = .ok frameKnown := rfl
  have hnames : Emit.checkGeneratedNames [.struct frameStruct, .struct linkStruct] = .ok () := rfl
  have htags : [TypeDecl.struct frameStruct, .struct linkStruct].foldlM Emit.claimTag
      Schema.TagRegistry.empty = .ok ⟨[]⟩ := rfl
  have hframe : Emit.assignTag ⟨[]⟩ frameStruct = .ok (1, ⟨[⟨1, "Frame", "Frame"⟩]⟩) := rfl
  have hlink : Emit.assignTag ⟨[⟨1, "Frame", "Frame"⟩]⟩ linkStruct =
      .ok (2, ⟨[⟨1, "Frame", "Frame"⟩, ⟨2, "Link", "Link"⟩]⟩) := rfl
  simp only [Emit.lowerAll, hknown, hnames, htags, List.foldlM_cons, List.foldlM_nil,
    Emit.lowerNext, hframe, hlink, analyze_frameStruct, analyze_linkStruct, bind, Except.bind, pure,
    Except.pure]
  rfl

theorem render_frames :
    ∃ artifacts, Emit.render [.struct frameStruct, .struct linkStruct] = .ok artifacts := by
  simp only [Emit.render, lowerAll_frames, bind, Except.bind, pure, Except.pure, Except.ok.injEq,
    exists_eq']

end Samples

/-! ## 5. Generation -/

namespace Emit

open Samples
open Schema (FinitelySized KnownTypes SchemaError StructDecl TypeDecl analyze structures)

/-- Every structure of declarations that are lowered has passed the analysis. -/
theorem exists_analyze_of_lowerAll {decls : List TypeDecl} {lowered : List LoweredType}
    (h : lowerAll decls = .ok lowered) :
    ∃ known, KnownTypes.ofDecls decls = .ok known ∧
      ∀ decl ∈ structures decls, ∃ tag schema, analyze decl known tag = .ok schema := by
  obtain ⟨known, hknown, h⟩ := Schema.bind_eq_ok h
  obtain ⟨_, -, h⟩ := Schema.bind_eq_ok h
  obtain ⟨tags, -, h⟩ := Schema.bind_eq_ok h
  obtain ⟨last, hfold, -⟩ := Schema.bind_eq_ok h
  refine ⟨known, hknown, fun decl hdecl => ?_⟩
  obtain ⟨before, after, hstep⟩ := exists_step_of_foldlM hfold (Schema.mem_structures.mp hdecl)
  obtain ⟨⟨tag, _⟩, -, hstep⟩ := Schema.bind_eq_ok hstep
  obtain ⟨schema, hschema, -⟩ := Schema.bind_eq_ok hstep
  exact ⟨tag, schema, hschema⟩

/-- Where files are generated, no structure holds itself inline. -/
theorem finitelySized_of_render {decls : List TypeDecl} {artifacts : List Artifact}
    (h : render decls = .ok artifacts) : FinitelySized decls := by
  obtain ⟨lowered, hlowered, -⟩ := Schema.bind_eq_ok h
  obtain ⟨known, hknown, hanalyzed⟩ := exists_analyze_of_lowerAll hlowered
  exact Schema.finitelySized_of_analyze (KnownTypes.describes_of_ofDecls hknown) hanalyzed

/-- **Exactly the types without end are refused for their size.**  If declarations are accepted, no
structure holds itself inline, on whatever way; and if none does, no analysis of a declared structure
reports that it is infinitely sized. -/
theorem infinite_types_refused (decls : List TypeDecl) :
    ((∃ artifacts, render decls = .ok artifacts) → FinitelySized decls) ∧
      (FinitelySized decls → ∀ known, KnownTypes.ofDecls decls = .ok known →
        ∀ decl ∈ structures decls, ∀ tag holder field,
          analyze decl known tag ≠ .error (.infinitelySized holder field)) := by
  refine ⟨fun ⟨_, haccepted⟩ => finitelySized_of_render haccepted, ?_⟩
  intro hfinite known hknown decl hdecl tag holder field
  exact hfinite.not_infinitelySized (KnownTypes.describes_of_ofDecls hknown) hdecl tag holder field

/-- Frames and links are generated, so none of them is without end, and no analysis says so. -/
theorem infinite_types_refused_frame :
    ((∃ artifacts, render [.struct frameStruct, .struct linkStruct] = .ok artifacts) ∧
      FinitelySized [.struct frameStruct, .struct linkStruct] ∧
      KnownTypes.ofDecls [.struct frameStruct, .struct linkStruct] = .ok frameKnown ∧
      frameStruct ∈ structures [.struct frameStruct, .struct linkStruct]) ∧
    ∀ tag holder field, analyze frameStruct frameKnown tag ≠ .error (.infinitelySized holder field) := by
  obtain ⟨hcycles, hsizes⟩ := infinite_types_refused [.struct frameStruct, .struct linkStruct]
  have hfinite := hcycles render_frames
  have hmem : frameStruct ∈ structures [.struct frameStruct, .struct linkStruct] :=
    List.mem_cons_self
  exact ⟨⟨render_frames, hfinite, rfl, hmem⟩, hsizes hfinite frameKnown rfl frameStruct hmem⟩

end Emit

end Wireform
