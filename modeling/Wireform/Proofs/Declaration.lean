import Wireform.Derive.FieldShape
import Wireform.Describe
import Wireform.Proofs.Analysis

/-!
# Derived types and their declarations

A derived structure says in two ways which of its fields are nullable.  Its codecs go by the spelling
of a type (`Derive.optionInner?`); its declaration goes by what the type is, where boxes are
transparent (`Shape.typeRef?`), and from the declaration the analysis plans the structure that is
generated.  Where every optional type is spelled as one, both are the same: the fields have the same
slots, and the bitsets the same size (`Derive.Classified.slots_eq`).

A type and its plan have one shape, as it is generated (`Shape.PlansAs.shape_eq`, by induction on the
type).  So the fields of a declared structure and of its plan, which leaves out the skipped ones, are
`Twins`.
-/
namespace Wireform

open Schema (ElementPlan FieldDecl FieldPlan Kind KnownTypes PlannedFrom StructDecl TypeRef TypeSchema
  analyze planType resolveNesting)

/-! ## 1. Derived structures -/

/-- Whether a type is optional, its boxes apart. -/
def Shape.isOptional (shape : Shape) : Bool :=
  match shape.bare with
  | .option _ => true
  | _ => false

/-- A field that is always written is not of an optional type. -/
def FieldDef.IsSpelled (field : FieldDef) : Prop :=
  ∀ shape, field.type = .plain shape → shape.isOptional = false

namespace Derive

/-- The field as the derived codecs take it, given the types that type expressions stand for. -/
def FieldShape.define (meaning : TypeExpr → Shape) (shape : FieldShape) : FieldDef :=
  ⟨shape.member.schemaName,
    if shape.skip then .skipped (meaning shape.type)
    else
      match optionInner? shape.type with
      | some inner => .nullable (meaning inner)
      | none => .plain (meaning shape.type)⟩

/-- The structure as the derived codecs take it. -/
def derived (meaning : TypeExpr → Shape) (shapes : List FieldShape) : Definition :=
  .record (shapes.map (FieldShape.define meaning))

/-- A field of an optional type is spelled as one; nothing is asked of a skipped field. -/
def FieldShape.IsSpelled (meaning : TypeExpr → Shape) (shape : FieldShape) : Prop :=
  shape.skip = false → (meaning shape.type).isOptional = true →
    (optionInner? shape.type).isSome = true

theorem FieldShape.IsSpelled.define {meaning : TypeExpr → Shape} {shape : FieldShape}
    (h : shape.IsSpelled meaning) : (shape.define meaning).IsSpelled := by
  intro type htype
  unfold FieldShape.define at htype
  dsimp only at htype
  split at htype
  · cases htype
  · next hskip =>
    split at htype
    · cases htype
    · next hinner =>
      cases htype
      refine Bool.eq_false_iff.mpr fun hoptional => ?_
      have hspelled := h (Bool.eq_false_iff.mpr hskip) hoptional
      rw [hinner] at hspelled
      cases hspelled

/-- Fields that `slot` fields with a slot come before are classified: those that are spelled as
optional have the next slots, and the others have none. -/
inductive Classified : (slot : Nat) → List FieldShape → Prop where
  | nil {slot : Nat} : Classified slot []
  | skipped {slot : Nat} {member : MemberRef} {type : TypeExpr} {shapes : List FieldShape}
    (hrest : Classified slot shapes) : Classified slot (⟨member, type, true, none⟩ :: shapes)
  | nullable {slot : Nat} {member : MemberRef} {type inner : TypeExpr} {shapes : List FieldShape}
    (hinner : optionInner? type = some inner) (hrest : Classified (slot + 1) shapes) :
    Classified slot (⟨member, type, false, some (slot + 1)⟩ :: shapes)
  | always {slot : Nat} {member : MemberRef} {type : TypeExpr} {shapes : List FieldShape}
    (hinner : optionInner? type = none) (hrest : Classified slot shapes) :
    Classified slot (⟨member, type, false, none⟩ :: shapes)

theorem classified_of_shapesFrom {container : String} {position slot : Nat} {fields : List Field}
    {shapes : List FieldShape} (h : shapesFrom container position slot fields = .ok shapes) :
    Classified slot shapes := by
  induction fields generalizing position slot shapes with
  | nil =>
    cases h
    exact .nil
  | cons field fields ih =>
    obtain ⟨skip, -, h⟩ := Schema.bind_eq_ok h
    dsimp only at h
    cases skip with
    | true =>
      obtain ⟨rest, hrest, h⟩ := Schema.bind_eq_ok h
      cases h
      exact .skipped (ih hrest)
    | false =>
      obtain ⟨-, -, h⟩ := Schema.bind_eq_ok h
      split at h
      · next hoption =>
        obtain ⟨inner, hinner⟩ := Option.isSome_iff_exists.mp hoption
        split at h
        · cases h
        · obtain ⟨rest, hrest, h⟩ := Schema.bind_eq_ok h
          cases h
          exact .nullable hinner (ih hrest)
      · next hoption =>
        obtain ⟨rest, hrest, h⟩ := Schema.bind_eq_ok h
        cases h
        exact .always (Option.not_isSome_iff_eq_none.mp hoption) (ih hrest)

end Derive

/-! ## 2. Types and their plans -/

/-- The kind of sequence that stands for one where it is generated. -/
def SequenceKind.generated : SequenceKind → SequenceKind
  | .list | .deque => .list
  | .slice => .slice

namespace Shape

/-- The shape that a type has in the structure that is generated from its declaration. -/
def generated (scope : String) : Shape → Shape
  | .leaf .smol => .leaf (.primitive .string)
  | .leaf l => .leaf l
  | .option inner => .option (inner.generated scope)
  | .boxed inner => inner.generated scope
  | .shared inner => inner.generated scope
  | .sequence kind element => .sequence kind.generated (element.generated scope)
  | .array _ element => .sequence .slice (element.generated scope)
  | .mapping _ key value => .mapping .hashed (key.generated scope) (value.generated scope)
  | .named name => .named (scope ++ declaredName name)

/-- The type has a reference, and the reference a plan. -/
def PlansAs (known : KnownTypes) (shape : Shape) (plan : ElementPlan) : Prop :=
  ∃ ref, shape.typeRef? = some ref ∧ planType known ref = .ok plan

/-- A reference is optional where its type is. -/
theorem isOptional_of_typeRef? {shape : Shape} {ref : TypeRef} (h : shape.typeRef? = some ref) :
    ref.isOptional = shape.isOptional := by
  induction shape generalizing ref with
  | leaf l => cases l <;> cases h <;> rfl
  | option inner _ =>
    obtain ⟨inner, -, rfl⟩ := Option.map_eq_some_iff.mp h
    rfl
  | boxed inner ih => exact ih h
  | shared inner ih => exact ih h
  | sequence kind element _ =>
    obtain ⟨element, -, rfl⟩ := Option.map_eq_some_iff.mp h
    cases kind <;> rfl
  | array length element _ =>
    obtain ⟨element, -, rfl⟩ := Option.map_eq_some_iff.mp h
    rfl
  | mapping kind key value _ _ =>
    obtain ⟨key, -, h⟩ := Option.bind_eq_some_iff.mp h
    obtain ⟨value, -, h⟩ := Option.bind_eq_some_iff.mp h
    cases h
    rfl
  | named name =>
    cases h
    rfl

end Shape

namespace Schema

/-- A plan is nullable where its reference is optional. -/
theorem nullable_of_planType {known : KnownTypes} {ref : TypeRef} {plan : ElementPlan}
    (h : planType known ref = .ok plan) : plan.nullable = ref.isOptional := by
  cases ref with
  | primitive p =>
    cases h
    rfl
  | named name =>
    unfold planType at h
    split at h
    · cases h
      rfl
    · cases h
      rfl
    · cases h
  | list element =>
    obtain ⟨inner, -, h⟩ := bind_eq_ok h
    cases h
    rfl
  | array element =>
    obtain ⟨inner, -, h⟩ := bind_eq_ok h
    cases h
    rfl
  | map key value =>
    obtain ⟨keyPlan, -, h⟩ := bind_eq_ok h
    obtain ⟨-, -, h⟩ := bind_eq_ok h
    obtain ⟨valuePlan, -, h⟩ := bind_eq_ok h
    cases h
    rfl
  | optional inner =>
    unfold planType at h
    split at h
    · cases h
    · obtain ⟨plan, -, h⟩ := bind_eq_ok h
      cases h
      rfl

/-- The plan of an optional reference. -/
theorem planType_optional {known : KnownTypes} {inner : TypeRef} {plan : ElementPlan}
    (h : planType known (.optional inner) = .ok plan) : ∃ innerPlan,
      planType known inner = .ok innerPlan ∧ innerPlan.nullable = false ∧
        plan = ⟨innerPlan.kind, true⟩ := by
  unfold planType at h
  split at h
  · cases h
  · next hinner =>
    obtain ⟨innerPlan, hplan, h⟩ := bind_eq_ok h
    cases h
    refine ⟨innerPlan, hplan, ?_, rfl⟩
    rw [nullable_of_planType hplan]
    exact Bool.eq_false_iff.mpr hinner

/-- A plan that may be that of a map key is not nullable. -/
theorem nullable_of_checkKey {plan : ElementPlan} {found : Unit} (h : checkKey plan = .ok found) :
    plan.nullable = false := by
  unfold checkKey at h
  split at h
  · cases h
  · next hnullable => exact Bool.eq_false_iff.mpr hnullable

/-- The shape that values of a plan have, behind their null or not. -/
def ElementPlan.shape (scope : String) (plan : ElementPlan) : Shape :=
  Kind.shape.wrap plan.nullable (plan.kind.shape scope)

end Schema

namespace Shape.PlansAs

open Schema (planType_optional nullable_of_checkKey)

variable {known : KnownTypes} {plan : ElementPlan}

theorem option {inner : Shape} (h : (Shape.option inner).PlansAs known plan) :
    ∃ innerPlan, inner.PlansAs known innerPlan ∧ innerPlan.nullable = false ∧
      plan = ⟨innerPlan.kind, true⟩ := by
  obtain ⟨ref, href, hplan⟩ := h
  obtain ⟨innerRef, hinner, rfl⟩ := Option.map_eq_some_iff.mp href
  obtain ⟨innerPlan, hinnerPlan, hplan⟩ := planType_optional hplan
  exact ⟨innerPlan, ⟨innerRef, hinner, hinnerPlan⟩, hplan⟩

theorem sequence {kind : SequenceKind} {element : Shape}
    (h : (Shape.sequence kind element).PlansAs known plan) : ∃ elementPlan,
      element.PlansAs known elementPlan ∧
        ∀ scope, plan.shape scope = .sequence kind.generated (elementPlan.shape scope) := by
  obtain ⟨ref, href, hplan⟩ := h
  obtain ⟨elementRef, helement, rfl⟩ := Option.map_eq_some_iff.mp href
  cases kind with
  | list | deque | slice =>
    obtain ⟨elementPlan, helementPlan, hplan⟩ := Schema.bind_eq_ok hplan
    cases hplan
    exact ⟨elementPlan, ⟨elementRef, helement, helementPlan⟩, fun _ => rfl⟩

theorem array {length : Nat} {element : Shape} (h : (Shape.array length element).PlansAs known plan) :
    ∃ elementPlan, element.PlansAs known elementPlan ∧
      ∀ scope, plan.shape scope = .sequence .slice (elementPlan.shape scope) := by
  obtain ⟨ref, href, hplan⟩ := h
  obtain ⟨elementRef, helement, rfl⟩ := Option.map_eq_some_iff.mp href
  obtain ⟨elementPlan, helementPlan, hplan⟩ := Schema.bind_eq_ok hplan
  cases hplan
  exact ⟨elementPlan, ⟨elementRef, helement, helementPlan⟩, fun _ => rfl⟩

theorem mapping {kind : MapKind} {key value : Shape}
    (h : (Shape.mapping kind key value).PlansAs known plan) : ∃ keyPlan valuePlan,
      key.PlansAs known keyPlan ∧ value.PlansAs known valuePlan ∧
        ∀ scope, plan.shape scope = .mapping .hashed (keyPlan.shape scope) (valuePlan.shape scope) := by
  obtain ⟨ref, href, hplan⟩ := h
  obtain ⟨keyRef, hkey, href⟩ := Option.bind_eq_some_iff.mp href
  obtain ⟨valueRef, hvalue, href⟩ := Option.bind_eq_some_iff.mp href
  cases href
  obtain ⟨keyPlan, hkeyPlan, hplan⟩ := Schema.bind_eq_ok hplan
  obtain ⟨checked, hcheck, hplan⟩ := Schema.bind_eq_ok hplan
  obtain ⟨valuePlan, hvaluePlan, hplan⟩ := Schema.bind_eq_ok hplan
  cases hplan
  refine ⟨keyPlan, valuePlan, ⟨keyRef, hkey, hkeyPlan⟩, ⟨valueRef, hvalue, hvaluePlan⟩, fun _ => ?_⟩
  unfold Schema.ElementPlan.shape
  rw [nullable_of_checkKey hcheck]
  rfl

/-- **The plan of a type has the shape of the type**, as it is generated. -/
theorem shape_eq {shape : Shape} (h : shape.PlansAs known plan) (scope : String) :
    plan.shape scope = shape.generated scope := by
  induction shape generalizing plan with
  | leaf l =>
    obtain ⟨ref, href, hplan⟩ := h
    cases l <;> cases href <;> cases hplan <;> rfl
  | option inner ih =>
    obtain ⟨innerPlan, hinner, hnullable, rfl⟩ := h.option
    have hshape := ih hinner
    unfold Schema.ElementPlan.shape at hshape
    rw [hnullable] at hshape
    exact congrArg Shape.option hshape
  | boxed inner ih => exact ih h
  | shared inner ih => exact ih h
  | sequence kind element ih =>
    obtain ⟨elementPlan, helement, hplan⟩ := h.sequence
    rw [hplan, ih helement, Shape.generated]
  | array length element ih =>
    obtain ⟨elementPlan, helement, hplan⟩ := h.array
    rw [hplan, ih helement, Shape.generated]
  | mapping kind key value ihkey ihvalue =>
    obtain ⟨keyPlan, valuePlan, hkey, hvalue, hplan⟩ := h.mapping
    rw [hplan, ihkey hkey, ihvalue hvalue, Shape.generated]
  | named name =>
    obtain ⟨ref, href, hplan⟩ := h
    cases href
    unfold planType at hplan
    split at hplan
    · cases hplan
      rfl
    · cases hplan
      rfl
    · cases hplan

/-- The kind of a plan that is not nullable has the shape of the type. -/
theorem kind_shape_eq {shape : Shape} (h : shape.PlansAs known plan)
    (hnullable : plan.nullable = false) (scope : String) :
    plan.kind.shape scope = shape.generated scope := by
  rw [← h.shape_eq scope, Schema.ElementPlan.shape, hnullable]
  rfl

end Shape.PlansAs

/-! ## 3. Fields and their plans -/

/-- A shape that is generated has no boxes around it. -/
theorem Shape.bare_generated (scope : String) (shape : Shape) :
    (shape.generated scope).bare = shape.generated scope := by
  induction shape with
  | leaf l => cases l <;> rfl
  | boxed inner ih => exact ih
  | shared inner ih => exact ih
  | _ => rfl

/-- To be recursive puts a box around a kind. -/
theorem Schema.bare_of_resolveNesting {known : KnownTypes} {holder : String} {field : FieldDecl}
    {plan : ElementPlan} {kind : Kind} (h : resolveNesting known holder field plan = .ok kind)
    (scope : String) : (kind.shape scope).bare = (plan.kind.shape scope).bare := by
  have hnested : ∀ name recursive, ((Kind.nested name recursive).shape scope).bare =
      .named (scope ++ name) := by
    intro name recursive
    cases recursive <;> rfl
  unfold resolveNesting at h
  split at h
  · next name recursive hkind =>
    split at h
    · cases h
    · cases h
      rw [hkind, hnested, hnested]
  · cases h
    rfl

/-- A planned field takes part as its slot says, and is never skipped. -/
theorem Schema.FieldPlan.slot_of_presence {plan : FieldPlan} {presence : Presence}
    (h : plan.presence = presence) :
    match presence with
    | .always => plan.slot = none
    | .nullable slot => plan.slot = some slot
    | .skipped => False := by
  obtain ⟨name, kind, slot⟩ := plan
  cases slot <;> cases h <;> rfl

/-- The fields of a derived structure with their slots, and the plans of those that are not
skipped. -/
inductive Twins (scope : String) : List (FieldDef × Presence) → List FieldPlan → Prop where
  | nil : Twins scope [] []
  | skipped {field : FieldDef} {fields : List (FieldDef × Presence)} {plans : List FieldPlan}
    (hrest : Twins scope fields plans) : Twins scope ((field, .skipped) :: fields) plans
  | wired {field : FieldDef} {presence : Presence} {fields : List (FieldDef × Presence)}
    {plan : FieldPlan} {plans : List FieldPlan} (hname : plan.name = field.name)
    (hpresence : plan.presence = presence)
    (hshape : (plan.kind.shape scope).bare = field.type.inner.generated scope)
    (hrest : Twins scope fields plans) : Twins scope ((field, presence) :: fields) (plan :: plans)

/-- The declaration of a field comes first. -/
theorem declare?_cons {field : FieldDef} {defs : List FieldDef} {decls : List FieldDecl}
    (hdeclared : field.isDeclared = true)
    (h : ((field :: defs).filter FieldDef.isDeclared).mapM FieldDef.declare? = some decls) :
    ∃ ref rest, field.type.shape.typeRef? = some ref ∧
      (defs.filter FieldDef.isDeclared).mapM FieldDef.declare? = some rest ∧
        decls = ⟨field.name, ref⟩ :: rest := by
  rw [List.filter_cons_of_pos hdeclared, List.mapM_cons] at h
  obtain ⟨decl, hdecl, h⟩ := Option.bind_eq_some_iff.mp h
  obtain ⟨rest, hrest, h⟩ := Option.bind_eq_some_iff.mp h
  obtain ⟨ref, href, hdecl⟩ := Option.bind_eq_some_iff.mp hdecl
  cases hdecl
  cases h
  exact ⟨ref, rest, href, hrest, rfl⟩

/-- **The plans of declared fields have the slots of the fields**, if every optional type is known
to be one. -/
theorem twins_of_plannedFrom {known : KnownTypes} {holder : String} {slot : Nat}
    {defs : List FieldDef} {decls : List FieldDecl} {plans : List FieldPlan}
    (hspelled : ∀ field ∈ defs, field.IsSpelled)
    (hdecls : (defs.filter FieldDef.isDeclared).mapM FieldDef.declare? = some decls)
    (hplans : PlannedFrom known holder slot decls plans) (scope : String) :
    Twins scope (numberFields slot defs) plans := by
  induction defs generalizing slot decls plans with
  | nil =>
    cases hdecls
    cases hplans
    exact .nil
  | cons field defs ih =>
    have hrest : ∀ other ∈ defs, other.IsSpelled :=
      fun other hother => hspelled other (List.mem_cons_of_mem _ hother)
    obtain ⟨name, type⟩ := field
    cases type with
    | skipped shape => exact .skipped (ih hrest hdecls hplans)
    | plain shape =>
      obtain ⟨ref, rest, href, hmap, rfl⟩ := declare?_cons rfl hdecls
      have hoptional : ref.isOptional = false := by
        rw [Shape.isOptional_of_typeRef? href]
        exact hspelled _ List.mem_cons_self shape rfl
      cases hplans with
      | always hplan hnullable hkind hplans =>
        refine .wired rfl rfl ?_ (ih hrest hmap hplans)
        have hplansAs : shape.PlansAs known _ := ⟨ref, href, hplan⟩
        rw [Schema.bare_of_resolveNesting hkind, hplansAs.kind_shape_eq hnullable]
        exact Shape.bare_generated scope shape
      | nullable hplan hnullable hkind hplans =>
        rw [Schema.nullable_of_planType hplan, hoptional] at hnullable
        cases hnullable
    | nullable inner =>
      obtain ⟨ref, rest, href, hmap, rfl⟩ := declare?_cons rfl hdecls
      have hoption : ∀ plan, planType known ref = .ok plan →
          (Shape.option inner).PlansAs known plan := fun _ hplan => ⟨ref, href, hplan⟩
      cases hplans with
      | always hplan hnullable hkind hplans =>
        obtain ⟨innerPlan, -, -, rfl⟩ := (hoption _ hplan).option
        cases hnullable
      | nullable hplan hnullable hkind hplans =>
        refine .wired rfl rfl ?_ (ih hrest hmap hplans)
        obtain ⟨innerPlan, hinner, hinnerNullable, rfl⟩ := (hoption _ hplan).option
        rw [Schema.bare_of_resolveNesting hkind, hinner.kind_shape_eq hinnerNullable]
        exact Shape.bare_generated scope inner

/-- The fields of a declared structure and of the one that is generated are twins. -/
theorem twins_of_declare? {known : KnownTypes} {container : String} {asked : Option Nat}
    {tag : Nat} {defs : List FieldDef} {decl : StructDecl} {schema : TypeSchema}
    (hspelled : ∀ field ∈ defs, field.IsSpelled)
    (hdecl : (Definition.record defs).declare? container asked = some (.struct decl))
    (hschema : analyze decl known tag = .ok schema) (scope : String) :
    Twins scope (numberFields 0 defs) schema.fields := by
  obtain ⟨decls, hdecls, hdecl⟩ := Option.bind_eq_some_iff.mp hdecl
  cases hdecl
  exact twins_of_plannedFrom hspelled hdecls (Schema.plannedFrom_of_analyze hschema) scope

/-- The plans of classified fields have the names and the slots of those that are not skipped, and
as many of them are nullable. -/
theorem Derive.Classified.slots_eq {slot : Nat} {shapes : List FieldShape}
    (h : Classified slot shapes) {meaning : TypeExpr → Shape} {scope : String}
    {plans : List FieldPlan}
    (htwins : Twins scope (numberFields slot (shapes.map (FieldShape.define meaning))) plans) :
    (shapes.filter fun shape => !shape.skip).map (fun shape => (shape.member.schemaName, shape.slot)) =
        plans.map (fun plan => (plan.name, plan.slot)) ∧
      (shapes.filter FieldShape.isNullable).length = (plans.filter FieldPlan.isNullable).length := by
  induction h generalizing plans with
  | nil =>
    cases htwins
    exact ⟨rfl, rfl⟩
  | skipped hrest ih =>
    cases htwins with
    | skipped htwins => exact ih htwins
    | wired hname hpresence hshape htwins => exact (FieldPlan.slot_of_presence hpresence).elim
  | @nullable slot member type inner shapes hinner hrest ih =>
    have hdefine : FieldShape.define meaning ⟨member, type, false, some (slot + 1)⟩ =
        ⟨member.schemaName, .nullable (meaning inner)⟩ := by
      simp [FieldShape.define, hinner]
    rw [List.map_cons, hdefine] at htwins
    cases htwins with
    | wired hname hpresence hshape htwins =>
      obtain ⟨hslots, hcount⟩ := ih htwins
      have hslot := FieldPlan.slot_of_presence hpresence
      have hnullable : FieldPlan.isNullable _ = true := congrArg Option.isSome hslot
      rw [List.filter_cons_of_pos rfl, List.filter_cons_of_pos rfl,
        List.filter_cons_of_pos hnullable, List.map_cons, List.map_cons, hslots, hname, hslot,
        List.length_cons, List.length_cons, hcount]
      exact ⟨rfl, rfl⟩
  | @always slot member type shapes hinner hrest ih =>
    have hdefine : FieldShape.define meaning ⟨member, type, false, none⟩ =
        ⟨member.schemaName, .plain (meaning type)⟩ := by
      simp [FieldShape.define, hinner]
    rw [List.map_cons, hdefine] at htwins
    cases htwins with
    | wired hname hpresence hshape htwins =>
      obtain ⟨hslots, hcount⟩ := ih htwins
      have hslot := FieldPlan.slot_of_presence hpresence
      have hnullable : ¬ FieldPlan.isNullable _ = true :=
        fun hnullable => Bool.false_ne_true ((congrArg Option.isSome hslot).symm.trans hnullable)
      rw [List.filter_cons_of_pos rfl, List.filter_cons_of_neg Bool.false_ne_true,
        List.filter_cons_of_neg hnullable, List.map_cons, List.map_cons, hslots, hname, hslot]
      exact ⟨rfl, hcount⟩

end Wireform
