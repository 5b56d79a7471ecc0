import Mathlib.Order.Bounds.Basic
import Wireform.Proofs.Indirection
import Wireform.Proofs.NullBits
import Wireform.Proofs.Planned

/-!
# Well-formed structures

A structure passes the analysis exactly if it is `WellFormed`, which is said of the declaration alone:
of its names, of the parts of its types at whatever depth, of the ways on which it could hold itself,
and of the number of its nullable fields.  What is planned then `Mirrors` the declaration: the type
of each field can be read back off its plan.

The types are checked part by part.  A type has a plan exactly if each of its parts may stand where
it stands (`exists_planType_iff`); only a map's key is checked by its plan, and the plan tells what
the key was (`checkKey_eq_ok_iff`).  With `analyze_eq_ok_iff` the rest is about lists of fields.
-/
namespace Wireform.Schema

variable {known : KnownTypes}

/-! ## 1. Well-formed declarations -/

/-- The parts of a type, itself first. -/
def TypeRef.parts : TypeRef → List TypeRef
  | .primitive p => [.primitive p]
  | .named name => [.named name]
  | .list element => .list element :: element.parts
  | .array element => .array element :: element.parts
  | .map key value => .map key value :: (key.parts ++ value.parts)
  | .optional inner => .optional inner :: inner.parts

/-- A type by which the entries of a map can be told apart. -/
def TypeRef.IsKey (known : KnownTypes) : TypeRef → Prop
  | .primitive p => p ≠ .f32 ∧ p ≠ .f64
  | .named name => ∃ repr, known.get? name = some (.enum repr)
  | _ => False

/-- What is asked of each part of a type: a name is known, a map has a key, and what is made nullable
is not nullable already. -/
def TypeRef.MayStand (known : KnownTypes) : TypeRef → Prop
  | .named name => ∃ entry, known.get? name = some entry
  | .map key _ => key.IsKey known
  | .optional inner => ∀ twice, inner ≠ .optional twice
  | _ => True

/-- A structure has a non-nullable field of the very type of another. -/
def InlineField (known : KnownTypes) (source target : String) : Prop :=
  ∃ types, known.get? source = some (.struct types) ∧ .named target ∈ types

/-- A structure that can be planned. -/
structure StructDecl.WellFormed (known : KnownTypes) (decl : StructDecl) : Prop where
  identifiers : ∀ field ∈ decl.fields, isIdentifier field.name = true
  distinct : (decl.fields.map FieldDecl.name).Nodup
  types : ∀ field ∈ decl.fields, ∀ part ∈ field.type.parts, part.MayStand known
  finite : ∀ field ∈ decl.fields, ∀ name types, field.type = .named name →
    known.get? name = some (.struct types) →
      ¬ Relation.ReflTransGen (InlineField known) name decl.name
  slots : decl.fields.countP (fun field => field.type.isOptional) ≤ 65535

/-! ## 2. Types that have plans -/

/-- The plan of a key passes exactly if the key may be one. -/
theorem checkKey_eq_ok_iff {key : TypeRef} {plan : ElementPlan}
    (h : planType known key = .ok plan) :
    checkKey plan = .ok () ↔ key.IsKey known := by
  cases key with
  | primitive p =>
    cases h
    cases p <;> simp [checkKey, TypeRef.IsKey, Primitive.isFloat]
  | named name =>
    unfold planType at h
    split at h
    · next repr hget =>
      cases h
      simp [checkKey, TypeRef.IsKey, hget]
    · next types hget =>
      cases h
      simp [checkKey, TypeRef.IsKey, hget]
    · cases h
  | list element =>
    obtain ⟨_, -, h⟩ := bind_eq_ok h
    cases h
    simp [checkKey, TypeRef.IsKey]
  | array element =>
    obtain ⟨_, -, h⟩ := bind_eq_ok h
    cases h
    simp [checkKey, TypeRef.IsKey]
  | map key value =>
    obtain ⟨_, -, h⟩ := bind_eq_ok h
    obtain ⟨_, -, h⟩ := bind_eq_ok h
    obtain ⟨_, -, h⟩ := bind_eq_ok h
    cases h
    simp [checkKey, TypeRef.IsKey]
  | optional inner =>
    obtain ⟨_, -, -, rfl⟩ := planType_optional h
    simp [checkKey, TypeRef.IsKey]

/-- **A type has a plan exactly if all its parts may stand**, at whatever depth. -/
theorem exists_planType_iff {type : TypeRef} :
    (∃ plan, planType known type = .ok plan) ↔ ∀ part ∈ type.parts, part.MayStand known := by
  induction type with
  | primitive p => simp [planType, TypeRef.parts, TypeRef.MayStand]
  | named name =>
    rw [TypeRef.parts, List.forall_mem_singleton, planType, TypeRef.MayStand]
    cases known.get? name with
    | none => simp
    | some entry => cases entry <;> simp
  | list element ih =>
    rw [TypeRef.parts, List.forall_mem_cons, ← ih, planType]
    cases planType known element <;> simp [TypeRef.MayStand, bind, Except.bind, pure, Except.pure]
  | array element ih =>
    rw [TypeRef.parts, List.forall_mem_cons, ← ih, planType]
    cases planType known element <;> simp [TypeRef.MayStand, bind, Except.bind, pure, Except.pure]
  | map key value ihkey ihvalue =>
    rw [TypeRef.parts, List.forall_mem_cons, List.forall_mem_append, ← ihkey, ← ihvalue, planType,
      TypeRef.MayStand]
    cases hkey : planType known key with
    | error problem => simp [bind, Except.bind]
    | ok keyPlan =>
      rw [← checkKey_eq_ok_iff hkey]
      cases hcheck : checkKey keyPlan <;> cases planType known value <;>
        simp [hcheck, bind, Except.bind, pure, Except.pure]
  | optional inner ih =>
    rw [TypeRef.parts, List.forall_mem_cons, ← ih, planType, TypeRef.MayStand]
    have honce : (∀ twice, inner ≠ .optional twice) ↔ inner.isOptional = false := by
      cases inner <;> simp [TypeRef.isOptional]
    rw [honce]
    cases inner.isOptional <;> cases planType known inner <;>
      simp [bind, Except.bind, pure, Except.pure]

/-! ## 3. Fields that have plans -/

/-- The edges that are not through null are those of fields of the very type. -/
theorem edge_false_eq : known.Edge false = InlineField known := by
  funext source target
  refine propext ?_
  unfold KnownTypes.Edge KnownTypes.targets InlineField
  cases known.get? source with
  | none => simp
  | some entry =>
    cases entry with
    | struct types => simp [directTarget?_false]
    | enum repr => simp

/-- Only what is held inline and leads back is refused. -/
theorem exists_resolveNesting_iff {holder : String} {field : FieldDecl} {plan : ElementPlan}
    (hplan : planType known field.type = .ok plan) :
    (∃ kind, resolveNesting known holder field plan = .ok kind) ↔
      ∀ name types, field.type = .named name → known.get? name = some (.struct types) →
        ¬ Relation.ReflTransGen (InlineField known) name holder := by
  have hleads : ∀ name, Relation.ReflTransGen (InlineField known) name holder ↔
      name = holder ∨ known.Leads false name holder := by
    intro name
    rw [Relation.reflTransGen_iff_eq_or_transGen, KnownTypes.Leads, edge_false_eq, eq_comm]
  constructor
  · rintro ⟨kind, hkind⟩ name types htype hget hback
    rw [htype] at hplan
    rw [planType_named hget hplan] at hkind
    obtain ⟨hother, haway⟩ := not_leads_of_resolveNesting hkind
    exact ((hleads name).mp hback).elim hother haway
  · intro hfinite
    cases hresult : resolveNesting known holder field plan with
    | ok kind => exact ⟨kind, rfl⟩
    | error fault =>
      obtain ⟨name, recursive, hkind, hnullable, hback⟩ := leads_of_resolveNesting_error hresult
      obtain ⟨htype, types, hget⟩ := planType_nested hplan hkind hnullable
      exact absurd ((hleads name).mpr hback) (hfinite name types htype hget)

/-- Fields that have plans each have plans one after the other. -/
theorem exists_plannedFrom {holder : String} {fields : List FieldDecl}
    (h : ∀ field ∈ fields, ∃ plan kind, planType known field.type = .ok plan ∧
      resolveNesting known holder field plan = .ok kind) (slot : Nat) :
    ∃ plans, PlannedFrom known holder slot fields plans := by
  induction fields generalizing slot with
  | nil => exact ⟨[], .nil⟩
  | cons field fields ih =>
    rw [List.forall_mem_cons] at h
    obtain ⟨⟨plan, kind, hplan, hkind⟩, hrest⟩ := h
    cases hnullable : plan.nullable with
    | false =>
      obtain ⟨plans, hplans⟩ := ih hrest slot
      exact ⟨_, .always hplan hnullable hkind hplans⟩
    | true =>
      obtain ⟨plans, hplans⟩ := ih hrest (slot + 1)
      exact ⟨_, .nullable hplan hnullable hkind hplans⟩

/-- As many plans have slots as fields are nullable. -/
theorem PlannedFrom.countP_isNullable {holder : String} {slot : Nat} {fields : List FieldDecl}
    {plans : List FieldPlan} (h : PlannedFrom known holder slot fields plans) :
    plans.countP FieldPlan.isNullable = fields.countP fun field => field.type.isOptional := by
  induction h with
  | nil => rfl
  | always hplan hnullable _ _ ih =>
    rw [nullable_of_planType hplan] at hnullable
    simp [FieldPlan.isNullable, hnullable, ih]
  | nullable hplan hnullable _ _ ih =>
    rw [nullable_of_planType hplan] at hnullable
    simp [List.countP_cons, FieldPlan.isNullable, hnullable, ih]

/-- What passes keeps its name, and has the tag that it was to be dispatched under. -/
theorem exists_plans_of_analyze {decl : StructDecl} {tag : Nat} {schema : TypeSchema}
    (h : analyze decl known tag = .ok schema) : ∃ plans, schema = ⟨decl.name, tag, plans⟩ := by
  obtain ⟨progress, -, hschema⟩ := bind_eq_ok h
  cases hschema
  exact ⟨_, rfl⟩

/-- **A structure passes exactly if it is well-formed.** -/
theorem exists_analyze_iff {decl : StructDecl} {tag : Nat} :
    (∃ schema, analyze decl known tag = .ok schema) ↔ decl.WellFormed known := by
  constructor
  · rintro ⟨schema, h⟩
    obtain ⟨plans, rfl⟩ := exists_plans_of_analyze h
    obtain ⟨hplanned, hidentifiers, hdistinct, hslots⟩ := analyze_eq_ok_iff.mp h
    refine ⟨hidentifiers, hdistinct, fun field hfield => ?_, fun field hfield => ?_,
      hplanned.countP_isNullable.symm.trans_le hslots⟩
    · obtain ⟨plan, kind, hplan, -⟩ := hplanned.exists_kind hfield
      exact exists_planType_iff.mp ⟨plan, hplan⟩
    · obtain ⟨plan, kind, hplan, hkind⟩ := hplanned.exists_kind hfield
      exact (exists_resolveNesting_iff hplan).mp ⟨kind, hkind⟩
  · rintro ⟨hidentifiers, hdistinct, htypes, hfinite, hslots⟩
    have hfields : ∀ field ∈ decl.fields, ∃ plan kind, planType known field.type = .ok plan ∧
        resolveNesting known decl.name field plan = .ok kind := by
      intro field hfield
      obtain ⟨plan, hplan⟩ := exists_planType_iff.mpr (htypes field hfield)
      obtain ⟨kind, hkind⟩ := (exists_resolveNesting_iff hplan).mpr (hfinite field hfield)
      exact ⟨plan, kind, hplan, hkind⟩
    obtain ⟨plans, hplans⟩ := exists_plannedFrom hfields 0
    exact ⟨_, analyze_eq_ok_iff.mpr
      ⟨hplans, hidentifiers, hdistinct, hplans.countP_isNullable.trans_le hslots⟩⟩

/-! ## 4. What is planned -/

/-- A type, made nullable or not. -/
def TypeRef.orNull (nullable : Bool) (type : TypeRef) : TypeRef :=
  if nullable then .optional type else type

/-- The type that a kind encodes. -/
def Kind.typeRef : Kind → TypeRef
  | .primitive p => .primitive p
  | .enum name _ => .named name
  | .nested name _ => .named name
  | .list element nullable => .list (element.typeRef.orNull nullable)
  | .array element nullable => .array (element.typeRef.orNull nullable)
  | .map key value nullable => .map key.typeRef (value.typeRef.orNull nullable)

/-- **The type can be read back off its plan.** -/
theorem typeRef_of_planType {type : TypeRef} {plan : ElementPlan}
    (h : planType known type = .ok plan) : plan.kind.typeRef.orNull plan.nullable = type := by
  induction type generalizing plan with
  | primitive p =>
    cases h
    rfl
  | named name =>
    unfold planType at h
    split at h <;> cases h <;> rfl
  | list element ih =>
    obtain ⟨elementPlan, helement, h⟩ := bind_eq_ok h
    cases h
    exact congrArg TypeRef.list (ih helement)
  | array element ih =>
    obtain ⟨elementPlan, helement, h⟩ := bind_eq_ok h
    cases h
    exact congrArg TypeRef.array (ih helement)
  | map key value ihkey ihvalue =>
    obtain ⟨keyPlan, hkey, h⟩ := bind_eq_ok h
    obtain ⟨_, hcheck, h⟩ := bind_eq_ok h
    obtain ⟨valuePlan, hvalue, h⟩ := bind_eq_ok h
    cases h
    have hkeyType := ihkey hkey
    rw [nullable_of_checkKey hcheck] at hkeyType
    exact congrArg₂ TypeRef.map hkeyType (ihvalue hvalue)
  | optional inner ih =>
    obtain ⟨innerPlan, hinner, hnullable, rfl⟩ := planType_optional h
    have htype := ih hinner
    rw [hnullable] at htype
    exact congrArg TypeRef.optional htype

/-- To be recursive changes nothing about the type. -/
theorem typeRef_of_resolveNesting {holder : String} {field : FieldDecl} {plan : ElementPlan}
    {kind : Kind} (h : resolveNesting known holder field plan = .ok kind) :
    kind.typeRef = plan.kind.typeRef := by
  unfold resolveNesting at h
  split at h
  · next name recursive hkind =>
    split at h
    · cases h
    · cases h
      rw [hkind]
      rfl
  · cases h
    rfl

/-- The plan of a field: its name, and a kind of its type whose leaves are known to be what it takes
them for. -/
structure FieldPlan.Mirrors (known : KnownTypes) (field : FieldDecl) (plan : FieldPlan) : Prop where
  name : plan.name = field.name
  type : plan.kind.typeRef.orNull plan.slot.isSome = field.type
  leaves : plan.kind.KnownIn known

/-- The plan of a structure: one for each field in order, with slots numbered from one, and a bitset
that has a place for each. -/
structure TypeSchema.Mirrors (known : KnownTypes) (decl : StructDecl) (tag : Nat)
    (schema : TypeSchema) : Prop where
  name : schema.name = decl.name
  tag : schema.tag = tag
  fields : List.Forall₂ (FieldPlan.Mirrors known) decl.fields schema.fields
  slots : schema.fields.filterMap FieldPlan.slot = List.range' 1 schema.nullableCount
  count : schema.nullableCount = decl.fields.countP fun field => field.type.isOptional
  bytes : IsLeast {bytes | schema.nullableCount ≤ 8 * bytes} schema.bitsetBytes
  places : ∀ plan ∈ schema.fields, ∀ slot, plan.slot = some slot →
    ∀ set : NullBitset schema.bitsetBytes, (set.isNull? slot).isSome = true

/-- Slots are numbered on. -/
theorem PlannedFrom.filterMap_slot {holder : String} {slot : Nat} {fields : List FieldDecl}
    {plans : List FieldPlan} (h : PlannedFrom known holder slot fields plans) :
    plans.filterMap FieldPlan.slot =
      List.range' (slot + 1) (plans.countP FieldPlan.isNullable) := by
  induction h with
  | nil => rfl
  | always _ _ _ _ ih => simpa [FieldPlan.isNullable] using ih
  | nullable _ _ _ _ ih =>
    rw [List.countP_cons_of_pos rfl, List.range'_succ, ← ih]
    rfl

theorem PlannedFrom.mirrors {holder : String} {slot : Nat} {fields : List FieldDecl}
    {plans : List FieldPlan} (h : PlannedFrom known holder slot fields plans) :
    List.Forall₂ (FieldPlan.Mirrors known) fields plans := by
  -- the plan of one field, whose slot says whether its type is nullable
  have hfield : ∀ {field : FieldDecl} {plan : ElementPlan} {kind : Kind} {slot : Option Nat},
      planType known field.type = .ok plan → resolveNesting known holder field plan = .ok kind →
        slot.isSome = plan.nullable → FieldPlan.Mirrors known field ⟨field.name, kind, slot⟩ := by
    intro field plan kind slot hplan hkind hslot
    refine ⟨rfl, ?_, knownIn_of_resolveNesting hkind (knownIn_of_planType hplan)⟩
    rw [hslot, typeRef_of_resolveNesting hkind]
    exact typeRef_of_planType hplan
  induction h with
  | nil => exact .nil
  | always hplan hnullable hkind _ ih => exact .cons (hfield hplan hkind hnullable.symm) ih
  | nullable hplan hnullable hkind _ ih => exact .cons (hfield hplan hkind hnullable.symm) ih

/-- The bitset has as few bytes as it can have. -/
theorem isLeast_bitsetSize (count : Nat) :
    IsLeast {bytes | count ≤ 8 * bytes} (bitsetSize count) := by
  refine ⟨le_bitsetSize count, fun bytes hbytes => ?_⟩
  have hroom : count ≤ 8 * bytes := hbytes
  unfold bitsetSize
  omega

/-- **What passes mirrors its declaration.** -/
theorem mirrors_of_analyze {decl : StructDecl} {tag : Nat} {schema : TypeSchema}
    (h : analyze decl known tag = .ok schema) : schema.Mirrors known decl tag := by
  obtain ⟨plans, rfl⟩ := exists_plans_of_analyze h
  have hplanned := plannedFrom_of_analyze h
  have hcount : (TypeSchema.mk decl.name tag plans).nullableCount =
      plans.countP FieldPlan.isNullable := List.countP_eq_length_filter.symm
  have hslots := hplanned.filterMap_slot
  rw [← hcount] at hslots
  refine ⟨rfl, rfl, hplanned.mirrors, hslots, hcount.trans hplanned.countP_isNullable,
    isLeast_bitsetSize _, fun plan hplan slot hslot set => ?_⟩
  have hmem : slot ∈ plans.filterMap FieldPlan.slot := List.mem_filterMap.mpr ⟨plan, hplan, hslot⟩
  rw [hslots, List.mem_range'_1] at hmem
  have hroom := le_bitsetSize (TypeSchema.mk decl.name tag plans).nullableCount
  have hplace : 1 ≤ slot ∧ slot ≤ 8 * (TypeSchema.mk decl.name tag plans).bitsetBytes := by
    unfold TypeSchema.bitsetBytes
    omega
  obtain ⟨isNull, hanswer⟩ := set.isNull?_isSome hplace
  rw [hanswer]
  rfl

/-- **The analysis accepts exactly the well-formed structures, and mirrors them**: a declaration is
planned, among whatever known types, exactly if its fields have different identifiers for names,
all parts of their types may stand where they stand, no field that is not nullable leads back to the
structure through such fields, and no more than 65535 are nullable.  The plan has the fields in their
order, each with the type that it was declared with, and the nullable ones have the slots from 1 on,
for all of which there is a place in a bitset of as few bytes as possible. -/
theorem accepts_exactly_well_formed (decl : StructDecl) (known : KnownTypes) (tag : Nat) :
    ((∃ schema, analyze decl known tag = .ok schema) ↔ decl.WellFormed known) ∧
      ∀ schema, analyze decl known tag = .ok schema → schema.Mirrors known decl tag :=
  ⟨exists_analyze_iff, fun _ => mirrors_of_analyze⟩

/-- A structure that holds itself behind a null, among two that are known. -/
theorem accepts_exactly_well_formed_link :
    Samples.linkStruct.WellFormed Samples.frameKnown ∧
      ∃ schema, analyze Samples.linkStruct Samples.frameKnown 2 = .ok schema ∧
        schema.Mirrors Samples.frameKnown Samples.linkStruct 2 := by
  have haccepts := accepts_exactly_well_formed Samples.linkStruct Samples.frameKnown 2
  exact ⟨haccepts.1.mp ⟨_, Samples.analyze_linkStruct⟩, _, Samples.analyze_linkStruct,
    haccepts.2 _ Samples.analyze_linkStruct⟩

end Wireform.Schema
