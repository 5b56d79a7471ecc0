import Wireform.Proofs.Declaration
import Wireform.Proofs.Known

/-!
# What the analysis accepts

A structure passes the analysis exactly if its fields have plans one after the other, its field names
are different identifiers, and there are slots for all of its nullable fields (`analyze_eq_ok_iff`).
What the plans hold is declared: every name in a kind is known to be what the kind takes it for, and
is one that a declared type may have.
-/
namespace Wireform

open Schema (FieldPlan Kind KnownTypes Primitive StructDecl TypeDecl TypeSchema analyze)

/-! ## 1. The names in plans -/

namespace Schema

variable {known : KnownTypes}

/-- The declared types in a kind. -/
def Kind.names : Kind → List String
  | .primitive _ => []
  | .enum name _ => [name]
  | .nested name _ => [name]
  | .list element _ => element.names
  | .array element _ => element.names
  | .map key value _ => key.names ++ value.names

/-- The declared types in a kind are known to be what it takes them for. -/
def Kind.KnownIn (known : KnownTypes) : Kind → Prop
  | .primitive _ => True
  | .enum name repr => known.get? name = some (.enum repr)
  | .nested name _ => ∃ fields, known.get? name = some (.struct fields)
  | .list element _ => element.KnownIn known
  | .array element _ => element.KnownIn known
  | .map key value _ => key.KnownIn known ∧ value.KnownIn known

theorem Kind.KnownIn.names {kind : Kind} (h : kind.KnownIn known) :
    ∀ name ∈ kind.names, ∃ entry, known.get? name = some entry := by
  induction kind with
  | primitive p => exact fun _ hmem => absurd hmem List.not_mem_nil
  | enum name repr => exact List.forall_mem_singleton.mpr ⟨_, h⟩
  | nested name recursive =>
    obtain ⟨fields, hget⟩ := h
    exact List.forall_mem_singleton.mpr ⟨_, hget⟩
  | list element nullable ih => exact ih h
  | array element nullable ih => exact ih h
  | map key value nullable ihkey ihvalue =>
    exact List.forall_mem_append.mpr ⟨ihkey h.1, ihvalue h.2⟩

theorem knownIn_of_planType {ref : TypeRef} {plan : ElementPlan} (h : planType known ref = .ok plan) :
    plan.kind.KnownIn known := by
  induction ref generalizing plan with
  | primitive p =>
    cases h
    exact trivial
  | named name =>
    unfold planType at h
    split at h
    · next repr hget =>
      cases h
      exact hget
    · next fields hget =>
      cases h
      exact ⟨fields, hget⟩
    · cases h
  | list element ih =>
    obtain ⟨inner, hinner, h⟩ := bind_eq_ok h
    cases h
    have helement := ih hinner
    exact helement
  | array element ih =>
    obtain ⟨inner, hinner, h⟩ := bind_eq_ok h
    cases h
    have helement := ih hinner
    exact helement
  | map key value ihkey ihvalue =>
    obtain ⟨keyPlan, hkey, h⟩ := bind_eq_ok h
    obtain ⟨-, -, h⟩ := bind_eq_ok h
    obtain ⟨valuePlan, hvalue, h⟩ := bind_eq_ok h
    cases h
    exact ⟨ihkey hkey, ihvalue hvalue⟩
  | optional inner ih =>
    obtain ⟨innerPlan, hinner, -, rfl⟩ := planType_optional h
    have hkind := ih hinner
    exact hkind

/-- To be recursive changes nothing about what is known. -/
theorem knownIn_of_resolveNesting {holder : String} {field : FieldDecl} {plan : ElementPlan}
    {kind : Kind} (h : resolveNesting known holder field plan = .ok kind)
    (hplan : plan.kind.KnownIn known) : kind.KnownIn known := by
  unfold resolveNesting at h
  split at h
  · next name recursive hkind =>
    split at h
    · cases h
    · cases h
      rw [hkind] at hplan
      exact hplan
  · cases h
    exact hplan

theorem PlannedFrom.knownIn {holder : String} {slot : Nat} {fields : List FieldDecl}
    {plans : List FieldPlan} (h : PlannedFrom known holder slot fields plans) :
    ∀ plan ∈ plans, plan.kind.KnownIn known := by
  induction h with
  | nil => exact fun _ hmem => absurd hmem List.not_mem_nil
  | always hplan _ hkind _ ih =>
    exact List.forall_mem_cons.mpr
      ⟨knownIn_of_resolveNesting hkind (knownIn_of_planType hplan), ih⟩
  | nullable hplan _ hkind _ ih =>
    exact List.forall_mem_cons.mpr
      ⟨knownIn_of_resolveNesting hkind (knownIn_of_planType hplan), ih⟩

/-- **The names in the plan of a structure are names that declared types may have.** -/
theorem isTypeName_of_analyze {decls : List TypeDecl} (hknown : KnownTypes.ofDecls decls = .ok known)
    {decl : StructDecl} {tag : Nat} {schema : TypeSchema} (h : analyze decl known tag = .ok schema)
    {field : FieldPlan} (hfield : field ∈ schema.fields) :
    ∀ name ∈ field.kind.names, IsTypeName name := by
  intro name hname
  obtain ⟨entry, hentry⟩ := ((plannedFrom_of_analyze h).knownIn field hfield).names name hname
  exact KnownTypes.isTypeName_of_ofDecls hknown hentry

/-! ## 2. What passes -/

/-- A step takes an identifier, and keeps to the slots that there are. -/
theorem Progress.step_checks {holder : String} {progress next : Progress} {field : FieldDecl}
    (h : Progress.step known holder progress field = .ok next) :
    isIdentifier field.name = true ∧
      (progress.nullables ≤ maxNullableFields → next.nullables ≤ maxNullableFields) := by
  obtain ⟨_, hname, h⟩ := bind_eq_ok h
  refine ⟨checkName_eq_ok_iff.mp hname, fun hle => ?_⟩
  dsimp only at h
  split at h
  · cases h
  · obtain ⟨plan, -, h⟩ := bind_eq_ok h
    obtain ⟨kind, -, h⟩ := bind_eq_ok h
    split at h
    · split at h
      · cases h
      · next hslot =>
        cases h
        exact Nat.not_lt.mp hslot
    · cases h
      exact hle

theorem Progress.foldlM_checks {holder : String} {fields : List FieldDecl} {first last : Progress}
    (h : fields.foldlM (Progress.step known holder) first = .ok last)
    (hfirst : first.nullables ≤ maxNullableFields) :
    (∀ field ∈ fields, isIdentifier field.name = true) ∧ last.nullables ≤ maxNullableFields := by
  induction fields generalizing first with
  | nil =>
    cases h
    exact ⟨fun _ hmem => absurd hmem List.not_mem_nil, hfirst⟩
  | cons field fields ih =>
    rw [List.foldlM_cons] at h
    obtain ⟨next, hnext, hrest⟩ := bind_eq_ok h
    obtain ⟨hname, hle⟩ := Progress.step_checks hnext
    obtain ⟨hnames, hlast⟩ := ih hrest (hle hfirst)
    exact ⟨List.forall_mem_cons.mpr ⟨hname, hnames⟩, hlast⟩

/-- A step takes a new identifier whose type has a plan, if there is a slot for it. -/
theorem Progress.step_of_plan {holder : String} {progress : Progress} {field : FieldDecl}
    (hname : isIdentifier field.name = true) (hnew : field.name ∉ progress.names)
    {plan : ElementPlan} (hplan : planType known field.type = .ok plan) {kind : Kind}
    (hkind : resolveNesting known holder field plan = .ok kind) :
    (plan.nullable = false → Progress.step known holder progress field =
      .ok ⟨progress.names.insert field.name, progress.nullables,
        progress.plans.push ⟨field.name, kind, none⟩⟩) ∧
    (plan.nullable = true → progress.nullables < maxNullableFields →
      Progress.step known holder progress field =
        .ok ⟨progress.names.insert field.name, progress.nullables + 1,
          progress.plans.push ⟨field.name, kind, some (progress.nullables + 1)⟩⟩) := by
  have hcheck : checkName field.name = .ok () := if_pos hname
  have hunused : progress.names.contains field.name = false :=
    Bool.eq_false_iff.mpr fun hused => hnew (Std.HashSet.contains_iff_mem.mp hused)
  refine ⟨fun hnullable => ?_, fun hnullable hroom => ?_⟩
  · unfold Progress.step
    rw [hcheck, hplan, hunused]
    simp only [Except.mapError, bind, Except.bind, hkind]
    rw [hnullable]
    rfl
  · unfold Progress.step
    rw [hcheck, hplan, hunused]
    simp only [Except.mapError, bind, Except.bind, hkind]
    rw [hnullable, if_neg (Nat.not_lt.mpr hroom)]
    rfl

/-- Fields that have plans pass one after the other. -/
theorem PlannedFrom.foldlM {holder : String} {slot : Nat} {fields : List FieldDecl}
    {plans : List FieldPlan} (h : PlannedFrom known holder slot fields plans)
    (hidentifiers : ∀ field ∈ fields, isIdentifier field.name = true)
    (hnodup : (fields.map FieldDecl.name).Nodup) (progress : Progress)
    (hslot : progress.nullables = slot) (hfresh : ∀ field ∈ fields, field.name ∉ progress.names)
    (hroom : slot + plans.countP FieldPlan.isNullable ≤ maxNullableFields) :
    ∃ last, fields.foldlM (Progress.step known holder) progress = .ok last ∧
      last.plans.toList = progress.plans.toList ++ plans := by
  -- the names of the fields to come stay out of the names in use, since they differ
  have hinsert : ∀ {field : FieldDecl} {fields : List FieldDecl} {names : Std.HashSet String},
      ((field :: fields).map FieldDecl.name).Nodup → (∀ other ∈ fields, other.name ∉ names) →
        ∀ other ∈ fields, other.name ∉ names.insert field.name := by
    intro field fields names hnodup hfresh other hother hmem
    rw [List.map_cons, List.nodup_cons] at hnodup
    rcases Std.HashSet.mem_insert.mp hmem with heq | hold
    · rw [beq_iff_eq.mp heq] at hnodup
      exact hnodup.1 (List.mem_map_of_mem hother)
    · exact hfresh other hother hold
  induction h generalizing progress with
  | nil => exact ⟨progress, rfl, (List.append_nil _).symm⟩
  | @always slot field fields plan kind plans hplan hnullable hkind hrest ih =>
    rw [List.forall_mem_cons] at hidentifiers hfresh
    have hstep := (Progress.step_of_plan hidentifiers.1 hfresh.1 hplan hkind).1 hnullable
    have hnodup' := (List.nodup_cons.mp hnodup).2
    obtain ⟨last, hlast, hplans⟩ := ih hidentifiers.2 hnodup'
      ⟨progress.names.insert field.name, progress.nullables,
        progress.plans.push ⟨field.name, kind, none⟩⟩ hslot (hinsert hnodup hfresh.2) hroom
    refine ⟨last, ?_, ?_⟩
    · rw [List.foldlM_cons, hstep]
      exact hlast
    · rw [hplans, Array.toList_push, List.append_assoc, List.singleton_append]
  | @nullable slot field fields plan kind plans hplan hnullable hkind hrest ih =>
    rw [List.forall_mem_cons] at hidentifiers hfresh
    rw [List.countP_cons_of_pos rfl] at hroom
    subst hslot
    have hstep := (Progress.step_of_plan hidentifiers.1 hfresh.1 hplan hkind).2 hnullable (by omega)
    have hnodup' := (List.nodup_cons.mp hnodup).2
    obtain ⟨last, hlast, hplans⟩ := ih hidentifiers.2 hnodup'
      ⟨progress.names.insert field.name, progress.nullables + 1,
        progress.plans.push ⟨field.name, kind, some (progress.nullables + 1)⟩⟩ rfl
      (hinsert hnodup hfresh.2) (by omega)
    refine ⟨last, ?_, ?_⟩
    · rw [List.foldlM_cons, hstep]
      exact hlast
    · rw [hplans, Array.toList_push, List.append_assoc, List.singleton_append]

theorem PlannedFrom.names {holder : String} {slot : Nat} {fields : List FieldDecl}
    {plans : List FieldPlan} (h : PlannedFrom known holder slot fields plans) :
    plans.map FieldPlan.name = fields.map FieldDecl.name := by
  induction h with
  | nil => rfl
  | always _ _ _ _ ih => exact congrArg (_ :: ·) ih
  | nullable _ _ _ _ ih => exact congrArg (_ :: ·) ih

/-- **A structure passes the analysis exactly if its fields have plans**, under identifiers that
differ, and with slots for all that are nullable. -/
theorem analyze_eq_ok_iff {decl : StructDecl} {tag : Nat} {plans : List FieldPlan} :
    analyze decl known tag = .ok ⟨decl.name, tag, plans⟩ ↔
      PlannedFrom known decl.name 0 decl.fields plans ∧
        (∀ field ∈ decl.fields, isIdentifier field.name = true) ∧
        (decl.fields.map FieldDecl.name).Nodup ∧
        plans.countP FieldPlan.isNullable ≤ maxNullableFields := by
  constructor
  · intro h
    have hplanned := plannedFrom_of_analyze h
    obtain ⟨progress, hprogress, hschema⟩ := bind_eq_ok h
    have hempty : Progress.Consistent ⟨∅, 0, #[]⟩ :=
      ⟨fun _ hmem => absurd hmem List.not_mem_nil, List.nodup_nil, trivial, rfl⟩
    have hconsistent := hempty.foldlM hprogress
    obtain ⟨hidentifiers, hroom⟩ := Progress.foldlM_checks hprogress (Nat.zero_le _)
    cases hschema
    refine ⟨hplanned, hidentifiers, hplanned.names ▸ hconsistent.nodup, le_of_eq_of_le ?_ hroom⟩
    rw [← hconsistent.nullables, List.countP_map]
    refine List.countP_congr fun field _ => ?_
    unfold FieldPlan.isNullable
    cases hslot : field.slot <;> simp [FieldPlan.presence, hslot, hasSlot]
  · rintro ⟨hplanned, hidentifiers, hnodup, hroom⟩
    obtain ⟨last, hlast, hplans⟩ := hplanned.foldlM hidentifiers hnodup
      ⟨∅, 0, #[]⟩ rfl (fun _ _ => Std.HashSet.not_mem_empty)
      ((Nat.zero_add _).trans_le hroom)
    rw [List.nil_append] at hplans
    unfold analyze
    rw [hlast, ← hplans]
    rfl

/-- No structure has more nullable fields than there are slots. -/
theorem nullableCount_le_of_analyze {decl : StructDecl} {tag : Nat} {schema : TypeSchema}
    (h : analyze decl known tag = .ok schema) : schema.nullableCount ≤ maxNullableFields := by
  obtain ⟨progress, hprogress, hschema⟩ := bind_eq_ok h
  cases hschema
  unfold TypeSchema.nullableCount TypeSchema.nullableFields
  rw [← List.countP_eq_length_filter]
  exact (analyze_eq_ok_iff.mp h).2.2.2

end Schema

end Wireform
