import Wireform.Proofs.Layout
import Wireform.Schema.Analysis

/-!
# What the analysis plans

A structure that passes the analysis is planned: its slots are numbered in the order of its
nullable fields, and no two fields have one name (`isPlan_of_analyze`).  So the condition that
lowered structures are put under, `Catalogue.Planned`, is one that they meet if their plans come
from the analysis.

The analysis goes through the fields and keeps the names in use and the number of slots given.  The
invariant is that these are the names and the number of slots of the plans that it has made.
-/
namespace Wireform.Schema

/-- Whether a field takes part with a slot. -/
def hasSlot : Presence → Bool
  | .nullable _ => true
  | _ => false

/-- Slots go on being numbered behind a field that is always there. -/
theorem numbered_append_always {slot : Nat} {presences : List Presence}
    (h : Numbered slot presences) : Numbered slot (presences ++ [.always]) := by
  induction presences generalizing slot with
  | nil => exact trivial
  | cons presence rest ih =>
    cases presence with
    | always =>
      have hrest : Numbered slot rest := h
      exact ih hrest
    | skipped =>
      have hrest : Numbered slot rest := h
      exact ih hrest
    | nullable own => exact ⟨h.1, ih h.2⟩

/-- The next slot is one more than there are. -/
theorem numbered_append_nullable {slot : Nat} {presences : List Presence}
    (h : Numbered slot presences) :
    Numbered slot (presences ++ [.nullable (slot + presences.countP hasSlot + 1)]) := by
  induction presences generalizing slot with
  | nil => exact ⟨rfl, trivial⟩
  | cons presence rest ih =>
    cases presence with
    | always =>
      have hrest : Numbered slot rest := h
      exact ih hrest
    | skipped =>
      have hrest : Numbered slot rest := h
      exact ih hrest
    | nullable own =>
      have hrest := ih h.2
      rw [List.countP_cons_of_pos rfl]
      refine ⟨h.1, ?_⟩
      rwa [Nat.add_assoc slot 1, Nat.add_comm 1] at hrest

/-- The names in use and the slots given are those of the plans. -/
structure Progress.Consistent (progress : Progress) : Prop where
  names : ∀ plan ∈ progress.plans.toList, plan.name ∈ progress.names
  nodup : (progress.plans.toList.map FieldPlan.name).Nodup
  numbered : Numbered 0 (progress.plans.toList.map FieldPlan.presence)
  nullables : (progress.plans.toList.map FieldPlan.presence).countP hasSlot = progress.nullables

/-- What is done after a check is done only if the check passes. -/
theorem bind_eq_ok {ε α β : Type} {first : Except ε α} {next : α → Except ε β} {result : β}
    (h : (first >>= next) = .ok result) : ∃ value, first = .ok value ∧ next value = .ok result := by
  cases first with
  | error fault => cases h
  | ok value => exact ⟨value, rfl, h⟩

/-- A check that is passed is passed however its failure would be reported. -/
theorem eq_ok_of_mapError {ε ε' α : Type} {f : ε → ε'} {result : Except ε α} {value : α}
    (h : result.mapError f = .ok value) : result = .ok value := by
  cases result with
  | error fault => cases h
  | ok found => exact congrArg Except.ok (Except.ok.inj h)

/-- What a step adds: the plan of the field under a new name, with the next slot if it is
nullable. -/
theorem Progress.step_eq_ok {known : KnownTypes} {holder : String} {progress next : Progress}
    {field : FieldDecl} (h : Progress.step known holder progress field = .ok next) :
    field.name ∉ progress.names ∧ ∃ plan kind, planType known field.type = .ok plan ∧
      resolveNesting known holder field plan = .ok kind ∧
      ((plan.nullable = true ∧
        next = ⟨progress.names.insert field.name, progress.nullables + 1,
          progress.plans.push ⟨field.name, kind, some (progress.nullables + 1)⟩⟩) ∨
      (plan.nullable = false ∧
        next = ⟨progress.names.insert field.name, progress.nullables,
          progress.plans.push ⟨field.name, kind, none⟩⟩)) := by
  obtain ⟨-, -, h⟩ := bind_eq_ok h
  dsimp only at h
  by_cases hused : progress.names.contains field.name = true
  · rw [if_pos hused] at h
    cases h
  · rw [if_neg hused] at h
    obtain ⟨plan, hplan, h⟩ := bind_eq_ok h
    obtain ⟨kind, hkind, h⟩ := bind_eq_ok h
    have hplan := eq_ok_of_mapError hplan
    refine ⟨fun hmem => hused (Std.HashSet.contains_iff_mem.mpr hmem), plan, kind, hplan, hkind, ?_⟩
    split at h
    · next hnullable =>
      split at h
      · cases h
      · cases h
        exact .inl ⟨hnullable, rfl⟩
    · next hnullable =>
      cases h
      exact .inr ⟨Bool.eq_false_iff.mpr hnullable, rfl⟩

/-- **A step keeps the analysis consistent.** -/
theorem Progress.Consistent.step {known : KnownTypes} {holder : String}
    {progress next : Progress} {field : FieldDecl} (hprogress : progress.Consistent)
    (h : Progress.step known holder progress field = .ok next) : next.Consistent := by
  obtain ⟨hnew, plan, kind, -, -, hnext⟩ := Progress.step_eq_ok h
  have hfresh : ∀ plan ∈ progress.plans.toList, plan.name ≠ field.name :=
    fun plan hplan heq => hnew (heq ▸ hprogress.names plan hplan)
  have hadd : ∀ slot : Option Nat,
      (∀ plan ∈ progress.plans.toList ++ [FieldPlan.mk field.name kind slot],
        plan.name ∈ progress.names.insert field.name) ∧
      ((progress.plans.toList ++ [FieldPlan.mk field.name kind slot]).map
        FieldPlan.name).Nodup := by
    intro slot
    refine ⟨fun plan hplan => ?_, ?_⟩
    · rw [Std.HashSet.mem_insert]
      rcases List.mem_append.mp hplan with hold | hlast
      · exact .inr (hprogress.names plan hold)
      · rw [List.mem_singleton.mp hlast]
        exact .inl (beq_self_eq_true _)
    · rw [List.map_append, List.map_singleton, List.nodup_append]
      refine ⟨hprogress.nodup, List.nodup_cons.mpr ⟨List.not_mem_nil, List.nodup_nil⟩, ?_⟩
      intro name hname other hother heq
      obtain ⟨plan, hplan, rfl⟩ := List.mem_map.mp hname
      exact hfresh plan hplan (heq.trans (List.mem_singleton.mp hother))
  obtain ⟨-, rfl⟩ | ⟨-, rfl⟩ := hnext
  · obtain ⟨hnames, hnodup⟩ := hadd (some (progress.nullables + 1))
    have hnumbered := numbered_append_nullable hprogress.numbered
    rw [hprogress.nullables, Nat.zero_add] at hnumbered
    refine ⟨?_, ?_, ?_, ?_⟩ <;> rw [Array.toList_push]
    · exact hnames
    · exact hnodup
    · rw [List.map_append]
      exact hnumbered
    · rw [List.map_append, List.countP_append, hprogress.nullables]
      rfl
  · obtain ⟨hnames, hnodup⟩ := hadd none
    have hnumbered := numbered_append_always hprogress.numbered
    refine ⟨?_, ?_, ?_, ?_⟩ <;> rw [Array.toList_push]
    · exact hnames
    · exact hnodup
    · rw [List.map_append]
      exact hnumbered
    · rw [List.map_append, List.countP_append, hprogress.nullables]
      rfl

/-- The analysis of all fields is consistent. -/
theorem Progress.Consistent.foldlM {known : KnownTypes} {holder : String} {fields : List FieldDecl}
    {progress last : Progress} (hprogress : progress.Consistent)
    (h : fields.foldlM (Progress.step known holder) progress = .ok last) : last.Consistent := by
  induction fields generalizing progress with
  | nil =>
    cases h
    exact hprogress
  | cons field fields ih =>
    rw [List.foldlM_cons] at h
    obtain ⟨next, hstep, hrest⟩ := bind_eq_ok h
    exact ih (hprogress.step hstep) hrest

/-- **What passes the analysis is planned.** -/
theorem isPlan_of_analyze {decl : StructDecl} {known : KnownTypes} {tag : Nat} {schema : TypeSchema}
    (h : analyze decl known tag = .ok schema) : schema.IsPlan := by
  obtain ⟨progress, hprogress, hschema⟩ := bind_eq_ok h
  have hempty : Progress.Consistent ⟨∅, 0, #[]⟩ :=
    ⟨fun _ hmem => absurd hmem List.not_mem_nil, List.nodup_nil, trivial, rfl⟩
  have hconsistent := hempty.foldlM hprogress
  cases hschema
  exact ⟨hconsistent.numbered, hconsistent.nodup⟩

/-- What passes the analysis may be lowered into a catalogue, under any scope. -/
theorem isPlanned_of_analyze {decl : StructDecl} {known : KnownTypes} {tag : Nat}
    {schema : TypeSchema} (h : analyze decl known tag = .ok schema) (scope : String) :
    (Definition.lowered scope (.ofSchema schema)).IsPlanned :=
  ⟨schema, rfl, isPlan_of_analyze h⟩

/-- The plans of fields one after the other, when `slot` fields before them were nullable. -/
inductive PlannedFrom (known : KnownTypes) (holder : String) :
    (slot : Nat) → List FieldDecl → List FieldPlan → Prop where
  | nil {slot : Nat} : PlannedFrom known holder slot [] []
  | always {slot : Nat} {field : FieldDecl} {fields : List FieldDecl} {plan : ElementPlan}
    {kind : Kind} {plans : List FieldPlan} (hplan : planType known field.type = .ok plan)
    (hnullable : plan.nullable = false) (hkind : resolveNesting known holder field plan = .ok kind)
    (hrest : PlannedFrom known holder slot fields plans) :
    PlannedFrom known holder slot (field :: fields) (⟨field.name, kind, none⟩ :: plans)
  | nullable {slot : Nat} {field : FieldDecl} {fields : List FieldDecl} {plan : ElementPlan}
    {kind : Kind} {plans : List FieldPlan} (hplan : planType known field.type = .ok plan)
    (hnullable : plan.nullable = true) (hkind : resolveNesting known holder field plan = .ok kind)
    (hrest : PlannedFrom known holder (slot + 1) fields plans) :
    PlannedFrom known holder slot (field :: fields) (⟨field.name, kind, some (slot + 1)⟩ :: plans)

/-- The analysis goes on behind the plans that it has made. -/
theorem plannedFrom_of_foldlM {known : KnownTypes} {holder : String} {fields : List FieldDecl}
    {progress last : Progress}
    (h : fields.foldlM (Progress.step known holder) progress = .ok last) :
    ∃ plans, last.plans.toList = progress.plans.toList ++ plans ∧
      PlannedFrom known holder progress.nullables fields plans := by
  induction fields generalizing progress with
  | nil =>
    cases h
    exact ⟨[], (List.append_nil _).symm, .nil⟩
  | cons field fields ih =>
    rw [List.foldlM_cons] at h
    obtain ⟨next, hstep, hrest⟩ := bind_eq_ok h
    obtain ⟨plans, hlast, hplans⟩ := ih hrest
    obtain ⟨-, plan, kind, hplan, hkind, ⟨hnullable, rfl⟩ | ⟨hnullable, rfl⟩⟩ :=
      Progress.step_eq_ok hstep
    · refine ⟨_, ?_, .nullable hplan hnullable hkind hplans⟩
      rw [hlast, Array.toList_push, List.append_assoc, List.singleton_append]
    · refine ⟨_, ?_, .always hplan hnullable hkind hplans⟩
      rw [hlast, Array.toList_push, List.append_assoc, List.singleton_append]

/-- **What passes the analysis is planned field by field**, in the order of the declaration. -/
theorem plannedFrom_of_analyze {decl : StructDecl} {known : KnownTypes} {tag : Nat}
    {schema : TypeSchema} (h : analyze decl known tag = .ok schema) :
    PlannedFrom known decl.name 0 decl.fields schema.fields := by
  obtain ⟨progress, hprogress, hschema⟩ := bind_eq_ok h
  obtain ⟨plans, hlast, hplans⟩ := plannedFrom_of_foldlM hprogress
  cases hschema
  rw [List.nil_append] at hlast
  rw [hlast]
  exact hplans

end Wireform.Schema
