import Wireform.Proofs.Finiteness

/-!
# A run of the generator

`render` lowers all declarations or reports the first error.  `Lowers` says what a run that comes to
its end has done with the declarations one after the other: a structure got its tag from the tags
given so far and was lowered from its plan, and an enumeration was checked.  A run succeeds exactly
if the names are accepted, the tags that are asked for can be claimed, and the declarations lower one
after the other from these tags (`lowerAll_eq_ok_iff`).

So every declaration is lowered once, in its place (`Lowers.exists_decl`, `Lowers.exists_code`), and
what holds of structures that have passed the analysis holds of all that are emitted.
-/
namespace Wireform.Emit

open Schema (KnownTypes SchemaError StructCode StructDecl TagRegistry TypeDecl TypeSchema analyze
  structures)

/-! ## 1. Declarations one after the other -/

/-- Declarations are lowered one after the other, beginning with the tags given so far. -/
inductive Lowers (known : KnownTypes) :
    TagRegistry String → List TypeDecl → List LoweredType → TagRegistry String → Prop where
  | nil {tags : TagRegistry String} : Lowers known tags [] [] tags
  | struct {tags next last : TagRegistry String} {decl : StructDecl} {decls : List TypeDecl}
    {tag : Nat} {schema : TypeSchema} {lowered : List LoweredType}
    (htag : assignTag tags decl = .ok (tag, next)) (hschema : analyze decl known tag = .ok schema)
    (hrest : Lowers known next decls lowered last) :
    Lowers known tags (.struct decl :: decls) (.struct (.ofSchema schema) :: lowered) last
  | enum {tags last : TagRegistry String} {decl : Schema.EnumDecl} {decls : List TypeDecl}
    {lowered : List LoweredType} (hvalid : Schema.validateEnum decl = .ok ())
    (hrest : Lowers known tags decls lowered last) :
    Lowers known tags (.enum decl :: decls) (.enum (.ofDecl decl) :: lowered) last

variable {known : KnownTypes} {tags last : TagRegistry String} {decls : List TypeDecl}
  {lowered : List LoweredType}

/-- What a run has lowered stands behind what was lowered before it. -/
theorem lowers_of_foldlM {before after : Array LoweredType}
    (h : decls.foldlM (lowerNext known) (tags, before) = .ok (last, after)) :
    ∃ lowered, after.toList = before.toList ++ lowered ∧ Lowers known tags decls lowered last := by
  induction decls generalizing tags before with
  | nil =>
    cases h
    exact ⟨[], by simp, .nil⟩
  | cons decl decls ih =>
    rw [List.foldlM_cons] at h
    obtain ⟨⟨next, middle⟩, hstep, hrest⟩ := Schema.bind_eq_ok h
    obtain ⟨lowered, hafter, hlowers⟩ := ih hrest
    cases decl with
    | struct decl =>
      obtain ⟨⟨tag, _⟩, htag, hstep⟩ := Schema.bind_eq_ok hstep
      obtain ⟨schema, hschema, hstep⟩ := Schema.bind_eq_ok hstep
      cases hstep
      exact ⟨_, by simp [hafter], .struct htag hschema hlowers⟩
    | «enum» decl =>
      obtain ⟨_, hvalid, hstep⟩ := Schema.bind_eq_ok hstep
      cases hstep
      exact ⟨_, by simp [hafter], .enum hvalid hlowers⟩

/-- What can be lowered one after the other is lowered by a run. -/
theorem Lowers.foldlM (h : Lowers known tags decls lowered last) (before : Array LoweredType) :
    ∃ after, decls.foldlM (lowerNext known) (tags, before) = .ok (last, after) ∧
      after.toList = before.toList ++ lowered := by
  induction h generalizing before with
  | nil => exact ⟨before, rfl, by simp⟩
  | @struct tags next last decl decls tag schema lowered htag hschema hrest ih =>
    obtain ⟨after, hrun, hafter⟩ := ih (before.push (.struct (.ofSchema schema)))
    refine ⟨after, ?_, by simp [hafter]⟩
    simp only [List.foldlM_cons, lowerNext, htag, hschema, bind, Except.bind, pure, Except.pure]
    exact hrun
  | @«enum» tags last decl decls lowered hvalid hrest ih =>
    obtain ⟨after, hrun, hafter⟩ := ih (before.push (.enum (.ofDecl decl)))
    refine ⟨after, ?_, by simp [hafter]⟩
    simp only [List.foldlM_cons, lowerNext, hvalid, bind, Except.bind, pure, Except.pure]
    exact hrun

/-- **A run succeeds exactly if** the names are accepted, the tags that are asked for can be claimed,
and all declarations lower from these tags. -/
theorem lowerAll_eq_ok_iff :
    lowerAll decls = .ok lowered ↔ ∃ known tags last, KnownTypes.ofDecls decls = .ok known ∧
      checkGeneratedNames decls = .ok () ∧ decls.foldlM claimTag TagRegistry.empty = .ok tags ∧
      Lowers known tags decls lowered last := by
  constructor
  · intro h
    obtain ⟨known, hknown, h⟩ := Schema.bind_eq_ok h
    obtain ⟨_, hnames, h⟩ := Schema.bind_eq_ok h
    obtain ⟨tags, htags, h⟩ := Schema.bind_eq_ok h
    obtain ⟨⟨last, after⟩, hrun, h⟩ := Schema.bind_eq_ok h
    obtain ⟨lowered, hafter, hlowers⟩ := lowers_of_foldlM hrun
    cases h
    rw [List.nil_append] at hafter
    exact ⟨known, tags, last, hknown, hnames, htags, hafter ▸ hlowers⟩
  · rintro ⟨known, tags, last, hknown, hnames, htags, hlowers⟩
    obtain ⟨after, hrun, hafter⟩ := hlowers.foldlM #[]
    simp only [lowerAll, hknown, hnames, htags, hrun, bind, Except.bind, pure, Except.pure, hafter]
    simp

/-- Files come from what was lowered. -/
theorem render_eq_ok_iff {artifacts : List Artifact} :
    render decls = .ok artifacts ↔
      ∃ lowered, lowerAll decls = .ok lowered ∧ artifacts = artifactsOf lowered := by
  unfold render
  cases lowerAll decls <;> simp [bind, Except.bind, pure, Except.pure, eq_comm]

/-! ## 2. What becomes of each declaration -/

/-- A plan has the name of its structure, and the tag that it was made for. -/
theorem eq_mk_of_analyze {decl : StructDecl} {tag : Nat} {schema : TypeSchema}
    (h : analyze decl known tag = .ok schema) : schema = ⟨decl.name, tag, schema.fields⟩ := by
  obtain ⟨progress, -, hschema⟩ := Schema.bind_eq_ok h
  cases hschema
  rfl

/-- A lowered structure has the name of its declaration. -/
theorem name_of_analyze {decl : StructDecl} {tag : Nat} {schema : TypeSchema}
    (h : analyze decl known tag = .ok schema) : (StructCode.ofSchema schema).name = decl.name :=
  congrArg TypeSchema.name (eq_mk_of_analyze h)

/-- The entry of a lowered declaration in the shared files. -/
def LoweredType.entry? : LoweredType → Option TableEntry
  | .struct code => some ⟨code.tag, code.name⟩
  | .enum _ => none

theorem entries_tableOf (lowered : List LoweredType) :
    (tableOf lowered).entries =
      (lowered.filterMap LoweredType.entry?).mergeSort fun a b => a.tag ≤ b.tag := rfl

/-- The names of all types in a table. -/
def Table.names (table : Table) : List String := table.entries.map TableEntry.name ++ table.enums

theorem modules_perm (table : Table) :
    table.modules.Perm (table.names.map fun name => (moduleName name, name)) :=
  List.mergeSort_perm _ _

namespace Lowers

/-- Each structure that is emitted is one that was declared and has passed the analysis. -/
theorem exists_decl (h : Lowers known tags decls lowered last) {code : StructCode}
    (hcode : .struct code ∈ lowered) :
    ∃ decl ∈ structures decls, ∃ tag schema, analyze decl known tag = .ok schema ∧
      code = .ofSchema schema := by
  induction h with
  | nil => simp at hcode
  | @struct tags next last decl decls tag schema lowered htag hschema hrest ih =>
    rcases List.mem_cons.mp hcode with heq | hmem
    · cases heq
      exact ⟨decl, List.mem_cons_self, tag, schema, hschema, rfl⟩
    · obtain ⟨other, hother, h⟩ := ih hmem
      exact ⟨other, List.mem_cons_of_mem _ hother, h⟩
  | «enum» hvalid hrest ih =>
    rcases List.mem_cons.mp hcode with heq | hmem
    · cases heq
    · exact ih hmem

/-- Each enumeration that is emitted is one that was declared. -/
theorem exists_enum (h : Lowers known tags decls lowered last) {e : Enumeration}
    (he : .enum e ∈ lowered) : ∃ decl, .enum decl ∈ decls ∧ e = .ofDecl decl := by
  induction h with
  | nil => cases he
  | struct _ _ _ ih =>
    rcases List.mem_cons.mp he with heq | hmem
    · cases heq
    · obtain ⟨decl, hdecl, h⟩ := ih hmem
      exact ⟨decl, List.mem_cons_of_mem _ hdecl, h⟩
  | @«enum» tags last decl decls lowered hvalid hrest ih =>
    rcases List.mem_cons.mp he with heq | hmem
    · cases heq
      exact ⟨decl, List.mem_cons_self, rfl⟩
    · obtain ⟨other, hother, h⟩ := ih hmem
      exact ⟨other, List.mem_cons_of_mem _ hother, h⟩

/-- Each declared structure is emitted as it was planned. -/
theorem exists_code (h : Lowers known tags decls lowered last) {decl : StructDecl}
    (hdecl : decl ∈ structures decls) :
    ∃ tag schema, analyze decl known tag = .ok schema ∧ .struct (.ofSchema schema) ∈ lowered := by
  induction h with
  | nil => simp [structures] at hdecl
  | @struct tags next last other decls tag schema lowered htag hschema hrest ih =>
    rcases List.mem_cons.mp hdecl with rfl | hmem
    · exact ⟨tag, schema, hschema, List.mem_cons_self⟩
    · obtain ⟨tag, schema, hschema, hcode⟩ := ih hmem
      exact ⟨tag, schema, hschema, List.mem_cons_of_mem _ hcode⟩
  | «enum» hvalid hrest ih =>
    obtain ⟨tag, schema, hschema, hcode⟩ := ih hdecl
    exact ⟨tag, schema, hschema, List.mem_cons_of_mem _ hcode⟩

/-- Each declared enumeration is valid, and is emitted as it was declared. -/
theorem mem_enum (h : Lowers known tags decls lowered last) {decl : Schema.EnumDecl}
    (hdecl : .enum decl ∈ decls) :
    Schema.validateEnum decl = .ok () ∧ .enum (.ofDecl decl) ∈ lowered := by
  induction h with
  | nil => cases hdecl
  | struct htag hschema hrest ih =>
    rcases List.mem_cons.mp hdecl with heq | hmem
    · cases heq
    · exact ⟨(ih hmem).1, List.mem_cons_of_mem _ (ih hmem).2⟩
  | «enum» hvalid hrest ih =>
    rcases List.mem_cons.mp hdecl with heq | hmem
    · cases heq
      exact ⟨hvalid, List.mem_cons_self⟩
    · exact ⟨(ih hmem).1, List.mem_cons_of_mem _ (ih hmem).2⟩

/-- Entries are those of the declared structures. -/
theorem map_name (h : Lowers known tags decls lowered last) :
    (lowered.filterMap LoweredType.entry?).map TableEntry.name =
      (structures decls).map StructDecl.name := by
  induction h with
  | nil => rfl
  | struct htag hschema hrest ih =>
    simp only [List.filterMap_cons, LoweredType.entry?, List.map_cons, ih]
    exact congrArg (List.cons · _) (name_of_analyze hschema)
  | «enum» hvalid hrest ih => exact ih

/-- The table has the names of all declarations. -/
theorem names_perm (h : Lowers known tags decls lowered last) :
    (tableOf lowered).names.Perm (decls.map TypeDecl.name) := by
  have hunsorted : (tableOf lowered).names.Perm
      ((lowered.filterMap LoweredType.entry?).map TableEntry.name ++ (tableOf lowered).enums) := by
    unfold Table.names
    rw [entries_tableOf]
    exact ((List.mergeSort_perm _ _).map _).append_right _
  refine hunsorted.trans ?_
  clear hunsorted
  induction h with
  | nil => exact .refl _
  | @struct tags next last decl decls tag schema lowered htag hschema hrest ih =>
    have hcons := ih.cons (Schema.StructCode.ofSchema schema).name
    rw [name_of_analyze hschema] at hcons
    simp only [List.filterMap_cons, LoweredType.entry?, List.map_cons, name_of_analyze hschema]
    exact hcons
  | «enum» hvalid hrest ih =>
    rw [List.map_cons]
    exact List.perm_middle.trans (ih.cons _)

end Lowers

end Wireform.Emit
