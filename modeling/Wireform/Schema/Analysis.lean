import Std.Data.HashSet
import Wireform.Schema.Known
import Wireform.Schema.Plan

/-!
# Analysis of declarations

`analyze` checks a structure against the known types and plans its layout: every field keeps its
place, and nullable fields get the bitset slots 1, 2, 3, … in the order in which they come.
`validateEnum` checks an enumeration.

For each field in turn the checks are: its name is an identifier; no earlier field has it; nowhere
in its type is nullability applied twice; every named leaf is known; every map key is a primitive
other than a floating-point number, or an enumeration; a structure held inline does not lead back
to its holder through inline fields; and there are slots left.  The first failing check decides.
-/
namespace Wireform.Schema

/-- What can be wrong inside a type. -/
inductive TypeProblem where
  | fault (fault : TypeFault)
  | unknown (name : String)
  deriving DecidableEq, Repr

/-- The error of a field whose type has a problem. -/
def TypeProblem.toError (typeName : String) (field : FieldDecl) : TypeProblem → SchemaError
  | .fault cause => .unsupportedType typeName field.name field.type cause
  | .unknown name => .unknownType typeName field.name name

/-- Refuses a plan that cannot be that of a map key. -/
def checkKey (plan : ElementPlan) : Except TypeProblem Unit :=
  if plan.nullable then .error (.fault .nullableKey)
  else
    match plan.kind with
    | .primitive p => if p.isFloat then .error (.fault (.floatKey p)) else .ok ()
    | .enum _ _ => .ok ()
    | kind => .error (.fault (.compositeKey kind.label))

/-- Plans a type.  Structures are not marked as recursive here, which depends on the holder. -/
def planType (known : KnownTypes) : TypeRef → Except TypeProblem ElementPlan
  | .primitive p => .ok ⟨.primitive p, false⟩
  | .named name =>
    match known.get? name with
    | some (.enum repr) => .ok ⟨.enum name repr, false⟩
    | some (.struct _) => .ok ⟨.nested name false, false⟩
    | none => .error (.unknown name)
  | .list element => do
    let plan ← planType known element
    pure ⟨.list plan.kind plan.nullable, false⟩
  | .array element => do
    let plan ← planType known element
    pure ⟨.array plan.kind plan.nullable, false⟩
  | .map key value => do
    let keyPlan ← planType known key
    checkKey keyPlan
    let valuePlan ← planType known value
    pure ⟨.map keyPlan.kind valuePlan.kind valuePlan.nullable, false⟩
  | .optional inner =>
    if inner.isOptional then .error (.fault .nestedOptional)
    else do
      let plan ← planType known inner
      pure ⟨plan.kind, true⟩

/-- What has been planned of a structure: the names in use, how many fields were nullable, and the
plans of the fields. -/
structure Progress where
  names : Std.HashSet String
  nullables : Nat
  plans : Array FieldPlan

/-- Marks a directly held structure as recursive if it leads back to its holder, and refuses it if
it does so without a null on the way. -/
def resolveNesting (known : KnownTypes) (holder : String) (field : FieldDecl) (plan : ElementPlan) :
    Except SchemaError Kind :=
  match plan.kind with
  | .nested name _ =>
    if !plan.nullable && (name == holder || known.reaches name holder false) then
      .error (.infinitelySized holder field.name)
    else .ok (.nested name (name == holder || known.reaches name holder true))
  | kind => .ok kind

/-- Plans the next field. -/
def Progress.step (known : KnownTypes) (holder : String) (progress : Progress)
    (field : FieldDecl) : Except SchemaError Progress := do
  checkName field.name
  if progress.names.contains field.name then
    throw (.duplicateField holder field.name)
  let plan ← (planType known field.type).mapError (TypeProblem.toError holder field)
  let kind ← resolveNesting known holder field plan
  let names := progress.names.insert field.name
  if plan.nullable then
    let slot := progress.nullables + 1
    if maxNullableFields < slot then
      throw (.tooManyNullableFields holder)
    pure ⟨names, slot, progress.plans.push ⟨field.name, kind, some slot⟩⟩
  else
    pure ⟨names, progress.nullables, progress.plans.push ⟨field.name, kind, none⟩⟩

/-- Plans the layout of a structure that is to be dispatched under `tag`. -/
def analyze (decl : StructDecl) (known : KnownTypes) (tag : Nat) :
    Except SchemaError TypeSchema := do
  let progress ← decl.fields.foldlM (Progress.step known decl.name) ⟨∅, 0, #[]⟩
  pure ⟨decl.name, tag, progress.plans.toList⟩

/-- Checks the next variant against the names and values in use. -/
def checkVariant (decl : EnumDecl) (seen : Std.HashSet String × Std.HashSet Int)
    (variant : VariantDecl) : Except SchemaError (Std.HashSet String × Std.HashSet Int) := do
  checkName variant.name
  if seen.1.contains variant.name then
    throw (.invalidEnum decl.name (.repeatedVariant variant.name))
  if seen.2.contains variant.value then
    throw (.invalidEnum decl.name (.repeatedValue variant.value))
  if !decl.repr.contains variant.value then
    throw (.invalidEnum decl.name (.valueTooWide variant.value variant.name decl.repr))
  pure (seen.1.insert variant.name, seen.2.insert variant.value)

/-- Checks that an enumeration has variants, with distinct names and distinct values that its width
holds. -/
def validateEnum (decl : EnumDecl) : Except SchemaError Unit := do
  if decl.variants.isEmpty then
    throw (.invalidEnum decl.name .noVariants)
  let _ ← decl.variants.foldlM (checkVariant decl) (∅, ∅)
  pure ()

end Wireform.Schema
