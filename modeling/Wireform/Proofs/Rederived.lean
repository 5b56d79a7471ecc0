import Wireform.Derive.Expansion.Decode
import Wireform.Derive.Expansion.Encode
import Wireform.Proofs.Matching
import Wireform.Proofs.Planned
import Wireform.Proofs.Sizes
import Wireform.Proofs.Spelled
import Wireform.Samples.Declared

/-!
# Deriving an emitted structure

There are two ways to the codec of a declared structure.  It can be lowered from its plan and
emitted, so that the codec is what the operations do, or the derivations can be applied to the
structure whose fields have the types that are emitted.  Both are one codec
(`Catalogue.Analyzed.matches_rederive`).

The derivations see no plan, only the types of the fields.  What they find out is in the plan: the
type of a field stands for the shape of its kind (`Emit.typeShape_kindExpr`, by induction on the
kind), and it is spelled as optional where the field has a slot, so that the fields are classified
with the slots of their plans (`Emit.shapesFrom_emitted`).  Hence the derived structure has the
layout of the emitted one (`Emit.matches_emittedDef`), and that is all that a codec depends on.

The exchange is made in catalogues, since a structure may hold itself and others: those that are
chosen are derived, and the others stay as they are (`Catalogue.rederive`).
-/
namespace Wireform

open Derive (Field Fields FieldShape Item Segment TypeArg TypeExpr checkArguments checkSegments
  checkType expandDecode expandEncode fieldShapes isNestedOption optionInner? shapesFrom)
open Schema (FieldPlan Kind KnownTypes Primitive StructCode StructDecl TypeDecl TypeSchema analyze)

namespace Emit

/-! ## 1. What the types of emitted fields stand for -/

/-- The type that stands behind a path, with the arguments of its names: one that the language
brings along, or a declared one. -/
def pathShape (scope : String) : (names : List String) → (arguments : List Shape) → Shape
  | ["Option"], [inner] => .option inner
  | ["Vec"], [element] => .sequence .list element
  | ["Box"], [.sequence .slice element] => .sequence .slice element
  | ["Box"], [inner] => .boxed inner
  | ["std", "collections", "HashMap"], [key, value] => .mapping .hashed key value
  | names, _ =>
    match Primitive.all.find? fun p => primitivePath p == names with
    | some p => .leaf (.primitive p)
    | none => .named (scope ++ "::".intercalate names)

mutual

/-- What a type expression stands for in emitted code; the names of declared types are looked up
behind `scope`. -/
def typeShape (scope : String) : TypeExpr → Shape
  | .path _ segments => pathShape scope (segments.map Segment.name) (segmentShapes scope segments)
  | .slice element => .sequence .slice (typeShape scope element)
  | _ => .named scope

/-- What the arguments in the steps of a path stand for. -/
def segmentShapes (scope : String) : List Segment → List Shape
  | [] => []
  | .angle _ _ arguments _ :: rest => argumentShapes scope arguments ++ segmentShapes scope rest
  | .plain _ :: rest => segmentShapes scope rest
  | .call _ _ _ _ :: rest => segmentShapes scope rest

/-- What arguments between angle brackets stand for. -/
def argumentShapes (scope : String) : List TypeArg → List Shape
  | [] => []
  | .type type :: rest => typeShape scope type :: argumentShapes scope rest
  | _ :: rest => argumentShapes scope rest

end

section

variable (scope : String)

theorem argumentShapes_types (arguments : List TypeExpr) :
    argumentShapes scope (arguments.map .type) = arguments.map (typeShape scope) := by
  induction arguments with
  | nil => rfl
  | cons argument rest ih => exact congrArg (typeShape scope argument :: ·) ih

theorem segmentShapes_plain (names : List String) (rest : List Segment) :
    segmentShapes scope (names.map .plain ++ rest) = segmentShapes scope rest := by
  induction names with
  | nil => rfl
  | cons name names ih => exact ih

theorem typeShape_pathExpr (names : List String) :
    typeShape scope (pathExpr names) = pathShape scope names [] := by
  have hnames : (names.map Segment.plain).map Segment.name = names := by
    rw [List.map_map]
    exact List.map_id names
  have hshapes := segmentShapes_plain scope names []
  rw [List.append_nil] at hshapes
  rw [pathExpr, typeShape, hnames, hshapes]
  rfl

theorem typeShape_appliedExpr (front : List String) (name : String) (arguments : List TypeExpr) :
    typeShape scope (appliedExpr front name arguments) =
      pathShape scope (front ++ [name]) (arguments.map (typeShape scope)) := by
  have hnames : (front.map Segment.plain ++
      [Segment.angle name false (arguments.map TypeArg.type) false]).map Segment.name =
      front ++ [name] := by
    rw [List.map_append, List.map_map]
    exact congrArg (· ++ [name]) (List.map_id front)
  rw [appliedExpr, typeShape, hnames, segmentShapes_plain, segmentShapes, argumentShapes_types]
  exact congrArg (pathShape scope (front ++ [name])) (List.append_nil _)

/-- No leaf type and no type that the language brings along is called as a declared type may be. -/
theorem pathShape_of_isTypeName {name : String} (hname : Schema.IsTypeName name) :
    pathShape scope [name] [] = .named (scope ++ name) := by
  have hnone : (Primitive.all.find? fun p => primitivePath p == [name]) = none := by
    rw [List.find?_eq_none]
    intro p hp hpath
    rw [beq_iff_eq] at hpath
    cases p <;> cases hpath <;> first
      | exact absurd hname.notPrimitive (by decide)
      | exact hname.notReserved (by decide)
  unfold pathShape
  split
  · next heq => cases heq
  · next heq => cases heq
  · next heq => cases heq
  · next heq => cases heq
  · next heq => cases heq
  · rw [hnone]
    rfl

theorem typeShape_primitiveExpr (p : Primitive) :
    typeShape scope (primitiveExpr p) = .leaf (.primitive p) := by
  cases p <;> rfl

theorem typeShape_optionExpr (nullable : Bool) (type : TypeExpr) :
    typeShape scope (optionExpr nullable type) = Kind.shape.wrap nullable (typeShape scope type) := by
  cases nullable with
  | false => rfl
  | true => exact typeShape_appliedExpr scope [] "Option" [type]

/-- **The type of an emitted field stands for the shape of its kind.** -/
theorem typeShape_kindExpr {kind : Kind} (hnames : ∀ name ∈ kind.names, Schema.IsTypeName name) :
    typeShape scope (kindExpr kind) = kind.shape scope := by
  have hname : ∀ name, Schema.IsTypeName name →
      typeShape scope (pathExpr [name]) = .named (scope ++ name) := fun name hname =>
    (typeShape_pathExpr scope [name]).trans (pathShape_of_isTypeName scope hname)
  induction kind with
  | primitive p => exact typeShape_primitiveExpr scope p
  | enum name repr => exact hname name (hnames name List.mem_cons_self)
  | nested name recursive =>
    have hplain := hname name (hnames name List.mem_cons_self)
    cases recursive with
    | false => exact hplain
    | true =>
      refine (typeShape_appliedExpr scope [] "Box" [pathExpr [name]]).trans ?_
      rw [List.map_singleton, hplain]
      rfl
  | list element nullable ih =>
    refine (typeShape_appliedExpr scope [] "Vec" [optionExpr nullable (kindExpr element)]).trans ?_
    rw [List.map_singleton, typeShape_optionExpr, ih hnames]
    rfl
  | array element nullable ih =>
    refine (typeShape_appliedExpr scope [] "Box"
      [.slice (optionExpr nullable (kindExpr element))]).trans ?_
    rw [List.map_singleton, typeShape, typeShape_optionExpr, ih hnames]
    rfl
  | map key value nullable ihkey ihvalue =>
    have hkey := ihkey fun name hmem => hnames name (List.mem_append_left _ hmem)
    have hvalue := ihvalue fun name hmem => hnames name (List.mem_append_right _ hmem)
    refine (typeShape_appliedExpr scope ["std", "collections"] "HashMap"
      [kindExpr key, optionExpr nullable (kindExpr value)]).trans ?_
    rw [List.map_cons, List.map_singleton, typeShape_optionExpr, hkey, hvalue]
    rfl

end

/-! ## 2. What a derivation makes of emitted fields -/

/-- A field of an emitted structure, as its text spells it. -/
def emittedField (plan : FieldPlan) : Field :=
  ⟨some (identOf plan.name), fieldExpr plan.kind plan.slot.isSome, []⟩

/-- An emitted field as it is classified: with the slot of its plan. -/
def emittedShape (plan : FieldPlan) : FieldShape :=
  ⟨.named (identOf plan.name), fieldExpr plan.kind plan.slot.isSome, false, plan.slot⟩

/-- The type of a kind is a path that does not end in an optional type. -/
theorem optionInner?_kindExpr (kind : Kind) : optionInner? (kindExpr kind) = none := by
  cases kind with
  | primitive p => cases p <;> rfl
  | nested name recursive => cases recursive <;> rfl
  | _ => rfl

/-- A type is a path that has an encoding. -/
structure Encodes (type : TypeExpr) : Prop where
  path : ∃ segments, type = .path false segments
  checked : checkType type = .ok ()

theorem checkSegments_front (front : List String) (rest : List Segment) :
    checkSegments (front.map .plain ++ rest) = checkSegments rest := by
  induction front with
  | nil => rfl
  | cons name front ih => exact ih

theorem checkArguments_types (boxed : Bool) {arguments : List TypeExpr}
    (h : ∀ type ∈ arguments, Encodes type) :
    checkArguments boxed (arguments.map .type) = .ok () := by
  induction arguments with
  | nil => rfl
  | cons type rest ih =>
    rw [List.forall_mem_cons] at h
    obtain ⟨⟨⟨segments, rfl⟩, hchecked⟩, hrest⟩ := h
    rw [List.map_cons, checkArguments, hchecked, ih hrest]
    · rfl
    · exact fun _ heq => nomatch heq

/-- A path with arguments that have an encoding has one, unless it is optional twice. -/
theorem encodes_appliedExpr {front : List String} {name : String} {arguments : List TypeExpr}
    (hoption : isNestedOption (appliedExpr front name arguments) = false)
    (h : checkArguments (name == "Box") (arguments.map .type) = .ok ()) :
    Encodes (appliedExpr front name arguments) := by
  refine ⟨⟨_, rfl⟩, ?_⟩
  rw [appliedExpr] at hoption ⊢
  rw [checkType, hoption, if_neg Bool.false_ne_true, checkSegments_front, checkSegments, h]
  rfl

theorem encodes_optionExpr {kind : Kind} (h : Encodes (kindExpr kind)) (nullable : Bool) :
    Encodes (optionExpr nullable (kindExpr kind)) := by
  cases nullable with
  | false => exact h
  | true =>
    refine encodes_appliedExpr ?_ (checkArguments_types _ (List.forall_mem_singleton.mpr h))
    show (optionInner? (kindExpr kind)).isSome = false
    rw [optionInner?_kindExpr]
    rfl

theorem encodes_kindExpr (kind : Kind) : Encodes (kindExpr kind) := by
  induction kind with
  | primitive p => cases p <;> exact ⟨⟨_, rfl⟩, rfl⟩
  | enum name repr => exact ⟨⟨_, rfl⟩, rfl⟩
  | nested name recursive => cases recursive <;> exact ⟨⟨_, rfl⟩, rfl⟩
  | list element nullable ih =>
    exact encodes_appliedExpr rfl
      (checkArguments_types _ (List.forall_mem_singleton.mpr (encodes_optionExpr ih nullable)))
  | array element nullable ih =>
    have hslice : checkArguments true [.type (.slice (optionExpr nullable (kindExpr element)))] =
        .ok () := by
      rw [checkArguments, if_pos rfl, (encodes_optionExpr ih nullable).checked]
      rfl
    exact encodes_appliedExpr rfl hslice
  | map key value nullable ihkey ihvalue =>
    exact encodes_appliedExpr rfl (checkArguments_types _ (List.forall_mem_cons.mpr
      ⟨ihkey, List.forall_mem_singleton.mpr (encodes_optionExpr ihvalue nullable)⟩))

/-- A field that is not skipped has the next slot if it is optional, and none otherwise. -/
theorem shapesFrom_cons {container : String} {position slot : Nat} {field : Field} {rest : List Field}
    (hskipped : Derive.isSkipped field.attributes = .ok false)
    (hchecked : checkType field.type = .ok ()) {shapes : List FieldShape} :
    (optionInner? field.type = none → shapesFrom container (position + 1) slot rest = .ok shapes →
      shapesFrom container position slot (field :: rest) =
        .ok (⟨field.member position, field.type, false, none⟩ :: shapes)) ∧
    ((optionInner? field.type).isSome = true → slot < Derive.maxSlot →
      shapesFrom container (position + 1) (slot + 1) rest = .ok shapes →
        shapesFrom container position slot (field :: rest) =
          .ok (⟨field.member position, field.type, false, some (slot + 1)⟩ :: shapes)) := by
  refine ⟨fun hinner hrest => ?_, fun hinner hroom hrest => ?_⟩
  · rw [shapesFrom, hskipped, hchecked, hinner, hrest]
    rfl
  · rw [shapesFrom, hskipped, hchecked, hinner, hrest, if_neg (Nat.ne_of_lt hroom)]
    rfl

/-- **The fields of an emitted structure are classified with the slots of their plans.** -/
theorem shapesFrom_emitted (container : String) {plans : List FieldPlan} {position slot : Nat}
    (hnumbered : Numbered slot (plans.map FieldPlan.presence))
    (hroom : slot + plans.countP FieldPlan.isNullable ≤ Derive.maxSlot) :
    shapesFrom container position slot (plans.map emittedField) = .ok (plans.map emittedShape) := by
  induction plans generalizing position slot with
  | nil => rfl
  | cons plan plans ih =>
    obtain ⟨name, kind, own⟩ := plan
    have hchecked := (encodes_optionExpr (encodes_kindExpr kind) own.isSome).checked
    have hcons := @shapesFrom_cons container position slot (emittedField ⟨name, kind, own⟩)
      (plans.map emittedField) rfl hchecked (plans.map emittedShape)
    cases own with
    | none =>
      exact hcons.1 (optionInner?_kindExpr kind) (ih hnumbered hroom)
    | some own =>
      obtain ⟨hown, hnumbered⟩ := hnumbered
      rw [List.countP_cons_of_pos rfl] at hroom
      subst hown
      exact hcons.2 rfl (by omega) (ih hnumbered (by omega))

/-! ## 3. The derived structure -/

/-- A field of an emitted structure, as the derived codecs take it. -/
def emittedDef (scope : String) (plan : FieldPlan) : FieldDef :=
  ⟨identOf plan.name,
    if plan.slot.isSome then .nullable (plan.kind.shape scope) else .plain (plan.kind.shape scope)⟩

section

variable {scope : String}

theorem define_emittedShape {plan : FieldPlan}
    (hnames : ∀ name ∈ plan.kind.names, Schema.IsTypeName name) :
    (emittedShape plan).define (typeShape scope) = emittedDef scope plan := by
  obtain ⟨name, kind, slot⟩ := plan
  have hshape := typeShape_kindExpr scope hnames
  cases slot with
  | none =>
    have hinner := optionInner?_kindExpr kind
    simp [FieldShape.define, emittedShape, emittedDef, fieldExpr, optionExpr, hinner, hshape,
      Derive.MemberRef.schemaName]
  | some slot =>
    have hinner : optionInner? (fieldExpr kind true) = some (kindExpr kind) := rfl
    simp [FieldShape.define, emittedShape, emittedDef, hinner, hshape,
      Derive.MemberRef.schemaName]

theorem numberFields_emittedDef {plans : List FieldPlan} {slot : Nat}
    (hnumbered : Numbered slot (plans.map FieldPlan.presence)) :
    numberFields slot (plans.map (emittedDef scope)) =
      plans.map fun plan => (emittedDef scope plan, plan.presence) := by
  induction plans generalizing slot with
  | nil => rfl
  | cons plan plans ih =>
    obtain ⟨name, kind, own⟩ := plan
    cases own with
    | none => exact congrArg (_ :: ·) (ih hnumbered)
    | some own =>
      obtain ⟨rfl, hnumbered⟩ := hnumbered
      exact congrArg (_ :: ·) (ih hnumbered)

theorem hasNullable_emittedDef (plans : List FieldPlan) :
    Definition.hasNullable (plans.map (emittedDef scope)) = plans.any FieldPlan.isNullable := by
  unfold Definition.hasNullable
  rw [List.any_map]
  refine congrArg plans.any (funext fun plan => ?_)
  obtain ⟨name, kind, slot⟩ := plan
  cases slot <;> rfl

/-- There is no bitset where no field is nullable. -/
theorem bitsetBytes_eq_zero_iff (schema : TypeSchema) :
    schema.bitsetBytes = 0 ↔ schema.fields.any FieldPlan.isNullable = false := by
  unfold TypeSchema.bitsetBytes TypeSchema.nullableCount TypeSchema.nullableFields
  rw [Definition.bitsetSize_eq_zero, List.length_eq_zero_iff, List.filter_eq_nil_iff,
    List.any_eq_false]

/-- **A structure and the one that is derived from its emitted text are of one layout.** -/
theorem matches_emittedDef {schema : TypeSchema} (hplan : schema.IsPlan) (scope : String) :
    (Definition.lowered scope (.ofSchema schema)).Matches
      (.record (schema.fields.map (emittedDef scope))) where
  layout initial := by
    refine congrArg some ?_
    rw [StructCodec.fields_ofSchema, numberFields_emittedDef hplan.numbered, List.map_map,
      List.map_map]
    refine List.map_congr_left fun plan _ => ?_
    obtain ⟨name, kind, slot⟩ := plan
    cases slot <;> rfl
  variants e := ⟨fun heq => (nomatch heq), fun heq => (nomatch heq)⟩
  fixedSize := by
    funext named
    show (if (StructCode.ofSchema schema).bitsetBytes = 0 then _ else none) =
      (if Definition.hasNullable (schema.fields.map (emittedDef scope)) then none else _)
    rw [StructCodec.bitsetBytes_ofSchema, hasNullable_emittedDef]
    have hbytes := bitsetBytes_eq_zero_iff schema
    cases hany : schema.fields.any FieldPlan.isNullable with
    | true =>
      rw [hany] at hbytes
      rw [if_neg fun hzero => Bool.noConfusion (hbytes.mp hzero), if_pos rfl]
    | false =>
      rw [if_pos (hbytes.mpr hany), if_neg Bool.false_ne_true, StructCodec.fields_ofSchema,
        List.map_map, List.filterMap_map, ← List.filterMap_eq_map]
      refine congrArg Codec.sumFixedSizes (List.filterMap_congr fun plan hmem => ?_)
      have hnullable := List.any_eq_false.mp hany plan hmem
      obtain ⟨name, kind, slot⟩ := plan
      cases slot with
      | none => rfl
      | some slot => exact absurd rfl hnullable
  initial := by
    funext named
    refine congrArg Value.record ?_
    rw [StructCodec.fields_ofSchema, List.map_map, List.map_map]
    refine List.map_congr_left fun plan _ => ?_
    obtain ⟨name, kind, slot⟩ := plan
    cases slot <;> rfl

end

/-- What the derivations make of an emitted structure. -/
theorem derived_emitted {fields : List FieldPlan}
    (hnames : ∀ field ∈ fields, ∀ name ∈ field.kind.names, Schema.IsTypeName name) (scope : String) :
    Derive.derived (typeShape scope) (fields.map emittedShape) =
      .record (fields.map (emittedDef scope)) := by
  unfold Derive.derived
  rw [List.map_map]
  exact congrArg Definition.record
    (List.map_congr_left fun field hfield => define_emittedShape (hnames field hfield))

/-- The fields of an emitted structure, as its text spells them. -/
def emittedFields (code : StructCode) : Fields :=
  .named (code.fields.map fun (name, kind, slot) => emittedField ⟨name, kind, slot⟩)

theorem toList_emittedFields (schema : TypeSchema) :
    (emittedFields (.ofSchema schema)).toList = schema.fields.map emittedField := by
  unfold emittedFields
  rw [StructCodec.fields_ofSchema, List.map_map]
  rfl

/-- **The derivations take every emitted structure**, and give its fields the slots of their plans. -/
theorem fieldShapes_emitted {decl : StructDecl} {known : KnownTypes} {tag : Nat} {schema : TypeSchema}
    (h : analyze decl known tag = .ok schema) (container : String) :
    fieldShapes container (emittedFields (.ofSchema schema)) = .ok (schema.fields.map emittedShape) := by
  have hcount := Schema.nullableCount_le_of_analyze h
  unfold TypeSchema.nullableCount TypeSchema.nullableFields at hcount
  rw [← List.countP_eq_length_filter] at hcount
  unfold fieldShapes
  rw [toList_emittedFields]
  exact shapesFrom_emitted container (Schema.isPlan_of_analyze h).numbered
    ((Nat.zero_add _).trans_le hcount)

/-- An item with the fields of an emitted structure has its codecs derived, from these shapes. -/
theorem expand_emitted {decl : StructDecl} {known : KnownTypes} {tag : Nat} {schema : TypeSchema}
    (h : analyze decl known tag = .ok schema) {item : Item}
    (hitem : item.kind = .struct (emittedFields (.ofSchema schema))) :
    expandEncode item = .ok (item.implementation Derive.encoderTrait
      (Derive.encodeStruct (schema.fields.map emittedShape))) ∧
    expandDecode item = .ok (item.implementation Derive.decoderTrait
      (Derive.decodeStruct (emittedFields (.ofSchema schema))
        (schema.fields.map emittedShape))) := by
  have hshapes := fieldShapes_emitted h item.name
  refine ⟨?_, ?_⟩
  · unfold expandEncode
    rw [hitem]
    dsimp only
    rw [hshapes]
    rfl
  · unfold expandDecode
    rw [hitem]
    dsimp only
    rw [hshapes]
    rfl

end Emit

/-! ## 4. Catalogues with derived structures -/

/-- Derives a lowered structure from its emitted text instead; if that text is refused, nothing is
changed. -/
def Definition.rederive : Definition → Definition
  | .lowered scope code =>
    match fieldShapes code.name (Emit.emittedFields code) with
    | .ok shapes => Derive.derived (Emit.typeShape scope) shapes
    | .error _ => .lowered scope code
  | definition => definition

/-- A lowered structure comes from a declaration that has passed the analysis. -/
def Definition.IsAnalyzed : Definition → Prop
  | .lowered _ code => ∃ decls known decl tag schema, KnownTypes.ofDecls decls = .ok known ∧
      analyze decl known tag = .ok schema ∧ code = .ofSchema schema
  | _ => True

namespace Catalogue

/-- Derives the chosen structures from their emitted texts. -/
def rederive (catalogue : Catalogue) (chosen : String → Bool) : Catalogue :=
  ⟨catalogue.entries.map fun entry =>
    if chosen entry.1 then (entry.1, entry.2.rederive) else entry⟩

/-- Every lowered structure of the catalogue comes from a declaration that has passed the
analysis. -/
def Analyzed (catalogue : Catalogue) : Prop := ∀ entry ∈ catalogue.entries, entry.2.IsAnalyzed

end Catalogue

namespace Definition

theorem rederive_lowered {decls : List TypeDecl} {known : KnownTypes}
    (hknown : KnownTypes.ofDecls decls = .ok known) {decl : StructDecl} {tag : Nat}
    {schema : TypeSchema} (h : analyze decl known tag = .ok schema) (scope : String) :
    (Definition.lowered scope (.ofSchema schema)).rederive =
      .record (schema.fields.map (Emit.emittedDef scope)) := by
  rw [rederive, Emit.fieldShapes_emitted h]
  exact Emit.derived_emitted (fun field hfield => Schema.isTypeName_of_analyze hknown h hfield) scope

theorem IsAnalyzed.matches_rederive {definition : Definition} (h : definition.IsAnalyzed) :
    definition.Matches definition.rederive := by
  cases definition with
  | record fields => exact .refl _
  | enumeration e => exact .refl _
  | lowered scope code =>
    obtain ⟨decls, known, decl, tag, schema, hknown, hschema, rfl⟩ := h
    rw [rederive_lowered hknown hschema]
    exact Emit.matches_emittedDef (Schema.isPlan_of_analyze hschema) scope

theorem IsAnalyzed.isPlanned {definition : Definition} (h : definition.IsAnalyzed) :
    definition.IsPlanned := by
  cases definition with
  | record fields => exact trivial
  | enumeration e => exact trivial
  | lowered scope code =>
    obtain ⟨decls, known, decl, tag, schema, -, hschema, rfl⟩ := h
    exact Schema.isPlanned_of_analyze hschema scope

/-- What is derived is not lowered any more. -/
theorem IsAnalyzed.isPlanned_rederive {definition : Definition} (h : definition.IsAnalyzed) :
    definition.rederive.IsPlanned := by
  cases definition with
  | record fields => exact trivial
  | enumeration e => exact trivial
  | lowered scope code =>
    obtain ⟨decls, known, decl, tag, schema, hknown, hschema, rfl⟩ := h
    rw [rederive_lowered hknown hschema]
    exact trivial

end Definition

namespace Catalogue.Analyzed

variable {catalogue : Catalogue}

theorem planned (h : catalogue.Analyzed) : catalogue.Planned :=
  fun _ _ hname => (h _ (mem_of_get? hname)).isPlanned

theorem planned_rederive (h : catalogue.Analyzed) (chosen : String → Bool) :
    (catalogue.rederive chosen).Planned := by
  intro name definition hname
  obtain ⟨entry, hentry, heq⟩ := List.mem_map.mp (mem_of_get? hname)
  split at heq
  · cases heq
    exact (h entry hentry).isPlanned_rederive
  · cases heq
    exact (h _ hentry).isPlanned

theorem matches_rederive (h : catalogue.Analyzed) (chosen : String → Bool) :
    catalogue.Matches (catalogue.rederive chosen) := by
  refine ⟨List.forall₂_map_right_iff.mpr (List.forall₂_same.mpr fun entry hentry => ?_)⟩
  split
  · exact ⟨rfl, (h entry hentry).matches_rederive⟩
  · exact ⟨rfl, .refl _⟩

end Catalogue.Analyzed

/-- A chosen name stands for what is derived. -/
theorem Catalogue.get?_rederive {catalogue : Catalogue} {chosen : String → Bool} {name : String}
    (hchosen : chosen name = true) {definition : Definition}
    (hname : catalogue.get? name = some definition) :
    (catalogue.rederive chosen).get? name = some definition.rederive := by
  obtain ⟨entries⟩ := catalogue
  unfold Catalogue.get? rederive at *
  dsimp only at *
  induction entries with
  | nil => cases hname
  | cons entry rest ih =>
    obtain ⟨key, other⟩ := entry
    rw [List.lookup_cons] at hname
    have hkey : (if chosen key then (key, other.rederive) else (key, other)).1 = key := by
      split <;> rfl
    rw [List.map_cons, List.lookup_cons, hkey]
    cases heq : name == key with
    | true =>
      rw [heq] at hname
      cases hname
      rw [← beq_iff_eq.mp heq, hchosen]
      rfl
    | false =>
      rw [heq] at hname
      exact ih hname

/-! ## 5. Fixed sizes -/

/-- A field whose kind has a fixed size is of a shape of that size. -/
theorem Schema.Kind.KnownIn.fixedSize_shape {known : KnownTypes} {kind : Kind}
    (hknown : kind.KnownIn known) {scope : String} {sizeOf : String → Option Nat}
    (hsizes : ∀ name repr, known.get? name = some (.enum repr) →
      sizeOf (scope ++ name) = some repr.size)
    {size : Nat} (h : kind.fixedSize = some size) :
    (kind.shape scope).fixedSize sizeOf = some size := by
  cases kind with
  | primitive p => exact h
  | enum name repr => exact (hsizes name repr hknown).trans h
  | _ => cases h

/-- Sizes that are added up from the left are added up from the right. -/
theorem Schema.TypeSchema.sumFixedSizes_of_sumSizes {fields : List FieldPlan}
    {sizeOf : FieldPlan → Option Nat}
    (hsizes : ∀ field ∈ fields, ∀ size, field.kind.fixedSize = some size → sizeOf field = some size)
    {start total : Nat}
    (h : fields.foldlM (fun total field => do pure (total + (← field.kind.fixedSize))) start =
      some total) :
    ∃ sum, Codec.sumFixedSizes (fields.map sizeOf) = some sum ∧ total = start + sum := by
  induction fields generalizing start with
  | nil =>
    cases h
    exact ⟨0, rfl, rfl⟩
  | cons field fields ih =>
    rw [List.foldlM_cons] at h
    obtain ⟨next, hnext, hrest⟩ := Option.bind_eq_some_iff.mp h
    obtain ⟨size, hsize, hpure⟩ := Option.bind_eq_some_iff.mp hnext
    cases hpure
    rw [List.forall_mem_cons] at hsizes
    obtain ⟨sum, hsum, rfl⟩ := ih hsizes.2 hrest
    refine ⟨size + sum, ?_, Nat.add_assoc start size sum⟩
    rw [List.map_cons, hsizes.1 size hsize, Codec.sumFixedSizes, hsum]
    rfl

/-- The fixed size in the plan of a structure is that of the lowered structure, if the enumerations
have the widths that are known of them. -/
theorem Definition.fixedSize_of_schema {known : KnownTypes} {schema : TypeSchema}
    (hknown : ∀ field ∈ schema.fields, field.kind.KnownIn known) {scope : String}
    {sizeOf : String → Option Nat}
    (hsizes : ∀ name repr, known.get? name = some (.enum repr) →
      sizeOf (scope ++ name) = some repr.size)
    {size : Nat} (h : schema.fixedSize = some size) :
    (Definition.lowered scope (.ofSchema schema)).fixedSize sizeOf = some size := by
  unfold TypeSchema.fixedSize at h
  split at h
  · next hcount =>
    obtain ⟨sum, hsum, rfl⟩ := TypeSchema.sumFixedSizes_of_sumSizes
      (fun field hfield _ hsize => (hknown field hfield).fixedSize_shape hsizes hsize) h
    have hbytes : (StructCode.ofSchema schema).bitsetBytes = 0 := by
      rw [StructCodec.bitsetBytes_ofSchema]
      exact Definition.bitsetSize_eq_zero.mpr hcount
    show (if (StructCode.ofSchema schema).bitsetBytes = 0 then _ else none) = _
    rw [if_pos hbytes, StructCodec.fields_ofSchema, List.map_map, Nat.zero_add, ← hsum]
    rfl
  · cases h

/-- Behind the scope the enumerations that are known have their widths. -/
def Catalogue.Declares (catalogue : Catalogue) (scope : String) (known : KnownTypes) : Prop :=
  ∀ name repr, known.get? name = some (.enum repr) →
    ∃ e, catalogue.get? (scope ++ name) = some (.enumeration e) ∧ e.repr = repr

/-- **A structure of fixed size has values of no other size.** -/
theorem Catalogue.Planned.size_of_schema [DecimalForm] {catalogue : Catalogue}
    (hplanned : catalogue.Planned) (sharing : Sharing Value) {known : KnownTypes}
    {scope name : String} {schema : TypeSchema}
    (hknown : ∀ field ∈ schema.fields, field.kind.KnownIn known)
    (hname : catalogue.get? name = some (.lowered scope (.ofSchema schema)))
    (hdeclares : catalogue.Declares scope known) {size : Nat} (hsize : schema.fixedSize = some size)
    {value : Value} (hvalue : catalogue.HasShape (.named name) value) :
    (catalogue.codecOf sharing (.named name)).size value = size := by
  -- a structure of fixed size holds enumerations, and these hold nothing: two levels are enough
  have hsizes : ∀ other repr, known.get? other = some (.enum repr) →
      catalogue.fixedSizeAt 1 (scope ++ other) = some repr.size := by
    intro other repr hother
    obtain ⟨e, he, rfl⟩ := hdeclares other repr hother
    rw [fixedSizeAt, he]
    rfl
  have hfixed : (Shape.named name).fixedSize (catalogue.fixedSizeAt 2) = some size := by
    rw [Shape.fixedSize, fixedSizeAt, hname]
    exact Definition.fixedSize_of_schema hknown hsizes hsize
  rw [(hplanned.writes_codecOf sharing hvalue).size]
  exact hplanned.length_wire_of_fixedSize hvalue 2 hfixed

/-! ## 6. The plans of the sample schema -/

namespace Samples

/-- What is known of the sample schema. -/
def declaredKnown : KnownTypes :=
  ⟨[("Person", .struct [.primitive .i32, .optional (.primitive .string), .named "Vec3",
      .optional (.list (.optional (.primitive .string))), .map (.primitive .string) (.primitive .i32),
      .named "Color", .primitive .u8, .array (.optional (.list (.primitive .u16)))]),
    ("Vec3", .struct [.primitive .f32, .primitive .f32, .primitive .f32]),
    ("Node", .struct [.primitive .i32, .optional (.named "Node")]), ("Color", .enum .u8)]⟩

/-- The plan of a person. -/
def personSchema : TypeSchema :=
  ⟨"Person", 1,
    [⟨"id", .primitive .i32, none⟩, ⟨"name", .primitive .string, some 1⟩,
      ⟨"position", .nested "Vec3" false, none⟩, ⟨"tags", .list (.primitive .string) true, some 2⟩,
      ⟨"scores", .map (.primitive .string) (.primitive .i32) false, none⟩,
      ⟨"color", .enum "Color" .u8, none⟩, ⟨"type", .primitive .u8, none⟩,
      ⟨"readings", .array (.list (.primitive .u16) false) true, none⟩]⟩

/-- The plan of a point. -/
def vec3Schema : TypeSchema :=
  ⟨"Vec3", 2,
    [⟨"x", .primitive .f32, none⟩, ⟨"y", .primitive .f32, none⟩, ⟨"z", .primitive .f32, none⟩]⟩

/-- The plan of a node. -/
def nodeSchema : TypeSchema :=
  ⟨"Node", 10, [⟨"value", .primitive .i32, none⟩, ⟨"next", .nested "Node" true, some 1⟩]⟩

theorem ofDecls_declarations : KnownTypes.ofDecls declarations = .ok declaredKnown := rfl

theorem analyze_personDecl : analyze personDecl declaredKnown 1 = .ok personSchema := by
  refine Schema.analyze_eq_ok_iff.mpr ⟨?_, by decide, by decide, by decide⟩
  exact .always rfl rfl rfl <| .nullable rfl rfl rfl <| .always rfl rfl rfl <|
    .nullable rfl rfl rfl <| .always rfl rfl rfl <| .always rfl rfl rfl <| .always rfl rfl rfl <|
      .always rfl rfl rfl .nil

theorem analyze_vec3Decl : analyze vec3Decl declaredKnown 2 = .ok vec3Schema := by
  refine Schema.analyze_eq_ok_iff.mpr ⟨?_, by decide, by decide, by decide⟩
  exact .always rfl rfl rfl <| .always rfl rfl rfl <| .always rfl rfl rfl .nil

theorem analyze_nodeDecl : analyze nodeDecl declaredKnown 10 = .ok nodeSchema := by
  refine Schema.analyze_eq_ok_iff.mpr ⟨?_, by decide, by decide, by decide⟩
  exact .always rfl rfl rfl <| .nullable rfl rfl rfl .nil

theorem lowered_of_analyze {decl : StructDecl} {tag : Nat} {schema : TypeSchema}
    (h : analyze decl declaredKnown tag = .ok schema) :
    lowered tag decl = .ok (.ofSchema schema) := by
  unfold lowered
  rw [ofDecls_declarations]
  simp only [bind, Except.bind, h]
  rfl

/-- The sample catalogue, with the plans of its structures. -/
theorem declared_eq : declared = ⟨
    [("gen.Person", .lowered scope (.ofSchema personSchema)),
      ("gen.Vec3", .lowered scope (.ofSchema vec3Schema)),
      ("gen.Node", .lowered scope (.ofSchema nodeSchema)),
      ("gen.Color", .enumeration (.ofDecl colorDecl))]⟩ := by
  unfold declared declaredEntries loweredEntries taggedDecls
  simp only [List.filterMap_cons, List.filterMap_nil, lowered_of_analyze analyze_personDecl,
    lowered_of_analyze analyze_vec3Decl, lowered_of_analyze analyze_nodeDecl]
  rfl

theorem analyzed_declared : declared.Analyzed := by
  rw [declared_eq]
  exact List.forall_mem_cons.mpr
    ⟨⟨_, _, _, _, _, ofDecls_declarations, analyze_personDecl, rfl⟩, List.forall_mem_cons.mpr
      ⟨⟨_, _, _, _, _, ofDecls_declarations, analyze_vec3Decl, rfl⟩, List.forall_mem_cons.mpr
        ⟨⟨_, _, _, _, _, ofDecls_declarations, analyze_nodeDecl, rfl⟩,
          List.forall_mem_singleton.mpr trivial⟩⟩⟩

theorem declares_declared : declared.Declares scope declaredKnown := by
  intro name repr hname
  have hentry := Schema.KnownTypes.mem_of_get?_eq_some hname
  simp only [declaredKnown, List.mem_cons, Prod.mk.injEq, reduceCtorEq, and_false,
    Schema.KnownType.enum.injEq, List.not_mem_nil, or_false, false_or] at hentry
  obtain ⟨rfl, rfl⟩ := hentry
  refine ⟨.ofDecl colorDecl, ?_, rfl⟩
  rw [declared_eq]
  rfl

/-- Where all structures of the sample schema are derived. -/
def rederived : Catalogue := declared.rederive fun _ => true

/-- The origin is a point. -/
theorem hasShape_origin :
    declared.HasShape (.named "gen.Vec3") (.record [.bits 0, .bits 0, .bits 0]) := by
  have hlayout : declared.layout? "gen.Vec3" =
      some (List.replicate 3 ⟨.always, .leaf (.primitive .f32), .bits 0⟩) := by
    rw [declared_eq]
    rfl
  refine .record hlayout rfl (by simp [FieldLayout.Takes]) ?_
  simp only [List.replicate, List.zip_cons_cons, List.zip_nil_right, List.forall_mem_cons,
    FieldLayout.content?, Option.some.injEq, forall_eq']
  have hzero : declared.HasShape (.leaf (.primitive .f32)) (.bits 0) :=
    .leaf (show 0 < Nat.pow 256 4 by decide)
  exact ⟨hzero, hzero, hzero, fun _ hmem => absurd hmem List.not_mem_nil⟩

end Samples

end Wireform
