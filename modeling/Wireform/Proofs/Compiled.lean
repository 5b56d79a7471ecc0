import Wireform.Proofs.DerivedCodecs
import Wireform.Proofs.EmittedCodecs
import Wireform.Proofs.Lowered
import Wireform.Proofs.Rederived

/-!
# Compiled structures

An analysed structure has a program twice over: its file is the text of one (`Emit.program`), and the
derivations, applied to the structure with the types in the file, expand to the text of the other
(`Emit.derivedProgram`).  A compiler makes a codec of either, and these are the codecs that catalogues
have, the lowered and the derived one (`Emit.compiles_program`, `Emit.compiles_derivedProgram`).  They
cannot be told apart (`Catalogue.Matches.alike`).

But not everything that is derived is compiled when it is emitted: a decimal number has a method of
its own that is called like that of the trait, and an emitted file calls it
(`Emit.generated_codec_is_derived_iff`).
-/
namespace Wireform

open Derive (FieldShape Item TypeExpr expandDecode expandEncode)
open Schema (FieldDecl FieldPlan Kind KnownTypes StructCode StructDecl TypeDecl TypeSchema analyze)
open Source (AgreeOn Types codecsOf)

/-! ## 1. Programs and definitions -/

/-- The program is compiled exactly under the condition, and then to the codec of the definition: with
any types for the names in it, both do the same with structures of these fields. -/
def Source.Program.Compiles [DecimalForm] (program : Source.Program) (meaning : TypeExpr → Shape)
    (fields : List Source.Field) (condition : Prop) (definition : Definition) : Prop :=
  ∀ sharing initial named,
    ((program.codec? (.of meaning sharing initial named)).isSome = true ↔ condition) ∧
    ∀ codec, program.codec? (.of meaning sharing initial named) = some codec →
      ∃ inner, definition.codec sharing initial named = inner.lift Value.recordCase ∧
        AgreeOn fields codec inner

namespace Emit

/-- The condition under which the file of a structure is compiled. -/
structure IsCompiled (plans : List FieldPlan) : Prop where
  /-- The members have different names. -/
  apart : (plans.map fun plan => identOf plan.name).Nodup
  /-- No member is a decimal number, optional or not. -/
  withoutDecimals : ∀ plan ∈ plans, plan.kind ≠ .primitive .decimal

/-- A field of an analysed structure, with the shape of its values. -/
def shapedField (scope : String) (plan : FieldPlan) : Source.Field :=
  ⟨programMember plan, plan.kind.shape scope⟩

/-- The structure that has the types of an emitted one, with its derived codec. -/
def derivedProgram (schema : TypeSchema) : Source.Program :=
  Derive.program (emittedFields (.ofSchema schema)) (schema.fields.map emittedShape)

/-- Both programs are of the same structure. -/
theorem members_derivedProgram (schema : TypeSchema) :
    (derivedProgram schema).members = (program schema).members := by
  unfold derivedProgram Derive.program program
  rw [List.map_map]
  rfl

/-! ## 2. What the analysis has seen to -/

/-- Slots that are numbered from the first one on are no more than there are nullable fields. -/
theorem slot_le_of_numbered {plans : List FieldPlan} {slot : Nat}
    (hnumbered : Numbered slot (plans.map FieldPlan.presence)) :
    ∀ plan ∈ plans, ∀ own, plan.slot = some own → own ≤ slot + plans.countP FieldPlan.isNullable := by
  induction plans generalizing slot with
  | nil => exact fun _ hplan => absurd hplan List.not_mem_nil
  | cons plan plans ih =>
    obtain ⟨name, kind, own⟩ := plan
    cases own with
    | none => exact List.forall_mem_cons.mpr ⟨fun own hown => (nomatch hown), ih hnumbered⟩
    | some own =>
      obtain ⟨rfl, hnumbered⟩ := hnumbered
      rw [List.countP_cons_of_pos rfl]
      refine List.forall_mem_cons.mpr ⟨fun own hown => ?_, fun plan hplan own hown => ?_⟩
      · cases hown
        omega
      · have hle := ih hnumbered plan hplan own hown
        omega

theorem slot_le_maxSlot {decl : StructDecl} {known : KnownTypes} {tag : Nat} {schema : TypeSchema}
    (h : analyze decl known tag = .ok schema) :
    ∀ plan ∈ schema.fields, ∀ slot, plan.slot = some slot → slot ≤ Derive.maxSlot := by
  intro plan hplan slot hslot
  have hcount := Schema.nullableCount_le_of_analyze h
  unfold TypeSchema.nullableCount TypeSchema.nullableFields at hcount
  rw [← List.countP_eq_length_filter] at hcount
  have hle := slot_le_of_numbered (Schema.isPlan_of_analyze h).numbered plan hplan slot hslot
  rw [Nat.zero_add] at hle
  exact hle.trans hcount

/-- No declared type is called as an implementation calls its own. -/
theorem isSelfType_kindExpr {kind : Kind} (hnames : ∀ name ∈ kind.names, Schema.IsTypeName name) :
    Source.isSelfType (kindExpr kind) = false := by
  have hname : ∀ name, Schema.IsTypeName name → Source.isSelfType (pathExpr [name]) = false :=
    fun name hname => beq_eq_false_iff_ne.mpr fun heq => hname.notReserved (heq ▸ by decide)
  cases kind with
  | primitive p => cases p <;> rfl
  | enum name repr => exact hname name (hnames name List.mem_cons_self)
  | nested name recursive =>
    cases recursive with
    | false => exact hname name (hnames name List.mem_cons_self)
    | true => rfl
  | list element nullable => rfl
  | array element nullable => rfl
  | map key value nullable => rfl

/-- Only a decimal number has a method of its own that writes. -/
theorem hasOwn_shape_iff (kind : Kind) (scope : String) :
    Source.Shape.hasOwn (kind.shape scope) "serialize" = false ↔ kind ≠ .primitive .decimal := by
  cases kind with
  | primitive p =>
    have hleaf : Source.Shape.hasOwn (.leaf (.primitive p)) "serialize" = false ↔ p ≠ .decimal := by
      cases p <;> decide
    exact hleaf.trans (not_congr (Kind.primitive.injEq p .decimal).symm.to_iff)
  | nested name recursive => cases recursive <;> exact ⟨fun _ heq => (nomatch heq), fun _ => rfl⟩
  | _ => exact ⟨fun _ heq => (nomatch heq), fun _ => rfl⟩

/-! ## 3. The emitted program -/

section

variable [DecimalForm] {plans : List FieldPlan}
  (hnames : ∀ plan ∈ plans, ∀ name ∈ plan.kind.names, Schema.IsTypeName name) (scope : String)
  (sharing : Sharing Value) (initial : String → Value) (named : String → Codec Value)

include hnames

/-- The types in an emitted file are what they are spelled as. -/
theorem areTyped_of_names : AreTyped (.of (typeShape scope) sharing initial named) plans where
  options plan _ := typeShape_optionExpr scope true (kindExpr plan.kind)
  others plan hplan := isSelfType_kindExpr (hnames plan hplan)

/-- The fields of an emitted structure have the shapes of their kinds. -/
theorem typedFields_eq :
    typedFields (.of (typeShape scope) sharing initial named) plans =
      plans.map (shapedField scope) :=
  List.map_congr_left fun plan hplan =>
    congrArg (Source.Field.mk (programMember plan)) (typeShape_kindExpr scope (hnames plan hplan))

end

section

variable [DecimalForm] (schema : TypeSchema) (scope : String) (sharing : Sharing Value)
  (initial : String → Value) (named : String → Codec Value)

/-- The codecs of the fields are those of the plan. -/
theorem codecsOf_shapedFields :
    codecsOf (.of (typeShape scope) sharing initial named) (schema.fields.map (shapedField scope)) =
      StructCodec.planCodecs scope initial (fun shape => shape.codec sharing named) schema := by
  unfold codecsOf
  rw [StructCodec.planCodecs_eq, List.map_map]
  refine List.map_congr_left fun plan _ => ?_
  obtain ⟨name, kind, slot⟩ := plan
  cases slot <;> rfl

/-- **The record that an emitted codec is, is the lowered codec.** -/
theorem agreeOn_lowered (hplan : schema.IsPlan) {codec : Codec (List Value)}
    {fields : List FieldCodec}
    (hfields : fields =
      StructCodec.planCodecs scope initial (fun shape => shape.codec sharing named) schema)
    (h : AgreeOn (schema.fields.map (shapedField scope)) codec
      { Codec.record fields with
        read := fun buffer cursor =>
          ((Codec.record fields).overwrite (fields.map FieldCodec.initial) buffer cursor).toResult }) :
    AgreeOn (schema.fields.map (shapedField scope)) codec
      (StructCodec.loweredCodec scope initial (fun shape => shape.codec sharing named) schema) := by
  subst hfields
  have hrecord := StructCodec.recordCodec_ofSchema scope initial
    (fun shape => shape.codec sharing named) schema hplan
  have hread := StructCodec.read_loweredCodec scope initial
    (fun shape => shape.codec sharing named) schema
  refine ⟨h.fixedSize.trans hrecord.fixedSize.symm, fun values htakes => ?_, fun values htakes => ?_,
    h.read.trans hread.symm, fun target hlength => ?_⟩
  · rw [h.size values htakes, hrecord.size]
  · rw [h.write values htakes, hrecord.write values]
    rw [← htakes.length_eq, StructCodec.planCodecs_eq, List.length_map, List.length_map]
  · rw [h.overwrite target hlength, hrecord.overwrite]

end

section

variable {decls : List TypeDecl} {known : KnownTypes} (hknown : KnownTypes.ofDecls decls = .ok known)
  {decl : StructDecl} {tag : Nat} {schema : TypeSchema} (hschema : analyze decl known tag = .ok schema)

include hknown hschema

/-- **A structure is compiled with the codec that is emitted for it** exactly if its members have
different names and none is a decimal number. -/
theorem compiles_program [DecimalForm] (scope : String) :
    (program schema).Compiles (typeShape scope) (schema.fields.map (shapedField scope))
      (IsCompiled schema.fields) (.lowered scope (.ofSchema schema)) := by
  intro sharing initial named
  have hnames : ∀ plan ∈ schema.fields, ∀ name ∈ plan.kind.names, Schema.IsTypeName name :=
    fun plan hplan => Schema.isTypeName_of_analyze hknown hschema hplan
  have htypes : AreTyped (.of (typeShape scope) sharing initial named) schema.fields :=
    areTyped_of_names hnames scope sharing initial named
  have hfields := typedFields_eq hnames scope sharing initial named
  have hcodecs := codecsOf_shapedFields schema scope sharing initial named
  have hslots := slot_le_maxSlot hschema
  have howns : (∀ plan ∈ schema.fields, Source.Shape.hasOwn
        ((Types.of (typeShape scope) sharing initial named).shapeOf (kindExpr plan.kind)) "serialize" =
          false) ↔ ∀ plan ∈ schema.fields, plan.kind ≠ .primitive .decimal := by
    refine forall₂_congr fun plan hplan => ?_
    rw [← hasOwn_shape_iff plan.kind scope, ← typeShape_kindExpr scope (hnames plan hplan)]
    rfl
  have hcondition : IsCompiled schema.fields ↔ (schema.fields.map fun plan => identOf plan.name).Nodup ∧
      ∀ plan ∈ schema.fields, plan.kind ≠ .primitive .decimal :=
    ⟨fun h => ⟨h.apart, h.withoutDecimals⟩, fun h => ⟨h.1, h.2⟩⟩
  have hsome := codec?_isSome_iff htypes hslots
  rw [howns, ← hcondition] at hsome
  refine ⟨hsome, fun codec hcodec => ⟨_, rfl, ?_⟩⟩
  obtain ⟨hnodup, hdecimals⟩ := hcondition.mp (hsome.mp (Option.isSome_iff_exists.mpr ⟨codec, hcodec⟩))
  obtain ⟨found, hfound, hagree⟩ := codec?_program htypes hslots (howns.mpr hdecimals) hnodup
  cases hcodec.symm.trans hfound
  rw [hfields] at hagree
  exact agreeOn_lowered schema scope sharing initial named (Schema.isPlan_of_analyze hschema) hcodecs hagree

end

/-! ## 4. The derived program -/

section

variable [DecimalForm] {plans : List FieldPlan}
  (hnames : ∀ plan ∈ plans, ∀ name ∈ plan.kind.names, Schema.IsTypeName name) (scope : String)
  (sharing : Sharing Value) (initial : String → Value) (named : String → Codec Value)

/-- The types that an emitted file spells as optional are optional. -/
theorem optionsAreSuch_emittedShape (plans : List FieldPlan) :
    Derive.OptionsAreSuch (.of (typeShape scope) sharing initial named)
      (plans.map emittedShape) := by
  intro shape hshape inner hinner
  obtain ⟨⟨name, kind, slot⟩, -, rfl⟩ := List.mem_map.mp hshape
  cases slot with
  | none => exact nomatch (optionInner?_kindExpr kind).symm.trans hinner
  | some slot =>
    cases hinner
    exact typeShape_optionExpr scope true (kindExpr kind)

include hnames

omit [DecimalForm] in
theorem isSelfType_emittedShape :
    ∀ shape ∈ plans.map emittedShape, Source.isSelfType shape.type = false := by
  refine List.forall_mem_map.mpr fun plan hplan => ?_
  obtain ⟨name, kind, slot⟩ := plan
  cases slot with
  | none => exact isSelfType_kindExpr (hnames _ hplan)
  | some slot => rfl

/-- The fields are typed from their expansions as from their plans. -/
theorem typedFields_emittedShape :
    Derive.typedFields (.of (typeShape scope) sharing initial named) (plans.map emittedShape) =
      plans.map (shapedField scope) := by
  unfold Derive.typedFields
  rw [List.map_map]
  refine List.map_congr_left fun plan hplan => ?_
  have hdefine : (emittedShape plan).define (typeShape scope) = emittedDef scope plan :=
    define_emittedShape (hnames plan hplan)
  obtain ⟨name, kind, slot⟩ := plan
  have hshape : ((emittedShape ⟨name, kind, slot⟩).define (typeShape scope)).type.inner =
      kind.shape scope := by
    rw [hdefine]
    cases slot <;> rfl
  exact congrArg (Source.Field.mk _) hshape

end

section

variable {decls : List TypeDecl} {known : KnownTypes} (hknown : KnownTypes.ofDecls decls = .ok known)
  {decl : StructDecl} {tag : Nat} {schema : TypeSchema} (hschema : analyze decl known tag = .ok schema)

include hknown hschema

/-- **A structure is compiled with the codec that is derived for it** exactly if its members have
different names. -/
theorem compiles_derivedProgram [DecimalForm] (scope : String) :
    (derivedProgram schema).Compiles (typeShape scope) (schema.fields.map (shapedField scope))
      (schema.fields.map fun plan => identOf plan.name).Nodup
      (.record (schema.fields.map (emittedDef scope))) := by
  intro sharing initial named
  have hnames : ∀ plan ∈ schema.fields, ∀ name ∈ plan.kind.names, Schema.IsTypeName name :=
    fun plan hplan => Schema.isTypeName_of_analyze hknown hschema hplan
  have hclassified := Derive.classified_of_shapesFrom (fieldShapes_emitted hschema decl.name)
  have hslots : ∀ shape ∈ schema.fields.map emittedShape, ∀ own, shape.slot = some own →
      own ≤ Derive.maxSlot := List.forall_mem_map.mpr (slot_le_maxSlot hschema)
  have hdefs : (schema.fields.map emittedShape).map (FieldShape.define (typeShape scope)) =
      schema.fields.map (emittedDef scope) := by
    rw [List.map_map]
    exact List.map_congr_left fun plan hplan => define_emittedShape (hnames plan hplan)
  have hidents : ((schema.fields.map emittedShape).map fun shape => shape.member.token).Nodup ↔
      (schema.fields.map fun plan => identOf plan.name).Nodup := by
    have htokens : (schema.fields.map emittedShape).map (fun shape => shape.member.token) =
        (schema.fields.map fun plan => identOf plan.name).map Derive.Token.word := by
      rw [List.map_map, List.map_map]
      rfl
    rw [htokens]
    exact List.nodup_map_iff fun a b heq => Derive.Token.word.inj heq
  have hfields := typedFields_emittedShape hnames scope sharing initial named
  have htypes := optionsAreSuch_emittedShape scope sharing initial named schema.fields
  have hcompiles (hnodup : (schema.fields.map fun plan => identOf plan.name).Nodup) :=
    Derive.codec?_eq_recordCodec sharing initial named (emittedFields (.ofSchema schema)) hclassified
      hslots (isSelfType_emittedShape hnames) htypes (hidents.mpr hnodup)
  rw [hfields, hdefs] at hcompiles
  have hnone (hnodup : ¬(schema.fields.map fun plan => identOf plan.name).Nodup) :=
    Derive.codec?_program_eq_none (emittedFields (.ofSchema schema))
      (.of (typeShape scope) sharing initial named) (mt hidents.mp hnodup)
  have hnodup {codec : Codec (List Value)} (hcodec : (derivedProgram schema).codec?
      (.of (typeShape scope) sharing initial named) = some codec) :
      (schema.fields.map fun plan => identOf plan.name).Nodup := by
    by_contra hnot
    exact nomatch (hnone hnot).symm.trans hcodec
  refine ⟨⟨fun hsome => ?_, fun h => ?_⟩, fun codec hcodec => ⟨_, rfl, ?_⟩⟩
  · obtain ⟨codec, hcodec⟩ := Option.isSome_iff_exists.mp hsome
    exact hnodup hcodec
  · obtain ⟨codec, hcodec, -⟩ := hcompiles h
    exact Option.isSome_iff_exists.mpr ⟨codec, hcodec⟩
  · obtain ⟨found, hfound, hagree⟩ := hcompiles (hnodup hcodec)
    cases hcodec.symm.trans hfound
    exact hagree

omit hknown in
/-- The derivations expand to the text of the program. -/
theorem expand_derivedProgram {item : Item}
    (hitem : item.kind = .struct (emittedFields (.ofSchema schema))) :
    expandEncode item =
        .ok (item.implementation Derive.encoderTrait (derivedProgram schema).encoder.tokens) ∧
      expandDecode item =
        .ok (item.implementation Derive.decoderTrait (derivedProgram schema).decoder.tokens) := by
  have hencoder : (derivedProgram schema).encoder.tokens = _ := Derive.tokens_programEncoder _
  have hdecoder : (derivedProgram schema).decoder.tokens = _ := Derive.tokens_programDecoder _ _
  rw [hencoder, hdecoder]
  exact expand_emitted hschema hitem

/-- The file of a declared structure is the text of its program. -/
theorem src_structModule_of_analyze (hdecl : .struct decl ∈ decls) :
    Derive.src (fileText (structModule (.ofSchema schema))) =
      (program schema).fileTokens "unused_imports" s!" Dispatch tag {tag}." decl.name := by
  obtain ⟨name, tag', plans⟩ := schema
  cases eq_mk_of_analyze hschema
  obtain ⟨hplanned, hidentifiers, -, -⟩ := Schema.analyze_eq_ok_iff.mp hschema
  refine src_structModule ((KnownTypes.ofDecls_eq_ok_iff.mp hknown).1 _ hdecl).identifier
    fun plan hplan => ⟨?_, fun name hname =>
      (Schema.isTypeName_of_analyze hknown hschema hplan name hname).identifier⟩
  have hname : plan.name ∈ decl.fields.map FieldDecl.name := by
    rw [← hplanned.names]
    exact List.mem_map_of_mem hplan
  obtain ⟨field, hfield, heq⟩ := List.mem_map.mp hname
  exact heq ▸ hidentifiers field hfield

end

end Emit

/-! ## 5. Emitted and derived -/

/-- Every emitted structure of the catalogue is compiled. -/
def Catalogue.Compiled (catalogue : Catalogue) : Prop :=
  ∀ name scope schema, catalogue.get? name = some (.lowered scope (.ofSchema schema)) →
    Emit.IsCompiled schema.fields

/-- A lowered structure has the fields of one plan only. -/
theorem Schema.StructCode.fields_eq_of_ofSchema {schema schema' : TypeSchema}
    (h : StructCode.ofSchema schema = .ofSchema schema') : schema.fields = schema'.fields := by
  have hfields := congrArg StructCode.fields h
  rw [StructCodec.fields_ofSchema, StructCodec.fields_ofSchema] at hfields
  refine List.map_injective_iff.mpr (fun plan plan' heq => ?_) hfields
  obtain ⟨name, kind, slot⟩ := plan
  cases heq
  rfl

/-- All structures of the sample schema are compiled. -/
theorem Samples.compiled_declared : Samples.declared.Compiled := by
  intro name scope schema hname
  have hentry := Catalogue.mem_of_get? hname
  rw [declared_eq] at hentry
  simp only [List.mem_cons, Prod.mk.injEq, Definition.lowered.injEq, reduceCtorEq, and_false,
    List.not_mem_nil, or_false] at hentry
  rcases hentry with ⟨-, -, h⟩ | ⟨-, -, h⟩ | ⟨-, -, h⟩
  all_goals
    rw [Schema.StructCode.fields_eq_of_ofSchema h]
    exact ⟨by decide, by decide⟩

namespace Emit

/-- **The codec that is emitted for an analysed structure is the one that is derived for it, unless a
member is a decimal number.**  The file of the structure is the text of a program, and the derivations
of the structure with the same members expand to the text of another one.  Either program is compiled
to the codec of a definition, lowered or derived, and both are compiled if the members have different
names; but the emitted one is not if some member is a decimal number, optional or not.  Where all that
is emitted is compiled, and the derived structure stands for the emitted one in a catalogue whose other
structures may be emitted or derived as well, there are the same values, and the codecs cannot be told
apart; a fixed size in the plan is the size of every value. -/
theorem generated_codec_is_derived_iff [DecimalForm] {decls : List TypeDecl} {known : KnownTypes}
    (hknown : KnownTypes.ofDecls decls = .ok known) {decl : StructDecl} {tag : Nat}
    {schema : TypeSchema} (hschema : analyze decl known tag = .ok schema) (scope : String) :
    (.struct decl ∈ decls → Derive.src (fileText (structModule (.ofSchema schema))) =
      (program schema).fileTokens "unused_imports" s!" Dispatch tag {tag}." decl.name) ∧
    (∀ item : Item, item.kind = .struct (emittedFields (.ofSchema schema)) →
      expandEncode item =
        .ok (item.implementation Derive.encoderTrait (derivedProgram schema).encoder.tokens) ∧
      expandDecode item =
        .ok (item.implementation Derive.decoderTrait (derivedProgram schema).decoder.tokens)) ∧
    (derivedProgram schema).members = (program schema).members ∧
    (derivedProgram schema).Compiles (typeShape scope) (schema.fields.map (shapedField scope))
      (schema.fields.map fun plan => identOf plan.name).Nodup
      (.record (schema.fields.map (emittedDef scope))) ∧
    (program schema).Compiles (typeShape scope) (schema.fields.map (shapedField scope))
      (IsCompiled schema.fields) (.lowered scope (.ofSchema schema)) ∧
    ∀ catalogue name chosen, Catalogue.Analyzed catalogue → catalogue.Compiled →
      catalogue.get? name = some (.lowered scope (.ofSchema schema)) → chosen name = true →
        (catalogue.rederive chosen).get? name =
          some (.record (schema.fields.map (emittedDef scope))) ∧
        (∀ value, (catalogue.rederive chosen).HasShape (.named name) value ↔
          catalogue.HasShape (.named name) value) ∧
        ∀ sharing,
          (catalogue.codecOf sharing (.named name)).Alike (catalogue.HasShape (.named name))
            ((catalogue.rederive chosen).codecOf sharing (.named name)) ∧
          (catalogue.Declares scope known → ∀ size, schema.fixedSize = some size →
            ∀ value, catalogue.HasShape (.named name) value →
              (catalogue.codecOf sharing (.named name)).size value = size) := by
  refine ⟨src_structModule_of_analyze hknown hschema, fun item => expand_derivedProgram hschema,
    members_derivedProgram schema, compiles_derivedProgram hknown hschema scope,
    compiles_program hknown hschema scope,
    fun catalogue name chosen hanalyzed _ hname hchosen => ?_⟩
  have hmatches := hanalyzed.matches_rederive chosen
  refine ⟨?_, fun value => hmatches.hasShape_iff.symm, fun sharing =>
    ⟨hmatches.alike sharing hanalyzed.planned (hanalyzed.planned_rederive chosen) (.named name),
      fun hdeclares size hsize value hvalue => ?_⟩⟩
  · rw [Catalogue.get?_rederive hchosen hname, Definition.rederive_lowered hknown hschema]
  · exact hanalyzed.planned.size_of_schema sharing
      (Schema.plannedFrom_of_analyze hschema).knownIn hname hdeclares hsize hvalue

open Samples

/-- So it is for a person, a point, which takes twelve bytes, and a list of nodes, which is derived with
its tail in a box. -/
theorem generated_codec_is_derived_declared :
    (∀ schema ∈ [personSchema, vec3Schema, nodeSchema], ∀ sharing initial named,
      ((program schema).codec? (.of (typeShape Samples.scope) sharing initial named)).isSome = true) ∧
    (∀ item : Item, item.kind = .struct (emittedFields (.ofSchema personSchema)) →
      expandEncode item = .ok (item.implementation Derive.encoderTrait
        (derivedProgram personSchema).encoder.tokens)) ∧
    rederived.get? "gen.Node" = some (.record [⟨"value", .plain (.leaf (.primitive .i32))⟩,
      ⟨"next", .nullable (.boxed (.named "gen.Node"))⟩]) ∧
    (∀ sharing, ∀ name ∈ ["gen.Person", "gen.Vec3", "gen.Node"],
      (declared.codecOf sharing (.named name)).Alike (declared.HasShape (.named name))
        (rederived.codecOf sharing (.named name))) ∧
    ∀ sharing, (declared.codecOf sharing (.named "gen.Vec3")).size
      (.record [.bits 0, .bits 0, .bits 0]) = 12 := by
  have hperson : declared.get? "gen.Person" = some (.lowered Samples.scope (.ofSchema personSchema)) := by
    rw [declared_eq]
    rfl
  have hvec3 : declared.get? "gen.Vec3" = some (.lowered Samples.scope (.ofSchema vec3Schema)) := by
    rw [declared_eq]
    rfl
  have hnode : declared.get? "gen.Node" = some (.lowered Samples.scope (.ofSchema nodeSchema)) := by
    rw [declared_eq]
    rfl
  obtain ⟨-, hexpand, -, -, person, hperson'⟩ := generated_codec_is_derived_iff ofDecls_declarations
    analyze_personDecl Samples.scope
  obtain ⟨-, -, -, -, vec3, hvec3'⟩ := generated_codec_is_derived_iff ofDecls_declarations
    analyze_vec3Decl Samples.scope
  obtain ⟨-, -, -, -, node, hnode'⟩ := generated_codec_is_derived_iff ofDecls_declarations
    analyze_nodeDecl Samples.scope
  have hcompiled : IsCompiled personSchema.fields ∧ IsCompiled vec3Schema.fields ∧
      IsCompiled nodeSchema.fields :=
    ⟨⟨by decide, by decide⟩, ⟨by decide, by decide⟩, ⟨by decide, by decide⟩⟩
  obtain ⟨-, -, hpersons⟩ := hperson' declared "gen.Person" (fun _ => true) analyzed_declared
    compiled_declared hperson rfl
  obtain ⟨-, -, hvec3s⟩ := hvec3' declared "gen.Vec3" (fun _ => true) analyzed_declared
    compiled_declared hvec3 rfl
  obtain ⟨hderived, -, hnodes⟩ := hnode' declared "gen.Node" (fun _ => true) analyzed_declared
    compiled_declared hnode rfl
  refine ⟨?_, fun item hitem => (hexpand item hitem).1, hderived, fun sharing => ?_, fun sharing => ?_⟩
  · refine List.forall_mem_cons.mpr ⟨fun sharing initial named => ?_, List.forall_mem_cons.mpr
      ⟨fun sharing initial named => ?_, List.forall_mem_singleton.mpr fun sharing initial named => ?_⟩⟩
    · exact (person sharing initial named).1.mpr hcompiled.1
    · exact (vec3 sharing initial named).1.mpr hcompiled.2.1
    · exact (node sharing initial named).1.mpr hcompiled.2.2
  · exact List.forall_mem_cons.mpr ⟨(hpersons sharing).1, List.forall_mem_cons.mpr
      ⟨(hvec3s sharing).1, List.forall_mem_singleton.mpr (hnodes sharing).1⟩⟩
  · exact (hvec3s sharing).2 declares_declared 12 rfl _ hasShape_origin

/-- A structure whose only field is a decimal number. -/
def priceDecl : StructDecl := ⟨"Price", none, [⟨"amount", .primitive .decimal⟩]⟩

/-- The plan of such a structure. -/
def priceSchema : TypeSchema := ⟨"Price", 1, [⟨"amount", .primitive .decimal, none⟩]⟩

/-- A decimal number is declared, but what is emitted for its structure is not compiled, and what is
derived for it is. -/
theorem decimal_not_compiled :
    ∃ known, KnownTypes.ofDecls [.struct priceDecl] = .ok known ∧
      analyze priceDecl known 1 = .ok priceSchema ∧
      (program priceSchema).encoder.serialize.statements =
        [.perform (.attempt (.method (.member (.word "amount")) "serialize" Source.buffers))] ∧
      ∀ scope sharing initial named,
        (program priceSchema).codec? (.of (typeShape scope) sharing initial named) = none ∧
        ((derivedProgram priceSchema).codec? (.of (typeShape scope) sharing initial named)).isSome =
          true := by
  have hknown : KnownTypes.ofDecls [.struct priceDecl] =
      .ok ⟨[("Price", .struct [.primitive .decimal])]⟩ := rfl
  have hschema : analyze priceDecl ⟨[("Price", .struct [.primitive .decimal])]⟩ 1 =
      .ok priceSchema := by
    refine Schema.analyze_eq_ok_iff.mpr ⟨?_, by decide, by decide, by decide⟩
    exact .always rfl rfl rfl .nil
  refine ⟨_, hknown, hschema, rfl, fun scope sharing initial named => ⟨?_, ?_⟩⟩
  · have hsome := (compiles_program hknown hschema scope sharing initial named).1
    have hnot : ¬IsCompiled priceSchema.fields := fun h =>
      h.withoutDecimals _ List.mem_cons_self rfl
    exact Option.not_isSome_iff_eq_none.mp (mt hsome.mp hnot)
  · exact (compiles_derivedProgram hknown hschema scope sharing initial named).1.mpr (by decide)

end Emit

end Wireform
