import Wireform.Proofs.Described
import Wireform.Proofs.Enumerations
import Wireform.Proofs.Identifiers

/-!
# Members of emitted types

The analysis and the validation tell fields and variants apart by the names that they were declared
with; emitted types have them under escaped names.  Two names are escaped to one identifier only if
one of them is a keyword that has no raw form, and the other is that keyword with the underscore that
it gets (`identOf_eq_iff`): a raw mark never makes two names one.

So the members of an emitted type have different identifiers exactly if no such pair is declared
(`nodup_map_identOf_iff`).  What its functions say of members is listed for each function, so that
with different identifiers each mention is of one declared member, and without them two members are
mentioned as one (`member_idents_distinct_iff`).
-/
namespace Wireform.Emit

open Derive (bareChars)
open Schema (EnumDecl FieldDecl FieldPlan KnownTypes Step StructCode StructDecl TypeDecl TypeSchema
  VariantDecl analyze isIdentifier validateEnum)

/-! ## 1. Names that are escaped to one identifier -/

/-- No keyword without a raw form stands among the names together with what it is written as. -/
def EscapesApart (names : List String) : Prop :=
  ∀ keyword ∈ pathKeywords, keyword ∈ names → keyword ++ "_" ∉ names

instance (names : List String) : Decidable (EscapesApart names) :=
  inferInstanceAs (Decidable (∀ keyword ∈ pathKeywords, keyword ∈ names → keyword ++ "_" ∉ names))

/-- A name with the underscore that it gets if it has no raw form. -/
def endEscaped (name : String) : String := if name ∈ pathKeywords then name ++ "_" else name

/-- Behind its raw mark an identifier is the name, which may have got an underscore. -/
theorem bareChars_identOf {name : String} (h : isIdentifier name = true) :
    bareChars (identOf name) = (endEscaped name).toList := by
  unfold identOf endEscaped
  simp only [List.contains_iff_mem]
  split
  · next hpath =>
    have hplain : ∀ keyword ∈ pathKeywords, bareChars (keyword ++ "_") = (keyword ++ "_").toList := by
      decide
    exact hplain name hpath
  · split
    · unfold bareChars
      rw [String.toList_append]
      rfl
    · exact Derive.bareChars_of_isIdentifier h

theorem endEscaped_eq_iff {a b : String} :
    endEscaped a = endEscaped b ↔
      a = b ∨ (a ∈ pathKeywords ∧ b = a ++ "_") ∨ (b ∈ pathKeywords ∧ a = b ++ "_") := by
  -- A keyword with its underscore is no keyword, so of two different names at most one gets one.
  have hends : ∀ keyword ∈ pathKeywords, ∀ other ∈ pathKeywords, keyword ≠ other ++ "_" := by decide
  unfold endEscaped
  by_cases ha : a ∈ pathKeywords <;> by_cases hb : b ∈ pathKeywords
  · simp [ha, hb, hends a ha b hb, hends b hb a ha]
  · have hne : a ≠ b := fun heq => hb (heq ▸ ha)
    simp [ha, hb, hne, eq_comm]
  · have hne : a ≠ b := fun heq => ha (heq ▸ hb)
    simp [ha, hb, hne]
  · simp [ha, hb]

/-- **Escaping makes one identifier of two names only by the underscore of a keyword.**  Raw marks make
no difference between identifiers, and none is needed. -/
theorem identOf_eq_iff {a b : String} (ha : isIdentifier a = true) (hb : isIdentifier b = true) :
    (identOf a = identOf b ↔ bareChars (identOf a) = bareChars (identOf b)) ∧
      (identOf a = identOf b ↔
        a = b ∨ (a ∈ pathKeywords ∧ b = a ++ "_") ∨ (b ∈ pathKeywords ∧ a = b ++ "_")) := by
  have hkeyword : ∀ keyword ∈ pathKeywords, identOf keyword = identOf (keyword ++ "_") := by decide
  have hbare : bareChars (identOf a) = bareChars (identOf b) ↔
      a = b ∨ (a ∈ pathKeywords ∧ b = a ++ "_") ∨ (b ∈ pathKeywords ∧ a = b ++ "_") := by
    rw [bareChars_identOf ha, bareChars_identOf hb, String.toList_inj, endEscaped_eq_iff]
  have hsame : identOf a = identOf b ↔ bareChars (identOf a) = bareChars (identOf b) := by
    refine ⟨congrArg bareChars, fun h => ?_⟩
    rcases hbare.mp h with rfl | ⟨hpath, rfl⟩ | ⟨hpath, rfl⟩
    · rfl
    · exact hkeyword a hpath
    · exact (hkeyword b hpath).symm
  exact ⟨hsame, hsame.trans hbare⟩

section

variable {names : List String} (hnames : ∀ name ∈ names, isIdentifier name = true)
  (hdistinct : names.Nodup)

include hnames hdistinct

/-- **Different names have different identifiers exactly if no keyword stands among them together with
what it is written as.** -/
theorem nodup_map_identOf_iff : (names.map identOf).Nodup ↔ EscapesApart names := by
  rw [List.nodup_map_iff_inj_on hdistinct]
  constructor
  · intro hinj keyword hpath hkeyword hended
    have hsame := (identOf_eq_iff (hnames _ hkeyword) (hnames _ hended)).2.mpr (.inr (.inl ⟨hpath, rfl⟩))
    have hends : ∀ keyword ∈ pathKeywords, keyword ≠ keyword ++ "_" := by decide
    exact hends keyword hpath (hinj _ hkeyword _ hended hsame)
  · intro hapart a ha b hb hsame
    rcases (identOf_eq_iff (hnames a ha) (hnames b hb)).2.mp hsame with heq | ⟨hpath, rfl⟩ | ⟨hpath, rfl⟩
    · exact heq
    · exact absurd hb (hapart a hpath ha)
    · exact absurd ha (hapart b hpath hb)

/-- The same holds of identifiers without their raw marks. -/
theorem nodup_map_bareChars_iff :
    (names.map fun name => bareChars (identOf name)).Nodup ↔ EscapesApart names := by
  rw [← nodup_map_identOf_iff hnames hdistinct, List.nodup_map_iff_inj_on hdistinct,
    List.nodup_map_iff_inj_on hdistinct]
  refine forall₂_congr fun a ha => forall₂_congr fun b hb => ?_
  rw [(identOf_eq_iff (hnames a ha) (hnames b hb)).1]

/-- Each identifier is then that of one name. -/
theorem filter_identOf_eq (hapart : EscapesApart names) {name : String} (hname : name ∈ names) :
    names.filter (fun other => identOf other = identOf name) = [name] := by
  have hinj := (List.nodup_map_iff_inj_on hdistinct).mp
    ((nodup_map_identOf_iff hnames hdistinct).mpr hapart)
  have hcongr : ∀ other ∈ names, decide (identOf other = identOf name) = (other == name) := by
    intro other hother
    rw [Bool.eq_iff_iff, decide_eq_true_iff, beq_iff_eq]
    exact ⟨hinj other hother name hname, congrArg identOf⟩
  rw [List.filter_congr hcongr, List.filter_beq, List.count_eq_one_of_mem hdistinct hname]
  rfl

end

/-! ## 2. The members that an emitted type has -/

/-- The identifier of the field or the variant that a line defines. -/
def definedMember? : Code → Option String
  | .line (.text "pub " :: .ident name :: _) => some name
  | .line (.ident name :: _) => some name
  | _ => none

/-- The identifiers of the members that a block defines. -/
def definedMembers : Code → List String
  | .block _ _ body => body.filterMap definedMember?
  | _ => []

/-- The block that defines a type. -/
def LoweredType.block : LoweredType → Code
  | .struct code => structType code
  | .enum e => .plainBlock ["pub enum ", .ident e.name] (variantLines e.variants)

theorem block_mem_source (type : LoweredType) : type.block ∈ type.source := by
  cases type with
  | struct code => simp [LoweredType.block, LoweredType.source, structModule]
  | «enum» e => simp [LoweredType.block, LoweredType.source, enumModule]

theorem definedMembers_structType (schema : TypeSchema) :
    definedMembers (structType (.ofSchema schema)) = schema.fields.map fun field => identOf field.name := by
  unfold structType
  rw [StructCodec.fields_ofSchema, List.map_map]
  show List.filterMap definedMember? _ = _
  rw [List.filterMap_map, ← List.filterMap_eq_map]
  rfl

theorem definedMembers_variantLines (header : List Piece) (variants : List Variant) :
    definedMembers (.plainBlock header (variantLines variants)) =
      variants.map fun variant => identOf variant.name := by
  cases variants with
  | nil => rfl
  | cons first rest =>
    have hlines : ∀ variants : List Variant, (variants.map fun v => Code.line
        [.ident (identOf v.name), " = ", toString v.discriminant, ","]).filterMap definedMember? =
        variants.map fun v => identOf v.name := by
      intro variants
      rw [List.filterMap_map, ← List.filterMap_eq_map]
      rfl
    exact hlines (first :: rest)

/-! ## 3. What the functions say of members -/

/-- The identifier that a piece is. -/
def Piece.ident? : Piece → Option String
  | .text _ => none
  | .ident name => some name

section

variable {α : Type}

theorem declaredIdents_append (first rest : List Code) :
    declaredIdents (first ++ rest) = declaredIdents first ++ declaredIdents rest := by
  induction first with
  | nil => rfl
  | cons code first ih =>
    unfold declaredIdents at ih ⊢
    rw [List.cons_append, Code.piecesAll, Code.piecesAll, List.filterMap_append, List.filterMap_append,
      ih, List.append_assoc]

theorem declaredIdents_flatMap (f : α → List Code) (l : List α) :
    declaredIdents (l.flatMap f) = l.flatMap fun a => declaredIdents (f a) := by
  induction l with
  | nil => rfl
  | cons a l ih => rw [List.flatMap_cons, List.flatMap_cons, declaredIdents_append, ih]

/-- Where each line or block mentions one identifier, they are mentioned in turn. -/
theorem declaredIdents_map {f : α → Code} {name : α → String}
    (h : ∀ a, declaredIdents [f a] = [name a]) (l : List α) :
    declaredIdents (l.map f) = l.map name := by
  rw [List.map_eq_flatMap, declaredIdents_flatMap, List.map_eq_flatMap]
  exact congrArg (List.flatMap · l) (funext h)

theorem ident?_joinPieces (separator : String) (lists : List (List Piece)) :
    (joinPieces separator lists).filterMap Piece.ident? =
      lists.flatMap fun list => list.filterMap Piece.ident? := by
  induction lists with
  | nil => rfl
  | cons head rest ih =>
    cases rest with
    | nil => simp [joinPieces]
    | cons next rest =>
      rw [joinPieces, List.filterMap_append, List.filterMap_append, ih]
      · simp [Piece.ident?]
      · simp

end

/-- The body of the function that measures a value. -/
def sizeBody (code : StructCode) : List Code :=
  if code.bitsetBytes = 0 then plainSizeBody code else nullableSizeBody code

theorem declaredIdents_plainSizeBody (schema : TypeSchema) :
    declaredIdents (plainSizeBody (.ofSchema schema)) =
      schema.fields.map fun field => identOf field.name := by
  have hline : ∀ pieces, declaredIdents [.line pieces] = pieces.filterMap Piece.ident? := by
    intro pieces
    rw [declaredIdents, Code.piecesAll, Code.pieces, Code.piecesAll, List.append_nil]
    rfl
  have hguard : declaredIdents
      [.plainBlock ["if let Some(size) = Self::FIXED_SIZE"] [.line ["return size;"]]] = [] := rfl
  unfold plainSizeBody
  rw [StructCodec.fields_ofSchema, List.map_map]
  refine (declaredIdents_append [_] [_]).trans ?_
  rw [hguard, hline, List.nil_append]
  cases schema.fields with
  | nil => rfl
  | cons field fields =>
    rw [if_neg (by simp), ident?_joinPieces, List.flatMap_map, List.map_eq_flatMap]
    rfl

theorem declaredIdents_nullableSizeBody (schema : TypeSchema) :
    declaredIdents (nullableSizeBody (.ofSchema schema)) =
      schema.fields.map fun field => identOf field.name := by
  unfold nullableSizeBody
  rw [StructCodec.fields_ofSchema, List.map_map, declaredIdents_append, declaredIdents_append,
    @declaredIdents_map FieldPlan _ fun field => identOf field.name]
  · simp [declaredIdents, Code.piecesAll, Code.pieces]
  · intro field
    cases hslot : field.slot <;>
      simp [declaredIdents, Code.piecesAll, Code.pieces, Code.plainBlock, StructCodec.lowerField, hslot]

/-- Of the steps of a structure, that of the bitset comes first. -/
theorem declaredIdents_stepsBody (statements : Step → List Code) (schema : TypeSchema) :
    declaredIdents (stepsBody statements (.ofSchema schema)) =
      (if 0 < schema.bitsetBytes then declaredIdents
        (statements (.bitset schema.bitsetBytes (StructCodec.listedSlots schema.fields))) else []) ++
        schema.fields.flatMap fun field => declaredIdents (statements (StructCodec.fieldStep field)) := by
  have hend : ∀ code : StructCode, declaredIdents
      ((if code.steps.isEmpty then [.line ["let _ = (buf, cursor);"]] else [] : List Code) ++
        ([.line ["Ok(())"]] : List Code)) = [] := by
    intro code
    split <;> rfl
  unfold stepsBody
  rw [List.append_assoc, declaredIdents_append, hend, List.append_nil, declaredIdents_flatMap]
  unfold StructCode.ofSchema
  rw [List.flatMap_append, List.flatMap_map]
  congr 1
  split
  · exact List.flatMap_singleton _ _
  · rfl

theorem map_fst_listedSlots (fields : List FieldPlan) :
    (StructCodec.listedSlots fields).map Prod.fst =
      (fields.filter FieldPlan.isNullable).map FieldPlan.name := by
  induction fields with
  | nil => rfl
  | cons field fields ih =>
    unfold StructCodec.listedSlots at ih ⊢
    cases hslot : field.slot <;> simp [FieldPlan.isNullable, hslot] at ih ⊢ <;> exact ih

theorem declaredIdents_writeSteps (schema : TypeSchema) :
    declaredIdents (stepsBody writeStep (.ofSchema schema)) =
      (schema.nullableFields ++ schema.fields).map fun field => identOf field.name := by
  have hbitset : declaredIdents
      (writeStep (.bitset schema.bitsetBytes (StructCodec.listedSlots schema.fields))) =
      schema.nullableFields.map fun field => identOf field.name := by
    have hslots : (StructCodec.listedSlots schema.fields).map (fun slot => identOf slot.1) =
        schema.nullableFields.map fun field => identOf field.name := by
      have hnames := congrArg (List.map identOf) (map_fst_listedSlots schema.fields)
      rwa [List.map_map, List.map_map] at hnames
    unfold writeStep
    rw [declaredIdents_append, declaredIdents_append, declaredIdents_map fun _ => rfl, hslots]
    exact List.append_nil _
  have hfield : ∀ field, declaredIdents (writeStep (StructCodec.fieldStep field)) =
      [identOf field.name] := by
    intro field
    cases hslot : field.slot <;>
      simp [writeStep, StructCodec.fieldStep, declaredIdents, Code.piecesAll, Code.pieces,
        Code.plainBlock, hslot]
  rw [declaredIdents_stepsBody, hbitset, List.map_append, List.map_eq_flatMap (l := schema.fields)]
  congr 1
  · split
    · rfl
    · next hnone =>
      have hnames := map_fst_listedSlots schema.fields
      rw [StructCodec.listedSlots_eq_nil (Nat.eq_zero_of_not_pos hnone)] at hnames
      rw [TypeSchema.nullableFields, List.map_eq_nil_iff.mp hnames.symm]
      rfl
  · exact congrArg (List.flatMap · schema.fields) (funext hfield)

theorem declaredIdents_readSteps (schema : TypeSchema) :
    declaredIdents (stepsBody readStep (.ofSchema schema)) =
      schema.fields.flatMap fun field =>
        List.replicate (if field.isNullable then 2 else 1) (identOf field.name) := by
  have hbitset : declaredIdents
      (readStep (.bitset schema.bitsetBytes (StructCodec.listedSlots schema.fields))) = [] := rfl
  have hfield : ∀ field, declaredIdents (readStep (StructCodec.fieldStep field)) =
      List.replicate (if field.isNullable then 2 else 1) (identOf field.name) := by
    intro field
    cases hslot : field.slot <;>
      simp [readStep, StructCodec.fieldStep, declaredIdents, Code.piecesAll, Code.pieces,
        FieldPlan.isNullable, hslot, List.replicate]
  rw [declaredIdents_stepsBody, hbitset, ite_self, List.nil_append]
  exact congrArg (List.flatMap · schema.fields) (funext hfield)

theorem declaredIdents_variantArms (e : Enumeration) :
    declaredIdents (variantArms e) = e.variants.map fun variant => identOf variant.name := by
  unfold variantArms
  rw [declaredIdents_append, declaredIdents_map fun _ => rfl]
  exact List.append_nil _

/-- The identifiers that each function mentions members by: the three functions of a structure
measure, write and read a value, and that of an enumeration reads one. -/
def LoweredType.mentions : LoweredType → List (List String)
  | .struct code =>
    [sizeBody code, stepsBody writeStep code, stepsBody readStep code].map declaredIdents
  | .enum e => [declaredIdents (variantArms e)]

/-- The fields that the functions of a structure deal with, given which may be null: a value is
measured field by field; it is written after the marks of the fields that may be null; and to read such
a field is either to empty it or to read what it holds. -/
def dealtFields (fields : List (String × Bool)) : List (List String) :=
  [fields.map Prod.fst, (fields.filter Prod.snd ++ fields).map Prod.fst,
    fields.flatMap fun field => List.replicate (if field.2 then 2 else 1) field.1]

/-- The declared members that each function deals with. -/
def dealtMembers : TypeDecl → List (List String)
  | .struct decl => dealtFields (decl.fields.map fun field => (field.name, field.type.isOptional))
  | .enum decl => [decl.variants.map VariantDecl.name]

theorem mentions_ofSchema (schema : TypeSchema) :
    (LoweredType.struct (.ofSchema schema)).mentions =
      (dealtFields (schema.fields.map fun plan => (plan.name, plan.isNullable))).map
        (List.map identOf) := by
  have hsize : declaredIdents (sizeBody (.ofSchema schema)) =
      schema.fields.map fun field => identOf field.name := by
    unfold sizeBody
    split
    · exact declaredIdents_plainSizeBody schema
    · exact declaredIdents_nullableSizeBody schema
  show [declaredIdents (sizeBody (.ofSchema schema)), declaredIdents (stepsBody writeStep (.ofSchema schema)),
    declaredIdents (stepsBody readStep (.ofSchema schema))] = _
  rw [hsize, declaredIdents_writeSteps, declaredIdents_readSteps, dealtFields]
  simp [List.filter_map, List.map_flatMap, List.flatMap_map, TypeSchema.nullableFields,
    Function.comp_def]

/-! ## 4. Emitted types -/

/-- An accepted declaration, and the type that is emitted for it. -/
inductive AcceptedAs (known : KnownTypes) : TypeDecl → LoweredType → Prop where
  | struct {decl : StructDecl} {tag : Nat} {schema : TypeSchema}
    (h : analyze decl known tag = .ok schema) :
    AcceptedAs known (.struct decl) (.struct (.ofSchema schema))
  | enum {decl : EnumDecl} (h : validateEnum decl = .ok ()) :
    AcceptedAs known (.enum decl) (.enum (.ofDecl decl))

variable {known : KnownTypes} {decl : TypeDecl} {type : LoweredType}

/-- The members of an accepted declaration have identifiers of the schema for names. -/
theorem AcceptedAs.isIdentifier_members (h : AcceptedAs known decl type) :
    ∀ name ∈ memberNames decl, isIdentifier name = true := by
  cases h with
  | struct h => exact List.forall_mem_map.mpr (Schema.exists_analyze_iff.mp ⟨_, h⟩).identifiers
  | «enum» h => exact List.forall_mem_map.mpr (Schema.validateEnum_eq_ok_iff.mp h).identifiers

/-- No two of them have one name. -/
theorem AcceptedAs.nodup_members (h : AcceptedAs known decl type) : (memberNames decl).Nodup := by
  cases h with
  | struct h => exact (Schema.exists_analyze_iff.mp ⟨_, h⟩).distinct
  | «enum» h => exact (Schema.validateEnum_eq_ok_iff.mp h).names

/-- The planned fields are called and nullable as the declared ones. -/
theorem map_member_of_analyze {decl : StructDecl} {tag : Nat} {schema : TypeSchema}
    (h : analyze decl known tag = .ok schema) :
    schema.fields.map (fun plan => (plan.name, plan.isNullable)) =
      decl.fields.map fun field => (field.name, field.type.isOptional) := by
  refine Schema.map_eq_of_forall₂ (fun field plan hplan => ?_) (Schema.mirrors_of_analyze h).fields
  have hkind : ∀ kind : Schema.Kind, kind.typeRef.isOptional = false := by
    intro kind
    cases kind <;> rfl
  rw [hplan.name, ← hplan.type]
  unfold FieldPlan.isNullable Schema.TypeRef.orNull
  cases plan.slot.isSome with
  | false => exact congrArg (Prod.mk field.name) (hkind plan.kind).symm
  | true => rfl

/-- The emitted type defines the declared members in their order. -/
theorem AcceptedAs.definedMembers_eq (h : AcceptedAs known decl type) :
    definedMembers type.block = (memberNames decl).map identOf := by
  cases h with
  | struct h =>
    have hnames := congrArg (List.map fun member => identOf member.1) (map_member_of_analyze h)
    rw [List.map_map, List.map_map] at hnames
    refine (definedMembers_structType _).trans (hnames.trans ?_)
    rw [memberNames, List.map_map]
    rfl
  | «enum» h =>
    refine (definedMembers_variantLines _ _).trans ?_
    rw [Enumeration.ofDecl, memberNames, List.map_map, List.map_map]
    rfl

/-- Its functions mention them. -/
theorem AcceptedAs.mentions_eq (h : AcceptedAs known decl type) :
    type.mentions = (dealtMembers decl).map (List.map identOf) := by
  cases h with
  | struct h => rw [mentions_ofSchema, map_member_of_analyze h, dealtMembers]
  | «enum» h =>
    show [declaredIdents (variantArms _)] = _
    rw [declaredIdents_variantArms, Enumeration.ofDecl, List.map_map]
    simp [dealtMembers]

/-- **Declared members stay distinct exactly if no keyword without a raw form is a member together with
what it is written as.**  An emitted type defines the declared members in their order, and its functions
deal with them, under their escaped names; these are distinct, with their raw marks or without, if
and only if the declared names are escaped apart, and then each stands for one declared member. -/
theorem member_idents_distinct_iff (h : AcceptedAs known decl type) :
    type.block ∈ type.source ∧
      definedMembers type.block = (memberNames decl).map identOf ∧
      type.mentions = (dealtMembers decl).map (List.map identOf) ∧
      ((definedMembers type.block).Nodup ↔ EscapesApart (memberNames decl)) ∧
      (((definedMembers type.block).map bareChars).Nodup ↔ EscapesApart (memberNames decl)) ∧
      (EscapesApart (memberNames decl) → ∀ name ∈ memberNames decl,
        (memberNames decl).filter (fun other => identOf other = identOf name) = [name]) := by
  have hnames := h.isIdentifier_members
  have hdistinct := h.nodup_members
  refine ⟨block_mem_source type, h.definedMembers_eq, h.mentions_eq, ?_, ?_,
    fun hapart name hname => filter_identOf_eq hnames hdistinct hapart hname⟩
  · rw [h.definedMembers_eq]
    exact nodup_map_identOf_iff hnames hdistinct
  · rw [h.definedMembers_eq, List.map_map]
    exact nodup_map_bareChars_iff hnames hdistinct

/-- A structure with two one-byte fields. -/
def twoFields (first second : String) : StructDecl :=
  ⟨"S", none, [⟨first, .primitive .u8⟩, ⟨second, .primitive .u8⟩]⟩

/-- It is accepted if the fields have different identifiers for names. -/
theorem analyze_twoFields {first second : String}
    (hnames : isIdentifier first = true ∧ isIdentifier second = true) (hne : first ≠ second) :
    analyze (twoFields first second) known 1 =
      .ok ⟨"S", 1, [⟨first, .primitive .u8, none⟩, ⟨second, .primitive .u8, none⟩]⟩ := by
  refine Schema.analyze_eq_ok_iff.mpr
    ⟨.always rfl rfl rfl (.always rfl rfl rfl .nil), ?_, ?_, ?_⟩
  · exact List.forall_mem_cons.mpr ⟨hnames.1, List.forall_mem_singleton.mpr hnames.2⟩
  · simpa [twoFields] using hne
  · exact Nat.zero_le _

/-- Fields called by a keyword that has a raw form and by one that has none, which keep apart. -/
theorem member_idents_distinct_match :
    ∃ type, AcceptedAs ⟨[]⟩ (.struct (twoFields "match" "self")) type ∧
      definedMembers type.block = ["r#match", "self_"] ∧
      type.mentions = [["r#match", "self_"], ["r#match", "self_"], ["r#match", "self_"]] ∧
      (definedMembers type.block).Nodup := by
  have haccepted : AcceptedAs ⟨[]⟩ (.struct (twoFields "match" "self")) _ :=
    .struct (analyze_twoFields (by decide) (by decide))
  obtain ⟨-, hdefined, hmentions, hdistinct, -⟩ := member_idents_distinct_iff haccepted
  exact ⟨_, haccepted, hdefined.trans (by decide), hmentions.trans (by decide),
    hdistinct.mpr (by decide)⟩

/-- A structure with the fields `self` and `self_` is accepted, defines `self_` twice, and its functions
measure, write and read the one as the other. -/
theorem self_fields_clash :
    ∃ schema, analyze (twoFields "self" "self_") ⟨[]⟩ 1 = .ok schema ∧
      definedMembers (structType (.ofSchema schema)) = ["self_", "self_"] ∧
      (LoweredType.struct (.ofSchema schema)).mentions =
        [["self_", "self_"], ["self_", "self_"], ["self_", "self_"]] := by
  have hschema : analyze (twoFields "self" "self_") ⟨[]⟩ 1 = .ok _ :=
    analyze_twoFields (by decide) (by decide)
  have haccepted := AcceptedAs.struct hschema
  exact ⟨_, hschema, haccepted.definedMembers_eq.trans (by decide), haccepted.mentions_eq.trans (by decide)⟩

end Wireform.Emit
