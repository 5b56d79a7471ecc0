import Wireform.Proofs.Templates

/-!
# Declared names among the names of the templates

Every generated source sees the types and the modules of all declarations, so that a declaration can
take the place of something that sources refer to by the same name.  Names are reserved to prevent
that; this file says which names are left.

The sources of accepted schemas use names of the templates only (`mem_templateNames_of_used`), and a
schema that may have a type of almost any name uses them all (`uses_templateNames`).  Among these
names, a declared type can have all but the reserved ones, those of leaf types and that of the
dispatch table; and its module can have all without capitals but the last, for modules are compared
with the other files only (`captured_names_iff`).
-/
namespace Wireform.Emit

open Schema (FieldDecl FieldPlan IsTypeName Kind KnownTypes PlannedFrom Primitive Step StructCode
  StructDecl TagRegistry TypeDecl TypeSchema isIdentifier)

/-- `source` is the source of a file that the declarations generate. -/
def Generates (decls : List TypeDecl) (source : List Code) : Prop :=
  ∃ artifacts lowered, render decls = .ok artifacts ∧ lowerAll decls = .ok lowered ∧
    artifacts.map Artifact.contents = (sourcesOf lowered).map fileText ∧ source ∈ sourcesOf lowered

section

variable {decls : List TypeDecl} {source : List Code} {name : String}

theorem generates_iff :
    Generates decls source ↔
      ∃ lowered, lowerAll decls = .ok lowered ∧ source ∈ sourcesOf lowered := by
  constructor
  · rintro ⟨artifacts, lowered, -, hlowered, -, hsource⟩
    exact ⟨lowered, hlowered, hsource⟩
  · rintro ⟨lowered, hlowered, hsource⟩
    exact ⟨_, lowered, render_eq_ok_iff.mpr ⟨lowered, hlowered, rfl⟩, hlowered,
      contents_artifactsOf lowered, hsource⟩

/-! ## 1. What sources use -/

/-- Every source of an accepted schema uses names of the templates only. -/
theorem listed_of_generates (h : Generates decls source) : Listed source := by
  obtain ⟨lowered, hlowered, hsource⟩ := generates_iff.mp h
  obtain ⟨known, tags, last, hknown, -, -, hlowers⟩ := lowerAll_eq_ok_iff.mp hlowered
  have hnames := hlowers.isIdentifier_of_mem_names hknown
  have hentries : ∀ entry ∈ (tableOf lowered).entries, isIdentifier entry.name = true :=
    fun entry hentry => hnames _ (List.mem_append_left _ (List.mem_map_of_mem hentry))
  rcases List.mem_append.mp hsource with htypes | hshared
  · obtain ⟨type, htype, rfl⟩ := List.mem_map.mp htypes
    cases type with
    | struct code => exact listed_structModule code
    | «enum» e =>
      have hname : e.name ∈ (tableOf lowered).enums := List.mem_filterMap.mpr ⟨_, htype, rfl⟩
      exact listed_enumModule (hnames _ (List.mem_append_right _ hname))
  · simp only [List.mem_cons, List.not_mem_nil, or_false] at hshared
    rcases hshared with rfl | rfl
    · exact listed_dispatchModule hentries
    · exact listed_listingModule hentries

/-- **Sources use names of the templates only.** -/
theorem mem_templateNames_of_used (h : Generates decls source) (hname : name ∈ usedNames source) :
    name ∈ templateNames := by
  obtain ⟨hword, hlegal⟩ := mem_usedNames.mp hname
  exact mem_templateNames (listed_of_generates h _ hword) hlegal

end

/-! ## 2. A schema that uses them all -/

/-- A structure with all leaf types, collections and a field that may be null. -/
def holderDecl : StructDecl where
  name := "Holder"
  tag := none
  fields := Primitive.all.map (fun p => ⟨p.name, .primitive p⟩) ++
    [⟨"items", .list (.primitive .u8)⟩, ⟨"bytes", .array (.primitive .u8)⟩,
      ⟨"maybe", .optional (.primitive .u8)⟩]

/-- Its plan. -/
def holderSchema : TypeSchema where
  name := "Holder"
  tag := 1
  fields := Primitive.all.map (fun p => ⟨p.name, .primitive p, none⟩) ++
    [⟨"items", .list (.primitive .u8) false, none⟩, ⟨"bytes", .array (.primitive .u8) false, none⟩,
      ⟨"maybe", .primitive .u8, some 1⟩]

/-- An enumeration with one variant. -/
def unitEnum (name : String) : Schema.EnumDecl := ⟨name, .u8, [⟨"A", 0⟩]⟩

/-- A schema that has a type of a given name beside others. -/
def schemaWith (name : String) : List TypeDecl :=
  [.enum (unitEnum name), .struct holderDecl, .enum (unitEnum "Choice")]

/-- What it is lowered to. -/
def loweredWith (name : String) : List LoweredType :=
  [.enum (.ofDecl (unitEnum name)), .struct (.ofSchema holderSchema),
    .enum (.ofDecl (unitEnum "Choice"))]

/-- The stems of the other files. -/
def otherStems : List String := ["mod", "dispatch", "holder", "choice"]

section

variable {name : String}

theorem validate_unitEnum (name : String) : Schema.validateEnum (unitEnum name) = .ok () := by
  have hname : Schema.checkName "A" = .ok () := rfl
  have hwidth : Schema.IntRepr.u8.contains 0 = true := rfl
  simp [Schema.validateEnum, unitEnum, Schema.checkVariant, hname, hwidth, bind, Except.bind, pure,
    Except.pure]

/-- Leaf types have plans of their own, whatever is known. -/
theorem plannedFrom_primitives {known : KnownTypes} {holder : String} {slot : Nat}
    {fields : List FieldDecl} {plans : List FieldPlan}
    (h : PlannedFrom known holder slot fields plans) (leaves : List Primitive) :
    PlannedFrom known holder slot (leaves.map (fun p => ⟨p.name, .primitive p⟩) ++ fields)
      (leaves.map (fun p => ⟨p.name, .primitive p, none⟩) ++ plans) := by
  induction leaves with
  | nil => exact h
  | cons p leaves ih => exact .always rfl rfl rfl ih

theorem analyze_holderDecl (known : KnownTypes) :
    Schema.analyze holderDecl known 1 = .ok holderSchema :=
  have hrest : PlannedFrom known "Holder" 0 (holderDecl.fields.drop 20)
      (holderSchema.fields.drop 20) :=
    .always rfl rfl rfl (.always rfl rfl rfl (.nullable rfl rfl rfl .nil))
  Schema.analyze_eq_ok_iff.mpr
    ⟨plannedFrom_primitives hrest Primitive.all, by decide, by decide, by decide⟩

theorem fileStem_not_mem_otherStems (hname : isIdentifier name = true)
    (hmodule : moduleName name ∉ otherStems) : fileStem name ∉ otherStems := by
  have hkeywords : ∀ keyword ∈ pathKeywords, keyword ++ "_" ∉ otherStems := by decide
  rw [fileStem_eq hname]
  split
  · next hmem => exact hkeywords _ hmem
  · exact hmodule

/-- **A type may have any name** that is neither reserved nor that of a leaf type, if its file is
new. -/
theorem lowerAll_schemaWith (htype : IsTypeName name) (hmodule : moduleName name ∉ otherStems) :
    lowerAll (schemaWith name) = .ok (loweredWith name) := by
  have hholder : IsTypeName "Holder" ∧ name ≠ "Holder" :=
    ⟨⟨by decide, by decide, by decide⟩, fun heq => hmodule (heq ▸ by decide)⟩
  have hchoice : IsTypeName "Choice" ∧ name ≠ "Choice" :=
    ⟨⟨by decide, by decide, by decide⟩, fun heq => hmodule (heq ▸ by decide)⟩
  have hnodup : ((schemaWith name).map TypeDecl.name).Nodup := by
    have hnames : (schemaWith name).map TypeDecl.name = [name, "Holder", "Choice"] := rfl
    simp [hnames, hholder.2, hchoice.2]
  have htypes : ∀ decl ∈ schemaWith name, IsTypeName decl.name :=
    List.forall_mem_cons.mpr ⟨htype, List.forall_mem_cons.mpr ⟨hholder.1,
      List.forall_mem_singleton.mpr hchoice.1⟩⟩
  have hknown := KnownTypes.ofDecls_eq_ok_iff.mpr ⟨htypes, hnodup, rfl⟩
  have hfiles : (fileNames (schemaWith name)).Nodup := by
    have hstem := fileStem_not_mem_otherStems htype.identifier hmodule
    have hstems : fileStem "Holder" = "holder" ∧ fileStem "Choice" = "choice" := by decide
    have hnames : (schemaWith name).map (fun decl => fileStem decl.name) =
        [fileStem name, fileStem "Holder", fileStem "Choice"] := rfl
    rw [nodup_fileNames_iff, hnames, hstems.1, hstems.2]
    simp only [otherStems, List.mem_cons, List.not_mem_nil, or_false, not_or] at hstem
    simp [hstem, Ne.symm hstem.1, Ne.symm hstem.2.1]
  have hconsts : (tagConsts (schemaWith name)).Nodup := by
    have hconsts : tagConsts (schemaWith name) = ["NULL_TAG", tagConst "Holder"] := rfl
    rw [hconsts]
    decide
  have hgenerated := checkGeneratedNames_eq_ok_iff.mpr ⟨hfiles, hconsts⟩
  exact lowerAll_eq_ok_iff.mpr ⟨_, _, _, hknown, hgenerated, rfl,
    .enum (validate_unitEnum name) <| .struct rfl (analyze_holderDecl _) <|
      .enum (validate_unitEnum "Choice") .nil⟩

/-- The only structure of the schema has the first tag. -/
def holderEntry : TableEntry := ⟨1, "Holder"⟩

theorem tableOf_loweredWith (name : String) :
    tableOf (loweredWith name) = ⟨[holderEntry], [name, "Choice"]⟩ := by
  have hentries : (tableOf (loweredWith name)).entries = [holderEntry] := List.mergeSort_singleton _
  have henums : (tableOf (loweredWith name)).enums = [name, "Choice"] := rfl
  rw [← hentries, ← henums]

/-! ### The names in its sources -/

/-- Whether names are all among words. -/
def allAmong (names : List String) (words : List (List Char)) : Bool :=
  (names.map String.toList).all fun word => words.contains word

theorem mem_of_allAmong {names : List String} {words : List (List Char)}
    (h : allAmong names words = true) : ∀ name ∈ names, name.toList ∈ words := by
  intro name hname
  exact List.contains_iff_mem.mp (List.all_eq_true.mp h _ (List.mem_map_of_mem hname))

/-- Names that the file of the structure uses. -/
def structNames : List String :=
  leafNames ++ ["bitwire", "std", "rust_decimal", "chrono", "String", "Vec", "Box", "Option",
    "NullBitset", "bitset", "deserialize_in_place"]

theorem uses_structParts :
    allAmong structNames
      (wordsOf [structType (.ofSchema holderSchema)] ++
        wordsOf (writeStep (.bitset 1 [("maybe", 1)])) ++ lineWords overwriteHead) = true := by
  simp only [structNames, leafNames, structType, StructCodec.fields_ofSchema,
    StructCodec.lowerField, holderSchema, Primitive.all, wordsOf_plainBlock, wordsOf_line,
    wordsOf_nil, fieldType, kindType, optionType, enclose, primitiveType, Option.isSome_none,
    Option.isSome_some, Bool.false_eq_true, if_true, if_false, writeStep, overwriteHead, allAmong,
    List.map, List.cons_append, List.nil_append]
  simp (disch := rfl) only [toList_of_eq, lineWords_eq, tokensOf_text, tokensOf_ident, tokensOf_nil]
  decide

/-- Names that the file of an enumeration uses. -/
def enumNames : List String :=
  ["derive", "Debug", "Clone", "Copy", "PartialEq", "Eq", "Hash", "PartialOrd", "Ord", "Default",
    "allow", "unused_imports", "repr", "default", "FIXED_SIZE", "usize", "Some", "size",
    "serialize", "deserialize", "buf", "cursor", "Ok", "Err", "value", "enum_name"]

theorem uses_enumModule :
    allAmong enumNames (wordsOf (enumModule (.ofDecl (unitEnum "Choice")))) = true := by
  simp only [enumNames, enumModule, Enumeration.ofDecl, unitEnum, modulePrelude, fileHeader,
    serializeHead, deserializeHead, variantLines, variantArms, Schema.IntRepr.name,
    wordsOf_plainBlock, wordsOf_line, wordsOf_blank, wordsOf_nil, allAmong, List.map,
    List.cons_append, List.nil_append]
  simp (disch := rfl) only [toList_of_eq, lineWords_eq, tokensOf_text, tokensOf_ident, tokensOf_nil]
  decide

/-- Names that the dispatch table uses. -/
def tableNames : List String :=
  ["type_name", "Sized", "Registered", "str", "TAG", "NAME", "into_any", "from_any", "AnyValue",
    "Result", "From", "from", "other", "unreachable_patterns", "tag_of", "T", "tag_of_name", "name",
    "None", "type_name_of", "tag", "NULL_TAG", "size_of", "serialize_typed", "deserialize_by_tag",
    "deserialize_as", "actual", "expected"]

theorem uses_tableParts (enums : List String) :
    allAmong tableNames
      (wordsOf (anyValueType ⟨[holderEntry], enums⟩) ++ wordsOf registeredTrait ++
        wordsOf (registeredImpl holderEntry) ++ wordsOf (tagFunctions ⟨[holderEntry], enums⟩) ++
        wordsOf (writeFunctions ⟨[holderEntry], enums⟩) ++
        wordsOf (readFunctions ⟨[holderEntry], enums⟩)) = true := by
  simp only [tableNames, anyValueType, matchAny, List.isEmpty_cons, Bool.false_eq_true, if_false,
    registeredTrait, registeredImpl, tagFunctions, impossibleArm, writeFunctions, readFunctions,
    holderEntry, TableEntry.ident, TableEntry.const, TableEntry.literal, wordsOf_plainBlock,
    wordsOf_block, wordsOf_line, wordsOf_blank, wordsOf_doc, wordsOf_nil, allAmong, List.map,
    List.cons_append, List.nil_append]
  simp (disch := rfl) only [toList_of_eq, lineWords_eq, tokensOf_text, tokensOf_ident, tokensOf_nil]
  decide

variable {word : List Char}

/-- The parts are those of the structure's file. -/
theorem mem_structModule_of_parts
    (h : word ∈ wordsOf [structType (.ofSchema holderSchema)] ++
      wordsOf (writeStep (.bitset 1 [("maybe", 1)])) ++ lineWords overwriteHead) :
    word ∈ wordsOf (structModule (.ofSchema holderSchema)) := by
  have hstep : Step.bitset 1 [("maybe", 1)] ∈ (StructCode.ofSchema holderSchema).steps := by decide
  rw [List.mem_append, List.mem_append] at h
  rw [mem_wordsOf]
  rcases h with (htype | hwrite) | hhead
  · exact ⟨structType (.ofSchema holderSchema), by simp [structModule], htype⟩
  · refine ⟨structEncoder (.ofSchema holderSchema), by simp [structModule], ?_⟩
    have hsteps : word ∈ wordsOf (stepsBody writeStep (.ofSchema holderSchema)) := by
      rw [stepsBody, wordsOf_append, wordsOf_append, wordsOf_flatMap, List.append_assoc]
      exact List.mem_append_left _ (List.mem_flatMap.mpr ⟨_, hstep, hwrite⟩)
    simp [structEncoder, wordsOf_plainBlock, wordsOf_append, wordsOf_blank, hsteps]
  · refine ⟨structDecoder (.ofSchema holderSchema), by simp [structModule], ?_⟩
    simp [structDecoder, wordsOf_plainBlock, wordsOf_blank, hhead]

/-- The parts are those of the dispatch table. -/
theorem mem_dispatchModule_of_parts {enums : List String}
    (h : word ∈ wordsOf (anyValueType ⟨[holderEntry], enums⟩) ++ wordsOf registeredTrait ++
      wordsOf (registeredImpl holderEntry) ++ wordsOf (tagFunctions ⟨[holderEntry], enums⟩) ++
      wordsOf (writeFunctions ⟨[holderEntry], enums⟩) ++
      wordsOf (readFunctions ⟨[holderEntry], enums⟩)) :
    word ∈ wordsOf (dispatchModule ⟨[holderEntry], enums⟩) := by
  simp only [List.mem_append] at h
  rcases h with ((((hpart | hpart) | hpart) | hpart) | hpart) | hpart
  all_goals exact wordsOf_subset (fun code hcode => by simp [dispatchModule, hcode]) hpart

/-- The listing uses the module of the dispatch table, and a constant of its own. -/
theorem uses_listingModule (table : Table) :
    ∀ name ∈ ["dispatch", "REGISTERED_TYPES"], name.toList ∈ wordsOf (listingModule table) := by
  have hdispatch : "dispatch".toList ∈ wordsOf [.line ["pub mod dispatch;"]] := by decide
  have hconst : "REGISTERED_TYPES".toList ∈
      wordsOf [.line ["pub const REGISTERED_TYPES: &[(u8, &str)] = &["]] := by decide
  refine List.forall_mem_cons.mpr ⟨?_, List.forall_mem_singleton.mpr ?_⟩
  · exact wordsOf_subset (by simp [listingModule]) hdispatch
  · exact wordsOf_subset (by simp [listingModule]) hconst

/-- **Every name of the templates is used** by one of the sources. -/
theorem uses_templateNames (typeName : String) (h : name ∈ templateNames) :
    ∃ source ∈ sourcesOf (loweredWith typeName), name.toList ∈ wordsOf source := by
  have hall : allAmong templateNames ((structNames ++ enumNames ++ tableNames ++
      ["dispatch", "REGISTERED_TYPES"]).map String.toList) = true := by
    simp (disch := rfl) only [allAmong, templateNames, structNames, enumNames, tableNames,
      leafNames, rootNames, reservedNames, openNames, capitalNames, smallNames, List.map,
      List.cons_append, List.nil_append, toList_of_eq]
    decide
  obtain ⟨other, hother, heq⟩ := List.mem_map.mp (mem_of_allAmong hall name h)
  rw [String.toList_injective heq, List.mem_append, List.mem_append, List.mem_append] at hother
  have hsources : sourcesOf (loweredWith typeName) =
      [enumModule (.ofDecl (unitEnum typeName)), structModule (.ofSchema holderSchema),
        enumModule (.ofDecl (unitEnum "Choice")),
        dispatchModule ⟨[holderEntry], [typeName, "Choice"]⟩,
        listingModule ⟨[holderEntry], [typeName, "Choice"]⟩] := by
    rw [← tableOf_loweredWith]
    rfl
  rw [hsources]
  rcases hother with ((hname | hname) | hname) | hname
  · exact ⟨_, by simp, mem_structModule_of_parts (mem_of_allAmong uses_structParts name hname)⟩
  · exact ⟨_, by simp, mem_of_allAmong uses_enumModule name hname⟩
  · exact ⟨dispatchModule ⟨[holderEntry], [typeName, "Choice"]⟩, by simp,
      mem_dispatchModule_of_parts (mem_of_allAmong (uses_tableParts _) name hname)⟩
  · exact ⟨listingModule ⟨[holderEntry], [typeName, "Choice"]⟩, by simp,
      uses_listingModule _ name hname⟩

end

/-! ## 3. What declarations can be called -/

/-- The names of the templates that an accepted type can have. -/
def typeClashes : List String := rootNames ++ openNames ++ capitalNames ++ smallNames

/-- The names of the templates that the module of an accepted type can have. -/
def moduleClashes : List String := leafNames ++ rootNames ++ smallNames

/-- Types with these modules, in the same order. -/
def moduleTypes : List String :=
  ["Bool", "U8", "I8", "U16", "I16", "U32", "I32", "U64", "I64", "U128", "I128", "F32", "F64",
    "Char", "Uuid", "Ulid"] ++ rootNames ++ smallNames

section

variable {name : String}

theorem isIdentifier_of_all {names : List String}
    (h : ((names.map String.toList).all fun word =>
      word.head?.any Schema.isIdentStart && word.all Schema.isIdentChar) = true) :
    ∀ name ∈ names, isIdentifier name = true := by
  intro name hname
  have hword := List.all_eq_true.mp h _ (List.mem_map_of_mem hname)
  rw [Bool.and_eq_true] at hword
  obtain ⟨c, hc, hstart⟩ := (Option.any_eq_true _ _).mp hword.1
  obtain ⟨rest, htext⟩ := List.head?_eq_some_iff.mp hc
  rw [htext, List.all_cons, Bool.and_eq_true] at hword
  exact Schema.isIdentifier_of_toList htext hstart (List.all_eq_true.mp hword.2.2)

theorem isRustIdent_templateNames : ∀ name ∈ templateNames, isRustIdent name = true := by
  have hidentifiers : ∀ name ∈ templateNames, isIdentifier name = true := by
    refine isIdentifier_of_all ?_
    simp (disch := rfl) only [templateNames, leafNames, rootNames, reservedNames, openNames,
      capitalNames, smallNames, List.map, List.cons_append, List.nil_append, toList_of_eq]
    decide
  have hkeywords : ((templateNames.map String.toList).all fun word =>
      !(("_" :: rustKeywords).map String.toList).contains word) = true := by
    simp (disch := rfl) only [templateNames, leafNames, rootNames, reservedNames, openNames,
      capitalNames, smallNames, rustKeywords, List.map, List.cons_append, List.nil_append,
      toList_of_eq]
    decide
  intro name hname
  have hkeyword : name ∉ "_" :: rustKeywords := by
    intro hmem
    have hword := List.all_eq_true.mp hkeywords _ (List.mem_map_of_mem hname)
    rw [Bool.not_eq_true', ← Bool.not_eq_true, List.contains_iff_mem] at hword
    exact hword (List.mem_map_of_mem hmem)
  rw [List.mem_cons, not_or] at hkeyword
  exact (isRustIdent_iff (hidentifiers name hname)).mpr ⟨hkeyword.2, hkeyword.1⟩

/-- **Types may be called by all these names**, and their files are new. -/
theorem isTypeName_of_mem (h : name ∈ typeClashes ++ moduleTypes) :
    IsTypeName name ∧ moduleName name ∉ otherStems := by
  have hidentifiers : ∀ name ∈ typeClashes ++ moduleTypes, isIdentifier name = true := by
    refine isIdentifier_of_all ?_
    simp (disch := rfl) only [typeClashes, moduleTypes, rootNames, openNames, capitalNames,
      smallNames, List.map, List.cons_append, List.nil_append, toList_of_eq]
    decide
  have hreserved : ∀ name ∈ typeClashes ++ moduleTypes, name ∉ Schema.reservedTypeNames := by decide
  have hleaves : ∀ name ∈ typeClashes ++ moduleTypes, Primitive.ofName? name = none := by decide
  have hmodules : (((typeClashes ++ moduleTypes).map String.toList).all fun word =>
      !(otherStems.map String.toList).contains (snakeChars none word)) = true := by
    simp (disch := rfl) only [typeClashes, moduleTypes, rootNames, openNames, capitalNames,
      smallNames, otherStems, List.map, List.cons_append, List.nil_append, toList_of_eq]
    decide
  refine ⟨⟨hidentifiers name h, hreserved name h, hleaves name h⟩, fun hmem => ?_⟩
  have hword := List.all_eq_true.mp hmodules _ (List.mem_map_of_mem h)
  rw [Bool.not_eq_true', ← Bool.not_eq_true, List.contains_iff_mem] at hword
  refine hword (List.mem_map.mpr ⟨_, hmem, ?_⟩)
  rw [moduleName, String.toList_ofList]

theorem map_moduleName : moduleTypes.map moduleName = moduleClashes := by
  have hchars : (moduleTypes.map String.toList).map (snakeChars none) =
      moduleClashes.map String.toList := by
    simp (disch := rfl) only [moduleTypes, moduleClashes, leafNames, rootNames, smallNames,
      List.map, List.cons_append, List.nil_append, toList_of_eq]
    decide
  have hnames := congrArg (List.map String.ofList) hchars
  simp only [List.map_map, Function.comp_def, String.ofList_toList, List.map_id'] at hnames
  exact hnames

/-- A schema can have a type of any such name, and then uses every name of the templates. -/
theorem exists_generates {typeName : String} (htype : typeName ∈ typeClashes ++ moduleTypes)
    (hname : name ∈ templateNames) :
    ∃ decls source, Generates decls source ∧ name ∈ usedNames source ∧
      ∃ decl ∈ decls, decl.name = typeName := by
  obtain ⟨hfree, hmodule⟩ := isTypeName_of_mem htype
  obtain ⟨source, hsource, hword⟩ := uses_templateNames typeName hname
  exact ⟨schemaWith typeName, source,
    generates_iff.mpr ⟨_, lowerAll_schemaWith hfree hmodule, hsource⟩,
    mem_usedNames.mpr ⟨hword, isRustIdent_templateNames name hname⟩, _, List.mem_cons_self, rfl⟩

/-- Types of accepted schemas have free names, and none has the file of the dispatch table. -/
theorem isTypeName_of_generates {decls : List TypeDecl} {source : List Code}
    (h : Generates decls source) {decl : TypeDecl} (hdecl : decl ∈ decls) :
    IsTypeName decl.name ∧ fileStem decl.name ≠ "dispatch" := by
  obtain ⟨lowered, hlowered, -⟩ := generates_iff.mp h
  obtain ⟨known, tags, last, hknown, hnames, -, -⟩ := lowerAll_eq_ok_iff.mp hlowered
  refine ⟨(KnownTypes.ofDecls_eq_ok_iff.mp hknown).1 decl hdecl, fun heq => ?_⟩
  have hnodup := nodup_fileNames_iff.mp (checkGeneratedNames_eq_ok_iff.mp hnames).1
  rw [List.nodup_cons, List.nodup_cons] at hnodup
  exact hnodup.2.1 (heq ▸ List.mem_map_of_mem hdecl)

/-- What is no type's name among the names of the templates is reserved, the name of a leaf type, or
taken by the dispatch table. -/
theorem mem_typeClashes (h : name ∈ templateNames) (htype : IsTypeName name)
    (hstem : fileStem name ≠ "dispatch") : name ∈ typeClashes := by
  have hleaves : ∀ name ∈ leafNames, Primitive.ofName? name ≠ none := by decide
  have hreserved : ∀ name ∈ reservedNames, name ∈ Schema.reservedTypeNames := by decide
  have hdispatch : fileStem "dispatch" = "dispatch" := by decide
  simp only [templateNames, List.mem_append, List.mem_singleton] at h
  simp only [typeClashes, List.mem_append]
  rcases h with (((((hleaf | hroot) | hres) | hopen) | rfl) | hcapital) | hsmall
  · exact absurd htype.notPrimitive (hleaves name hleaf)
  · exact .inl (.inl (.inl hroot))
  · exact absurd (hreserved name hres) htype.notReserved
  · exact .inl (.inl (.inr hopen))
  · exact absurd hdispatch hstem
  · exact .inl (.inr hcapital)
  · exact .inr hsmall

/-- Modules have no capitals, and are not called like the dispatch table. -/
theorem mem_moduleClashes {typeName : String} (htype : isIdentifier typeName = true)
    (hstem : fileStem typeName ≠ "dispatch") (h : moduleName typeName ∈ templateNames) :
    moduleName typeName ∈ moduleClashes := by
  have hcapitals : ∀ name ∈ reservedNames ++ openNames ++ capitalNames,
      name.toList.any Char.isUpper = true := by decide
  have hlower : moduleName typeName ∉ reservedNames ++ openNames ++ capitalNames := by
    intro hmem
    obtain ⟨c, hc, hupper⟩ := List.any_eq_true.mp (hcapitals _ hmem)
    rw [not_isUpper_of_isModuleChar (isModuleChar_moduleName htype c hc)] at hupper
    cases hupper
  have hdispatch : moduleName typeName ≠ "dispatch" := by
    intro heq
    refine hstem ?_
    rw [fileStem_eq htype, heq, if_neg (by decide)]
  simp only [templateNames, List.mem_append, List.mem_singleton, not_or] at h hlower
  simp only [moduleClashes, List.mem_append]
  rcases h with (((((hleaf | hroot) | hres) | hopen) | hdisp) | hcapital) | hsmall
  · exact .inl (.inl hleaf)
  · exact .inl (.inr hroot)
  · exact absurd hres hlower.1.1
  · exact absurd hopen hlower.1.2
  · exact absurd hdisp hdispatch
  · exact absurd hcapital hlower.2
  · exact .inr hsmall

/-- **Which names of the templates declarations can have.**  A name that a generated source uses for
something else can be that of a declared type exactly if it is a crate or a built-in type that no
leaf type is called after, one of `Sized`, `From` and `NullBitset`, or the name of something that is
no type.  It can be that of a declared type's module exactly if it is any crate or built-in type, or
the name without capitals of something that is no type. -/
theorem captured_names_iff (name : String) :
    ((∃ decls source, Generates decls source ∧ name ∈ usedNames source ∧
        ∃ decl ∈ decls, decl.name = name) ↔ name ∈ typeClashes) ∧
      ((∃ decls source, Generates decls source ∧ name ∈ usedNames source ∧
        ∃ decl ∈ decls, moduleName decl.name = name) ↔ name ∈ moduleClashes) := by
  refine ⟨⟨?_, fun h => ?_⟩, ⟨?_, fun h => ?_⟩⟩
  · rintro ⟨decls, source, hgenerates, hused, decl, hdecl, rfl⟩
    obtain ⟨htype, hstem⟩ := isTypeName_of_generates hgenerates hdecl
    exact mem_typeClashes (mem_templateNames_of_used hgenerates hused) htype hstem
  · refine exists_generates (List.mem_append_left _ h) ?_
    simp only [typeClashes, List.mem_append] at h
    simp only [templateNames, List.mem_append]
    tauto
  · rintro ⟨decls, source, hgenerates, hused, decl, hdecl, rfl⟩
    obtain ⟨htype, hstem⟩ := isTypeName_of_generates hgenerates hdecl
    exact mem_moduleClashes htype.identifier hstem (mem_templateNames_of_used hgenerates hused)
  · have hname : name ∈ templateNames := by
      simp only [moduleClashes, List.mem_append] at h
      simp only [templateNames, List.mem_append]
      tauto
    obtain ⟨typeName, htype, rfl⟩ := List.mem_map.mp (map_moduleName ▸ h)
    obtain ⟨decls, source, hgenerates, hused, decl, hdecl, heq⟩ :=
      exists_generates (List.mem_append_right _ htype) hname
    exact ⟨decls, source, hgenerates, hused, decl, hdecl, heq ▸ rfl⟩

/-- A structure `usize` is accepted, and its own file measures values in `usize`. -/
theorem captured_usize :
    ∃ source, Generates [emptyStruct "usize"] source ∧ "usize" ∈ usedNames source ∧
      (emptyStruct "usize").name = "usize" := by
  have hlowered : lowerAll [emptyStruct "usize"] = .ok [.struct (.ofSchema ⟨"usize", 1, []⟩)] := rfl
  have hword : "usize".toList ∈ lineWords ["fn size(&self) -> usize"] := by decide
  have hencoder : "usize".toList ∈ wordsOf [structEncoder (.ofSchema ⟨"usize", 1, []⟩)] := by
    simp only [structEncoder, wordsOf_plainBlock, wordsOf_append, List.mem_append, hword, true_or,
      or_true]
  have hfile : "usize".toList ∈ wordsOf (structModule (.ofSchema ⟨"usize", 1, []⟩)) :=
    wordsOf_subset (by simp [structModule]) hencoder
  exact ⟨_, generates_iff.mpr ⟨_, hlowered, List.mem_cons_self⟩,
    mem_usedNames.mpr ⟨hfile, by decide⟩, rfl⟩

end

end Wireform.Emit
