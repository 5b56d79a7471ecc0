import Wireform.Proofs.Layout
import Wireform.Proofs.Listing

/-!
# The identifiers in generated sources

What stands in a source for a declared name is marked in its lines (`Piece.ident`), so the
identifiers that a file writes can be told from all other text: they are listed for each kind of file,
and a name is among them exactly if it stands for a declared one (`written_iff`).

Escaping makes a legal identifier of every name but a lone underscore (`isRustIdent_identOf_iff`), and
modules, fields and variants are escaped; a tag constant needs no escaping.  The names of types are
written as they were declared.  So what is written is legal exactly if no type is called by a keyword
and nothing by a lone underscore (`forall_written_isRustIdent_iff`).
-/
namespace Wireform.Emit

open Schema (FieldPlan Kind KnownTypes Step StructCode StructDecl TagRegistry TypeDecl TypeSchema
  isIdentifier structures)

/-! ## 1. Legal identifiers -/

/-- The keywords of Rust, of all editions: those in use, and those that are reserved. -/
def rustKeywords : List String :=
  ["as", "async", "await", "break", "const", "continue", "crate", "dyn", "else", "enum", "extern",
    "false", "fn", "for", "if", "impl", "in", "let", "loop", "match", "mod", "move", "mut", "pub",
    "ref", "return", "self", "Self", "static", "struct", "super", "trait", "true", "type", "unsafe",
    "use", "where", "while"] ++
  ["abstract", "become", "box", "do", "final", "gen", "macro", "override", "priv", "try", "typeof",
    "unsized", "virtual", "yield"]

/-- Whether a text is a legal identifier of Rust: a plain one is no keyword, a raw one is none of those
that lead paths, and none is a lone underscore. -/
def isRustIdent (text : String) : Bool :=
  match text.toList with
  | 'r' :: '#' :: name =>
    isIdentifier (String.ofList name) &&
      !(["_", "crate", "self", "Self", "super"].contains (String.ofList name))
  | _ => isIdentifier text && !rustKeywords.contains text && text != "_"

/-- An identifier of the schema is legal unless it is a keyword or a lone underscore. -/
theorem isRustIdent_iff {name : String} (h : isIdentifier name = true) :
    isRustIdent name = true ↔ name ∉ rustKeywords ∧ name ≠ "_" := by
  have hplain : isRustIdent name =
      (isIdentifier name && !rustKeywords.contains name && name != "_") := by
    unfold isRustIdent
    split
    · next rest htext =>
      have hhash := forall_isIdentChar h '#' (by simp [htext])
      exact absurd hhash (by decide)
    · rfl
  simp [hplain, h]

/-- With the mark of a raw identifier, an identifier is legal unless it has no raw form. -/
theorem isRustIdent_raw_iff {name : String} (h : isIdentifier name = true) :
    isRustIdent ("r#" ++ name) = true ↔ name ∉ ["_", "crate", "self", "Self", "super"] := by
  have htext : ("r#" ++ name).toList = 'r' :: '#' :: name.toList := String.toList_append
  unfold isRustIdent
  rw [htext]
  simp [h]

/-- The keywords that are escaped are all that there are. -/
theorem mem_rustKeywords_iff {name : String} :
    name ∈ rustKeywords ↔ name ∈ pathKeywords ∨ name ∈ keywords := by
  have hescaped : ∀ name ∈ rustKeywords, name ∈ pathKeywords ∨ name ∈ keywords := by decide
  have hpath : ∀ name ∈ pathKeywords, name ∈ rustKeywords := by decide
  have hraw : ∀ name ∈ keywords, name ∈ rustKeywords := by decide
  exact ⟨hescaped name, fun h => h.elim (hpath name) (hraw name)⟩

/-- **What escaping gives is legal**, except for a lone underscore, which it leaves as it is. -/
theorem isRustIdent_identOf_iff {name : String} (h : isIdentifier name = true) :
    isRustIdent (identOf name) = true ↔ name ≠ "_" := by
  unfold identOf
  simp only [List.contains_iff_mem]
  split
  · next hmem =>
    have hpath : ∀ name ∈ pathKeywords, isRustIdent (name ++ "_") = true ∧ name ≠ "_" := by decide
    exact iff_of_true (hpath name hmem).1 (hpath name hmem).2
  · next hnotPath =>
    split
    · next hmem =>
      have hraw : ∀ name ∈ keywords, name ∉ ["_", "crate", "self", "Self", "super"] := by decide
      have hunderscore : "_" ∉ keywords := by decide
      have hlegal := (isRustIdent_raw_iff h).mpr (hraw name hmem)
      exact iff_of_true hlegal fun heq => hunderscore (heq ▸ hmem)
    · next hnotRaw =>
      have hnone : name ∉ rustKeywords := by simp [mem_rustKeywords_iff, hnotPath, hnotRaw]
      simp [isRustIdent_iff h, hnone]

/-- **Tag constants are legal**: they end as no keyword does. -/
theorem isRustIdent_tagConst {name : String} (h : isIdentifier name = true) :
    isRustIdent (tagConst name) = true := by
  have hlast : (tagConst name).toList.getLast? = some 'G' := by simp [tagConst]
  have hkeywords : ∀ keyword ∈ "_" :: rustKeywords, keyword.toList.getLast? ≠ some 'G' := by decide
  rw [isRustIdent_iff (isIdentifier_tagConst h)]
  exact ⟨fun hmem => hkeywords _ (List.mem_cons_of_mem _ hmem) hlast,
    fun heq => hkeywords "_" List.mem_cons_self (heq ▸ hlast)⟩

/-! ## 2. The identifiers in a file -/

section

variable {name : String} {α : Type}

theorem ident_mem_piecesAll {file : List Code} :
    .ident name ∈ Code.piecesAll file ↔ name ∈ declaredIdents file := by
  unfold declaredIdents
  rw [List.mem_filterMap]
  constructor
  · exact fun h => ⟨_, h, rfl⟩
  · rintro ⟨piece, hpiece, hname⟩
    cases piece with
    | text s => cases hname
    | ident s =>
      cases hname
      exact hpiece

theorem mem_declaredIdents {file : List Code} :
    name ∈ declaredIdents file ↔ ∃ code ∈ file, .ident name ∈ code.pieces := by
  rw [← ident_mem_piecesAll]
  induction file with
  | nil => simp [Code.piecesAll]
  | cons code file ih => simp [Code.piecesAll, ih]

@[simp]
theorem mem_declaredIdents_nil : name ∉ declaredIdents [] := by simp [mem_declaredIdents]

@[simp]
theorem mem_declaredIdents_cons {code : Code} {file : List Code} :
    name ∈ declaredIdents (code :: file) ↔ .ident name ∈ code.pieces ∨ name ∈ declaredIdents file := by
  simp [mem_declaredIdents]

@[simp]
theorem mem_declaredIdents_append {file rest : List Code} :
    name ∈ declaredIdents (file ++ rest) ↔ name ∈ declaredIdents file ∨ name ∈ declaredIdents rest := by
  simp [mem_declaredIdents, or_and_right, exists_or]

@[simp]
theorem mem_declaredIdents_map {f : α → Code} {l : List α} :
    name ∈ declaredIdents (l.map f) ↔ ∃ a ∈ l, .ident name ∈ (f a).pieces := by
  simp [mem_declaredIdents]

@[simp]
theorem mem_declaredIdents_flatMap {f : α → List Code} {l : List α} :
    name ∈ declaredIdents (l.flatMap f) ↔ ∃ a ∈ l, name ∈ declaredIdents (f a) := by
  simp only [mem_declaredIdents, List.mem_flatMap]
  exact ⟨fun ⟨code, ⟨a, ha, hcode⟩, hname⟩ => ⟨a, ha, code, hcode, hname⟩,
    fun ⟨a, ha, code, hcode, hname⟩ => ⟨code, ⟨a, ha, hcode⟩, hname⟩⟩

@[simp]
theorem ident_mem_line {pieces : List Piece} :
    .ident name ∈ (Code.line pieces).pieces ↔ .ident name ∈ pieces := by
  rw [Code.pieces]

@[simp]
theorem ident_mem_block {header : List Piece} {suffix : String} {body : List Code} :
    .ident name ∈ (Code.block header suffix body).pieces ↔
      .ident name ∈ header ∨ name ∈ declaredIdents body := by
  rw [Code.pieces, List.mem_append, ident_mem_piecesAll]

@[simp]
theorem ident_mem_plainBlock {header : List Piece} {body : List Code} :
    .ident name ∈ (Code.plainBlock header body).pieces ↔
      .ident name ∈ header ∨ name ∈ declaredIdents body :=
  ident_mem_block

@[simp]
theorem ident_mem_blockElse {header : List Piece} {body otherwise : List Code} :
    .ident name ∈ (Code.blockElse header body otherwise).pieces ↔
      .ident name ∈ header ∨ name ∈ declaredIdents body ∨ name ∈ declaredIdents otherwise := by
  rw [Code.pieces, List.mem_append, List.mem_append, ident_mem_piecesAll, ident_mem_piecesAll, or_assoc]

@[simp]
theorem ident_mem_blank : .ident name ∉ Code.blank.pieces := by simp [Code.blank]

@[simp]
theorem ident_mem_doc {text : String} : .ident name ∉ (Code.doc text).pieces := by
  unfold Code.doc
  split <;> simp

@[simp]
theorem mem_declaredIdents_fileHeader : name ∉ declaredIdents fileHeader := by
  simp [fileHeader]

@[simp]
theorem mem_declaredIdents_modulePrelude : name ∉ declaredIdents modulePrelude := by
  simp [modulePrelude]

/-- **The listing writes the modules and the names of all types.** -/
theorem mem_declaredIdents_listingModule {table : Table} :
    name ∈ declaredIdents (listingModule table) ↔
      ∃ type ∈ table.names, name = identOf (moduleName type) ∨ name = type := by
  have hmodules : (∃ entry ∈ table.modules, name = identOf entry.1 ∨ name = entry.2) ↔
      ∃ type ∈ table.names, name = identOf (moduleName type) ∨ name = type := by
    simp [(modules_perm table).mem_iff]
  rw [← hmodules]
  simp only [listingModule, TableEntry.literal, mem_declaredIdents_append, mem_declaredIdents_cons,
    mem_declaredIdents_nil, mem_declaredIdents_map, mem_declaredIdents_fileHeader, ident_mem_blank,
    ident_mem_doc, ident_mem_line, List.mem_cons, List.not_mem_nil, reduceCtorEq, Piece.ident.injEq,
    or_false, false_or]
  grind

/-! ### The dispatch table -/

@[simp]
theorem mem_declaredIdents_matchAny {table : Table} {arm : TableEntry → List Piece} :
    name ∈ declaredIdents (matchAny table arm) ↔ ∃ entry ∈ table.entries, .ident name ∈ arm entry := by
  unfold matchAny
  cases htable : table.entries with
  | nil => simp
  | cons entry entries => simp

@[simp]
theorem mem_declaredIdents_impossibleArm {table : Table} :
    name ∉ declaredIdents (impossibleArm table) := by
  unfold impossibleArm
  split <;> simp

@[simp]
theorem mem_declaredIdents_anyValueType {table : Table} :
    name ∈ declaredIdents (anyValueType table) ↔
      ∃ entry ∈ table.entries, name = entry.name ∨ name = tagConst entry.name := by
  simp only [anyValueType, mem_declaredIdents_cons, mem_declaredIdents_nil, mem_declaredIdents_map,
    mem_declaredIdents_matchAny, ident_mem_doc, ident_mem_blank, ident_mem_line, ident_mem_plainBlock,
    TableEntry.ident, TableEntry.const, TableEntry.literal, List.mem_cons, List.not_mem_nil,
    Piece.ident.injEq, reduceCtorEq, or_false, false_or, ← exists_or, ← and_or_left]
  refine exists_congr fun entry => and_congr_right fun _ => ?_
  grind

@[simp]
theorem mem_declaredIdents_registeredTrait : name ∉ declaredIdents registeredTrait := by
  simp [registeredTrait]

@[simp]
theorem mem_declaredIdents_registeredImpl {entry : TableEntry} :
    name ∈ declaredIdents (registeredImpl entry) ↔ name = entry.name ∨ name = tagConst entry.name := by
  simp only [registeredImpl, TableEntry.ident, TableEntry.const, TableEntry.literal,
    mem_declaredIdents_cons, mem_declaredIdents_nil, ident_mem_blank, ident_mem_plainBlock,
    ident_mem_line, List.mem_cons, List.not_mem_nil, reduceCtorEq, Piece.ident.injEq, or_false,
    false_or]
  grind

@[simp]
theorem mem_declaredIdents_tagFunctions {table : Table} :
    name ∈ declaredIdents (tagFunctions table) ↔
      ∃ entry ∈ table.entries, name = tagConst entry.name := by
  simp [tagFunctions, TableEntry.const, TableEntry.literal]

@[simp]
theorem mem_declaredIdents_writeFunctions {table : Table} :
    name ∈ declaredIdents (writeFunctions table) ↔
      ∃ entry ∈ table.entries, name = entry.name ∨ name = tagConst entry.name := by
  simp only [writeFunctions, TableEntry.ident, TableEntry.const, mem_declaredIdents_append,
    mem_declaredIdents_cons, mem_declaredIdents_nil, mem_declaredIdents_map,
    mem_declaredIdents_impossibleArm, ident_mem_blank, ident_mem_doc, ident_mem_plainBlock,
    ident_mem_line, List.mem_cons, List.not_mem_nil, reduceCtorEq, Piece.ident.injEq, or_false,
    false_or]
  grind

@[simp]
theorem mem_declaredIdents_readFunctions {table : Table} :
    name ∈ declaredIdents (readFunctions table) ↔
      ∃ entry ∈ table.entries, name = entry.name ∨ name = tagConst entry.name := by
  simp only [readFunctions, TableEntry.ident, TableEntry.const, mem_declaredIdents_append,
    mem_declaredIdents_cons, mem_declaredIdents_nil, mem_declaredIdents_map, ident_mem_blank,
    ident_mem_doc, ident_mem_block, ident_mem_plainBlock, ident_mem_line, List.mem_cons,
    List.not_mem_nil, reduceCtorEq, Piece.ident.injEq, or_false, false_or]
  grind

/-- **The dispatch table writes the names of the structures and their tag constants.** -/
theorem mem_declaredIdents_dispatchModule {table : Table} :
    name ∈ declaredIdents (dispatchModule table) ↔
      ∃ entry ∈ table.entries, name = entry.name ∨ name = tagConst entry.name := by
  simp only [dispatchModule, TableEntry.const, mem_declaredIdents_append, mem_declaredIdents_cons,
    mem_declaredIdents_nil, mem_declaredIdents_map, mem_declaredIdents_flatMap,
    mem_declaredIdents_modulePrelude, mem_declaredIdents_anyValueType,
    mem_declaredIdents_registeredTrait, mem_declaredIdents_registeredImpl,
    mem_declaredIdents_tagFunctions, mem_declaredIdents_writeFunctions,
    mem_declaredIdents_readFunctions, ident_mem_blank, ident_mem_doc, ident_mem_line, List.mem_cons,
    List.not_mem_nil, reduceCtorEq, Piece.ident.injEq, or_false, false_or]
  grind

@[simp]
theorem mem_declaredIdents_variantLines {variants : List Variant} :
    name ∈ declaredIdents (variantLines variants) ↔
      ∃ variant ∈ variants, name = identOf variant.name := by
  cases variants with
  | nil => simp [variantLines]
  | cons first rest => simp [variantLines]

theorem mem_declaredIdents_enumModule {e : Enumeration} :
    name ∈ declaredIdents (enumModule e) ↔
      name = e.name ∨ ∃ variant ∈ e.variants, name = identOf variant.name := by
  simp [enumModule, serializeHead, deserializeHead, variantArms]

/-! ### The file of a structure -/

@[simp]
theorem ident_mem_enclose {before behind : String} {type : List Piece} :
    .ident name ∈ enclose before type behind ↔ .ident name ∈ type := by
  simp [enclose]

@[simp]
theorem ident_mem_optionType {nullable : Bool} {type : List Piece} :
    .ident name ∈ optionType nullable type ↔ .ident name ∈ type := by
  cases nullable <;> simp [optionType]

/-- The identifiers in a type are the declared types in the kind. -/
@[simp]
theorem ident_mem_kindType {kind : Kind} : .ident name ∈ kindType kind ↔ name ∈ kind.names := by
  induction kind with
  | primitive p => simp [kindType, Kind.names]
  | «enum» type repr => simp [kindType, Kind.names]
  | nested type recursive => cases recursive <;> simp [kindType, Kind.names]
  | list element nullable ih => simp [kindType, Kind.names, ih]
  | array element nullable ih => simp [kindType, Kind.names, ih]
  | map key value nullable ihkey ihvalue =>
    simp [kindType, Kind.names, ihkey, ihvalue]

@[simp]
theorem ident_mem_joinPieces {separator : String} {lists : List (List Piece)} :
    .ident name ∈ joinPieces separator lists ↔ ∃ list ∈ lists, .ident name ∈ list := by
  induction lists with
  | nil => simp [joinPieces]
  | cons head rest ih =>
    cases rest with
    | nil => simp [joinPieces]
    | cons next rest =>
      rw [joinPieces, List.mem_append, List.mem_append, ih]
      · simp
      · simp

variable {schema : TypeSchema}

@[simp]
theorem ident_mem_structType :
    .ident name ∈ (structType (.ofSchema schema)).pieces ↔ name = schema.name ∨
      ∃ field ∈ schema.fields, name = identOf field.name ∨ name ∈ field.kind.names := by
  simp only [structType, fieldType, StructCodec.fields_ofSchema, StructCodec.lowerField, List.map_map,
    Function.comp_apply, mem_declaredIdents_map, ident_mem_plainBlock, ident_mem_line,
    ident_mem_enclose, ident_mem_optionType, ident_mem_kindType, List.mem_cons, List.not_mem_nil,
    reduceCtorEq, Piece.ident.injEq, or_false, false_or]
  exact Iff.rfl

theorem of_mem_stepsBody {statements : Step → List Code}
    (hbitset : ∀ bytes slots, name ∈ declaredIdents (statements (.bitset bytes slots)) →
      ∃ slot ∈ slots, name = identOf slot.1)
    (hfield : ∀ field kind slot, name ∈ declaredIdents (statements (.field field kind slot)) →
      name = identOf field)
    (h : name ∈ declaredIdents (stepsBody statements (.ofSchema schema))) :
    ∃ field ∈ schema.fields, name = identOf field.name := by
  have hsteps : name ∈ declaredIdents ((StructCode.ofSchema schema).steps.flatMap statements) := by
    unfold stepsBody at h
    split at h <;> simpa using h
  obtain ⟨step, hstep, hname⟩ := mem_declaredIdents_flatMap.mp hsteps
  rcases List.mem_append.mp hstep with hmem | hmem
  · split at hmem
    · rw [List.mem_singleton.mp hmem] at hname
      obtain ⟨slot, hslot, hname⟩ := hbitset _ _ hname
      obtain ⟨field, hfield, hslot⟩ := List.mem_filterMap.mp hslot
      obtain ⟨_, -, rfl⟩ := Option.map_eq_some_iff.mp hslot
      exact ⟨field, hfield, hname⟩
    · cases hmem
  · obtain ⟨plan, hplan, rfl⟩ := List.mem_map.mp hmem
    exact ⟨plan, hplan, hfield _ _ _ hname⟩

theorem of_mem_writeSteps (h : name ∈ declaredIdents (stepsBody writeStep (.ofSchema schema))) :
    ∃ field ∈ schema.fields, name = identOf field.name := by
  refine of_mem_stepsBody (fun bytes slots hname => ?_) (fun field kind slot hname => ?_) h
  · simpa [writeStep] using hname
  · cases slot <;> simpa [writeStep] using hname

theorem of_mem_readSteps (h : name ∈ declaredIdents (stepsBody readStep (.ofSchema schema))) :
    ∃ field ∈ schema.fields, name = identOf field.name := by
  refine of_mem_stepsBody (fun bytes slots hname => ?_) (fun field kind slot hname => ?_) h
  · simp [readStep] at hname
  · cases slot <;> simpa [readStep] using hname

theorem of_mem_fixedSizeConst (h : name ∈ declaredIdents (fixedSizeConst (.ofSchema schema))) :
    ∃ field ∈ schema.fields, name ∈ field.kind.names := by
  simpa [fixedSizeConst, StructCodec.fields_ofSchema, StructCodec.lowerField] using h

theorem of_mem_plainSizeBody (h : name ∈ declaredIdents (plainSizeBody (.ofSchema schema))) :
    ∃ field ∈ schema.fields, name = identOf field.name := by
  simp only [plainSizeBody, mem_declaredIdents_cons, mem_declaredIdents_nil] at h
  split at h
  · simp at h
  · simpa [StructCodec.fields_ofSchema, StructCodec.lowerField] using h

theorem of_mem_nullableSizeBody (h : name ∈ declaredIdents (nullableSizeBody (.ofSchema schema))) :
    ∃ field ∈ schema.fields, name = identOf field.name := by
  simp only [nullableSizeBody, StructCodec.fields_ofSchema, mem_declaredIdents_append,
    mem_declaredIdents_map, List.mem_map] at h
  rcases h with (hhead | ⟨_, ⟨field, hfield, rfl⟩, hname⟩) | hlast
  · simp at hhead
  · refine ⟨field, hfield, ?_⟩
    cases hslot : field.slot.isSome <;> simpa [StructCodec.lowerField, hslot] using hname
  · simp at hlast

/-- The encoder writes the identifiers of the type only. -/
theorem of_ident_mem_structEncoder (h : .ident name ∈ (structEncoder (.ofSchema schema)).pieces) :
    name = schema.name ∨
      ∃ field ∈ schema.fields, name = identOf field.name ∨ name ∈ field.kind.names := by
  have hmember : (∃ field ∈ schema.fields, name = identOf field.name) →
      ∃ field ∈ schema.fields, name = identOf field.name ∨ name ∈ field.kind.names :=
    fun ⟨field, hfield, hname⟩ => ⟨field, hfield, .inl hname⟩
  simp only [structEncoder, serializeHead, mem_declaredIdents_append, mem_declaredIdents_cons,
    mem_declaredIdents_nil, ident_mem_blank, ident_mem_plainBlock, List.mem_cons, List.not_mem_nil,
    reduceCtorEq, Piece.ident.injEq, or_false, false_or] at h
  rcases h with hname | hsizes | hsize | hsteps
  · exact .inl hname
  · split at hsizes
    · obtain ⟨field, hfield, hname⟩ := of_mem_fixedSizeConst hsizes
      exact .inr ⟨field, hfield, .inr hname⟩
    · exact absurd hsizes mem_declaredIdents_nil
  · split at hsize
    · exact .inr (hmember (of_mem_plainSizeBody hsize))
    · exact .inr (hmember (of_mem_nullableSizeBody hsize))
  · exact .inr (hmember (of_mem_writeSteps hsteps))

/-- So does the decoder. -/
theorem of_ident_mem_structDecoder (h : .ident name ∈ (structDecoder (.ofSchema schema)).pieces) :
    name = schema.name ∨
      ∃ field ∈ schema.fields, name = identOf field.name ∨ name ∈ field.kind.names := by
  simp only [structDecoder, deserializeHead, overwriteHead, mem_declaredIdents_cons,
    mem_declaredIdents_nil, ident_mem_blank, ident_mem_plainBlock, ident_mem_line, List.mem_cons,
    List.not_mem_nil, reduceCtorEq, Piece.ident.injEq, or_false, false_or] at h
  rcases h with hname | hsteps
  · exact .inl hname
  · obtain ⟨field, hfield, hname⟩ := of_mem_readSteps hsteps
    exact .inr ⟨field, hfield, .inl hname⟩

/-- **The file of a structure writes its name, its fields and the declared types in them.** -/
theorem mem_declaredIdents_structModule :
    name ∈ declaredIdents (structModule (.ofSchema schema)) ↔ name = schema.name ∨
      ∃ field ∈ schema.fields, name = identOf field.name ∨ name ∈ field.kind.names := by
  simp only [structModule, mem_declaredIdents_append, mem_declaredIdents_cons, mem_declaredIdents_nil,
    mem_declaredIdents_modulePrelude, ident_mem_blank, ident_mem_doc, ident_mem_line,
    ident_mem_structType, List.mem_cons, List.not_mem_nil, reduceCtorEq, or_false, false_or]
  constructor
  · rintro (htype | hencoder | hdecoder)
    · exact htype
    · exact of_ident_mem_structEncoder hencoder
    · exact of_ident_mem_structDecoder hdecoder
  · exact .inl

end

/-! ## 3. The identifiers of a run -/

/-- The source of a lowered type. -/
def LoweredType.source : LoweredType → List Code
  | .struct code => structModule code
  | .enum e => enumModule e

/-- The sources of all files. -/
def sourcesOf (lowered : List LoweredType) : List (List Code) :=
  lowered.map LoweredType.source ++
    [dispatchModule (tableOf lowered), listingModule (tableOf lowered)]

/-- Files have the texts of their sources. -/
theorem contents_artifactsOf (lowered : List LoweredType) :
    (artifactsOf lowered).map Artifact.contents = (sourcesOf lowered).map fileText := by
  have htypes : ∀ type : LoweredType, type.artifact.contents = fileText type.source := by
    intro type
    cases type <;> rfl
  unfold artifactsOf sourcesOf
  simp only [List.map_append, List.map_map, Function.comp_def, htypes, List.map_cons, List.map_nil]

/-- The names of the fields of a structure, or of the variants of an enumeration. -/
def memberNames : TypeDecl → List String
  | .struct decl => decl.fields.map Schema.FieldDecl.name
  | .enum decl => decl.variants.map Schema.VariantDecl.name

/-- What is written for a declared name: types are called as they are declared, and modules, fields and
variants are escaped. -/
inductive Written (decls : List TypeDecl) : String → Prop where
  | type {decl : TypeDecl} (hdecl : decl ∈ decls) : Written decls decl.name
  | module {decl : TypeDecl} (hdecl : decl ∈ decls) : Written decls (identOf (moduleName decl.name))
  | member {decl : TypeDecl} {name : String} (hdecl : decl ∈ decls) (hname : name ∈ memberNames decl) :
    Written decls (identOf name)
  | const {decl : StructDecl} (hdecl : decl ∈ structures decls) :
    Written decls (tagConst decl.name)

section

variable {known : KnownTypes} {tags last : TagRegistry String} {decls : List TypeDecl}
  {lowered : List LoweredType} {name : String}

theorem mem_names_tableOf (h : Lowers known tags decls lowered last) :
    name ∈ (tableOf lowered).names ↔ ∃ decl ∈ decls, decl.name = name := by
  rw [h.names_perm.mem_iff, List.mem_map]

theorem mem_entries_tableOf (h : Lowers known tags decls lowered last) :
    (∃ entry ∈ (tableOf lowered).entries, entry.name = name) ↔
      ∃ decl ∈ structures decls, decl.name = name := by
  rw [← List.mem_map, ← List.mem_map, ← h.map_name, entries_tableOf]
  exact ((List.mergeSort_perm _ _).map _).mem_iff

/-- What is written in the file of a type is written for a declared name. -/
theorem written_of_mem_source (hknown : known.Describes decls)
    (h : Lowers known tags decls lowered last) {type : LoweredType} (htype : type ∈ lowered)
    (hname : name ∈ declaredIdents type.source) : Written decls name := by
  cases type with
  | struct code =>
    obtain ⟨decl, hdecl, tag, schema, hschema, rfl⟩ := h.exists_decl htype
    have hstruct := Schema.mem_structures.mp hdecl
    have htypeName : schema.name = decl.name := name_of_analyze hschema
    have hfields : schema.fields.map FieldPlan.name = memberNames (.struct decl) :=
      (Schema.plannedFrom_of_analyze hschema).names
    rcases mem_declaredIdents_structModule.mp hname with rfl | ⟨field, hfield, rfl | hkind⟩
    · exact htypeName ▸ .type hstruct
    · exact .member hstruct (hfields ▸ List.mem_map_of_mem hfield)
    · obtain ⟨entry, hentry⟩ :=
        ((Schema.plannedFrom_of_analyze hschema).knownIn field hfield).names name hkind
      obtain ⟨other, hother, rfl, -⟩ := hknown.get?_eq_some_iff.mp hentry
      exact .type hother
  | «enum» e =>
    obtain ⟨decl, hdecl, rfl⟩ := h.exists_enum htype
    rcases mem_declaredIdents_enumModule.mp hname with rfl | ⟨variant, hvariant, rfl⟩
    · exact .type hdecl
    · obtain ⟨declared, hdeclared, rfl⟩ := List.mem_map.mp hvariant
      exact .member hdecl (List.mem_map_of_mem hdeclared)

/-- **What is written is written for a declared name, and everything that can be is.** -/
theorem written_iff (hknown : known.Describes decls) (h : Lowers known tags decls lowered last) :
    (∃ source ∈ sourcesOf lowered, name ∈ declaredIdents source) ↔ Written decls name := by
  have hdispatch : dispatchModule (tableOf lowered) ∈ sourcesOf lowered :=
    List.mem_append_right _ List.mem_cons_self
  have hlisting : listingModule (tableOf lowered) ∈ sourcesOf lowered :=
    List.mem_append_right _ (List.mem_cons_of_mem _ List.mem_cons_self)
  constructor
  · rintro ⟨source, hsource, hname⟩
    rcases List.mem_append.mp hsource with htypes | hshared
    · obtain ⟨type, htype, rfl⟩ := List.mem_map.mp htypes
      exact written_of_mem_source hknown h htype hname
    · simp only [List.mem_cons, List.not_mem_nil, or_false] at hshared
      rcases hshared with rfl | rfl
      · obtain ⟨entry, hentry, hname⟩ := mem_declaredIdents_dispatchModule.mp hname
        obtain ⟨decl, hdecl, heq⟩ := (mem_entries_tableOf h).mp ⟨entry, hentry, rfl⟩
        rcases hname with rfl | rfl
        · exact heq ▸ .type (Schema.mem_structures.mp hdecl)
        · exact heq ▸ .const hdecl
      · obtain ⟨type, htype, hname⟩ := mem_declaredIdents_listingModule.mp hname
        obtain ⟨decl, hdecl, rfl⟩ := (mem_names_tableOf h).mp htype
        rcases hname with rfl | rfl
        · exact .module hdecl
        · exact .type hdecl
  · intro hwritten
    cases hwritten with
    | @type decl hdecl =>
      exact ⟨_, hlisting, mem_declaredIdents_listingModule.mpr
        ⟨decl.name, (mem_names_tableOf h).mpr ⟨decl, hdecl, rfl⟩, .inr rfl⟩⟩
    | @module decl hdecl =>
      exact ⟨_, hlisting, mem_declaredIdents_listingModule.mpr
        ⟨decl.name, (mem_names_tableOf h).mpr ⟨decl, hdecl, rfl⟩, .inl rfl⟩⟩
    | @member decl name hdecl hname =>
      cases decl with
      | struct decl =>
        obtain ⟨tag, schema, hschema, hcode⟩ := h.exists_code (Schema.mem_structures.mpr hdecl)
        have hfields : schema.fields.map FieldPlan.name = memberNames (.struct decl) :=
          (Schema.plannedFrom_of_analyze hschema).names
        rw [← hfields] at hname
        obtain ⟨field, hfield, rfl⟩ := List.mem_map.mp hname
        exact ⟨_, List.mem_append_left _ (List.mem_map_of_mem hcode),
          mem_declaredIdents_structModule.mpr (.inr ⟨field, hfield, .inl rfl⟩)⟩
      | «enum» decl =>
        obtain ⟨variant, hvariant, rfl⟩ := List.mem_map.mp hname
        exact ⟨_, List.mem_append_left _ (List.mem_map_of_mem (h.mem_enum hdecl).2),
          mem_declaredIdents_enumModule.mpr (.inr ⟨_, List.mem_map_of_mem hvariant, rfl⟩)⟩
    | @const decl hdecl =>
      obtain ⟨entry, hentry, heq⟩ := (mem_entries_tableOf h).mpr ⟨decl, hdecl, rfl⟩
      exact ⟨_, hdispatch, mem_declaredIdents_dispatchModule.mpr ⟨entry, hentry, .inr (heq ▸ rfl)⟩⟩

/-- The variants of a valid enumeration have identifiers for names. -/
theorem isIdentifier_of_foldlM_checkVariant {decl : Schema.EnumDecl}
    {variants : List Schema.VariantDecl} {seen final : Std.HashSet String × Std.HashSet Int}
    (h : variants.foldlM (Schema.checkVariant decl) seen = .ok final) :
    ∀ variant ∈ variants, isIdentifier variant.name = true := by
  induction variants generalizing seen with
  | nil => exact fun _ hmem => absurd hmem List.not_mem_nil
  | cons variant variants ih =>
    rw [List.foldlM_cons] at h
    obtain ⟨next, hnext, hrest⟩ := Schema.bind_eq_ok h
    obtain ⟨_, hname, -⟩ := Schema.bind_eq_ok hnext
    exact List.forall_mem_cons.mpr ⟨Schema.checkName_eq_ok_iff.mp hname, ih hrest⟩

theorem isIdentifier_of_validateEnum {decl : Schema.EnumDecl} (h : Schema.validateEnum decl = .ok ()) :
    ∀ variant ∈ decl.variants, isIdentifier variant.name = true := by
  unfold Schema.validateEnum at h
  split at h
  · cases h
  · obtain ⟨_, hfold, -⟩ := Schema.bind_eq_ok h
    exact isIdentifier_of_foldlM_checkVariant hfold

/-- Fields and variants that are accepted have identifiers for names. -/
theorem isIdentifier_of_mem_memberNames (h : Lowers known tags decls lowered last) {decl : TypeDecl}
    (hdecl : decl ∈ decls) : ∀ name ∈ memberNames decl, isIdentifier name = true := by
  cases decl with
  | struct decl =>
    obtain ⟨tag, schema, hschema, -⟩ := h.exists_code (Schema.mem_structures.mpr hdecl)
    rw [eq_mk_of_analyze hschema] at hschema
    exact List.forall_mem_map.mpr (Schema.analyze_eq_ok_iff.mp hschema).2.1
  | «enum» decl =>
    exact List.forall_mem_map.mpr (isIdentifier_of_validateEnum (h.mem_enum hdecl).1)

/-- What is written is legal exactly if no type is called by a keyword, and nothing by a lone
underscore. -/
theorem forall_written_isRustIdent_iff (htypes : ∀ decl ∈ decls, isIdentifier decl.name = true)
    (hmembers : ∀ decl ∈ decls, ∀ name ∈ memberNames decl, isIdentifier name = true) :
    (∀ name, Written decls name → isRustIdent name = true) ↔
      ∀ decl ∈ decls, decl.name ∉ rustKeywords ∧ decl.name ≠ "_" ∧ "_" ∉ memberNames decl := by
  constructor
  · intro hlegal decl hdecl
    obtain ⟨hkeyword, hunderscore⟩ := (isRustIdent_iff (htypes decl hdecl)).mp (hlegal _ (.type hdecl))
    refine ⟨hkeyword, hunderscore, fun hmem => ?_⟩
    exact (isRustIdent_identOf_iff (hmembers decl hdecl _ hmem)).mp (hlegal _ (.member hdecl hmem)) rfl
  · intro hall name hwritten
    cases hwritten with
    | @type decl hdecl =>
      exact (isRustIdent_iff (htypes decl hdecl)).mpr ⟨(hall decl hdecl).1, (hall decl hdecl).2.1⟩
    | @module decl hdecl =>
      have hidentifier := htypes decl hdecl
      rw [isRustIdent_identOf_iff (isIdentifier_moduleName hidentifier), Ne,
        moduleName_eq_underscore_iff hidentifier]
      exact (hall decl hdecl).2.1
    | @member decl name hdecl hname =>
      refine (isRustIdent_identOf_iff (hmembers decl hdecl name hname)).mpr ?_
      rintro rfl
      exact (hall decl hdecl).2.2 hname
    | @const decl hdecl => exact isRustIdent_tagConst (htypes _ (Schema.mem_structures.mp hdecl))

end

/-- The listing has a line that brings in each declared type, under the name of its declaration. -/
theorem exists_import {decls : List TypeDecl} {artifacts : List Artifact}
    (h : render decls = .ok artifacts) {decl : TypeDecl} (hdecl : decl ∈ decls) :
    ∃ listing ∈ artifacts, listing.fileName = listingFile ∧
      (lineText ["pub use ", .ident (identOf (moduleName decl.name)), "::", .ident decl.name,
        ";"]).toList ∈ linesOf listing.contents := by
  obtain ⟨lowered, hlowered, rfl⟩ := render_eq_ok_iff.mp h
  obtain ⟨known, tags, last, hknown, -, -, hlowers⟩ := lowerAll_eq_ok_iff.mp hlowered
  have hmodule : (moduleName decl.name, decl.name) ∈ (tableOf lowered).modules :=
    (modules_perm _).mem_iff.mpr
      (List.mem_map_of_mem ((mem_names_tableOf hlowers).mpr ⟨decl, hdecl, rfl⟩))
  have hline : Code.line ["pub use ", .ident (identOf (moduleName decl.name)), "::",
      .ident decl.name, ";"] ∈ listingModule (tableOf lowered) := by
    unfold listingModule
    simp only [List.mem_append]
    exact .inl (.inl (.inl (.inr (List.mem_map_of_mem hmodule))))
  refine ⟨_, listing_mem_artifactsOf lowered, rfl, ?_⟩
  rw [linesOf_listing (hlowers.isIdentifier_of_mem_names hknown)]
  exact List.mem_append_left _ (List.mem_map.mpr ⟨_, hline, rfl⟩)

/-- **Of what is written for declared names, all is legal exactly if no type is called by a keyword, and
no type, field or variant by a lone underscore.** -/
theorem declared_idents_legal_iff {decls : List TypeDecl} {artifacts : List Artifact}
    (h : render decls = .ok artifacts) :
    ∃ lowered, lowerAll decls = .ok lowered ∧
      artifacts.map Artifact.contents = (sourcesOf lowered).map fileText ∧
      (∀ name, (∃ source ∈ sourcesOf lowered, name ∈ declaredIdents source) ↔ Written decls name) ∧
      ((∀ source ∈ sourcesOf lowered, ∀ name ∈ declaredIdents source, isRustIdent name = true) ↔
        ∀ decl ∈ decls, decl.name ∉ rustKeywords ∧ decl.name ≠ "_" ∧ "_" ∉ memberNames decl) := by
  obtain ⟨lowered, hlowered, rfl⟩ := render_eq_ok_iff.mp h
  obtain ⟨known, tags, last, hknown, -, -, hlowers⟩ := lowerAll_eq_ok_iff.mp hlowered
  have htypes := (KnownTypes.ofDecls_eq_ok_iff.mp hknown).1
  have hwritten : ∀ name, (∃ source ∈ sourcesOf lowered, name ∈ declaredIdents source) ↔
      Written decls name := fun name => written_iff (KnownTypes.describes_of_ofDecls hknown) hlowers
  refine ⟨lowered, hlowered, contents_artifactsOf lowered, hwritten, ?_⟩
  rw [← forall_written_isRustIdent_iff (fun decl hdecl => (htypes decl hdecl).identifier)
    fun decl hdecl => isIdentifier_of_mem_memberNames hlowers hdecl]
  exact ⟨fun hlegal name hname => by
      obtain ⟨source, hsource, hmem⟩ := (hwritten name).mpr hname
      exact hlegal source hsource name hmem,
    fun hlegal source hsource name hmem => hlegal name ((hwritten name).mp ⟨source, hsource, hmem⟩)⟩

/-- A structure whose fields are called by keywords, with and without a raw form. -/
def typeStruct : TypeDecl :=
  .struct ⟨"Type", none, [⟨"self", .primitive .u8⟩, ⟨"match", .primitive .u8⟩]⟩

theorem render_typeStruct : ∃ artifacts, render [typeStruct] = .ok artifacts := by
  have hknown : KnownTypes.ofDecls [typeStruct] =
    .ok ⟨[("Type", .struct [.primitive .u8, .primitive .u8])]⟩ := rfl
  have hnames : checkGeneratedNames [typeStruct] = .ok () := rfl
  have hschema : Schema.analyze ⟨"Type", none, [⟨"self", .primitive .u8⟩, ⟨"match", .primitive .u8⟩]⟩
      ⟨[("Type", .struct [.primitive .u8, .primitive .u8])]⟩ 1 =
        .ok ⟨"Type", 1, [⟨"self", .primitive .u8, none⟩, ⟨"match", .primitive .u8, none⟩]⟩ :=
    Schema.analyze_eq_ok_iff.mpr
      ⟨.always rfl rfl rfl (.always rfl rfl rfl .nil), by decide, by decide, by decide⟩
  exact ⟨_, render_eq_ok_iff.mpr
    ⟨_, lowerAll_eq_ok_iff.mpr ⟨_, _, _, hknown, hnames, rfl, .struct rfl hschema .nil⟩, rfl⟩⟩

/-- Its fields and its module are escaped, and so everything is legal. -/
theorem declared_idents_legal_typeStruct :
    ∃ artifacts lowered, render [typeStruct] = .ok artifacts ∧ lowerAll [typeStruct] = .ok lowered ∧
      (∃ source ∈ sourcesOf lowered, "self_" ∈ declaredIdents source) ∧
      (∃ source ∈ sourcesOf lowered, "r#match" ∈ declaredIdents source) ∧
      (∃ source ∈ sourcesOf lowered, "r#type" ∈ declaredIdents source) ∧
        ∀ source ∈ sourcesOf lowered, ∀ name ∈ declaredIdents source, isRustIdent name = true := by
  obtain ⟨artifacts, h⟩ := render_typeStruct
  obtain ⟨lowered, hlowered, -, hwritten, hlegal⟩ := declared_idents_legal_iff h
  have hself : Written [typeStruct] (identOf "self") := .member List.mem_cons_self (by decide)
  have hmatch : Written [typeStruct] (identOf "match") := .member List.mem_cons_self (by decide)
  have hmodule : Written [typeStruct] (identOf (moduleName typeStruct.name)) :=
    .module List.mem_cons_self
  have hescaped : identOf "self" = "self_" ∧ identOf "match" = "r#match" ∧
      identOf (moduleName typeStruct.name) = "r#type" := by decide
  rw [hescaped.1] at hself
  rw [hescaped.2.1] at hmatch
  rw [hescaped.2.2] at hmodule
  exact ⟨artifacts, lowered, h, hlowered, (hwritten _).mpr hself, (hwritten _).mpr hmatch,
    (hwritten _).mpr hmodule, hlegal.mpr (by decide)⟩

/-- A structure `type` is accepted, and called so without the mark that its module has. -/
theorem bare_keyword_type :
    ∃ artifacts, render [emptyStruct "type"] = .ok artifacts ∧
      ∃ listing ∈ artifacts, listing.fileName = listingFile ∧
        "pub use r#type::type;".toList ∈ linesOf listing.contents ∧ isRustIdent "type" = false := by
  have hlowered : lowerAll [emptyStruct "type"] = .ok [.struct (.ofSchema ⟨"type", 1, []⟩)] := rfl
  have hrender := render_eq_ok_iff.mpr ⟨_, hlowered, rfl⟩
  have hmem : emptyStruct "type" ∈ [emptyStruct "type"] := List.mem_cons_self
  obtain ⟨listing, hlisting, hname, hline⟩ := exists_import hrender hmem
  have htext : lineText ["pub use ", .ident (identOf (moduleName (emptyStruct "type").name)), "::",
      .ident (emptyStruct "type").name, ";"] = "pub use r#type::type;" := by decide
  rw [htext] at hline
  exact ⟨_, hrender, listing, hlisting, hname, hline, by decide⟩

end Wireform.Emit
