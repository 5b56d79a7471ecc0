import Wireform.Proofs.Paths
import Wireform.Proofs.Spelled

/-!
# The names in the listing

The listing is a file of lines: it declares one module for each file, and brings in the types from
them.  What a text declares and brings in is said of the text alone (`declaredModules`,
`importedNames`), by the beginning and the end of its lines; so the listing is read back from the text
that is written (`declaredModules_listing`, `importedNames_listing`).

Its modules are the dispatch table's and those of all types, each once, since no two files have one
name.  With the types the listing is another matter.  Files are compared with files and types with
types, but a module and a type stand in one namespace, and a type whose name is in lower case has
itself as its module.  The names of the listing differ exactly if no declared type has such a name
(`nodup_namesOfListing_iff`).
-/
namespace Wireform.Emit

open Files (IsSingle)
open Schema (KnownTypes TagRegistry TypeDecl isIdentChar isIdentifier structures)

/-! ## 1. The lines of a file -/

/-- The lines of a text. -/
def linesOf (text : String) : List (List Char) := text.toList.splitOnP (· == '\n')

/-- The text of a line. -/
def Code.text : Code → List Char
  | .line pieces => (lineText pieces).toList
  | _ => []

/-- Whether code is a single line of text. -/
def Code.isLine : Code → Bool
  | .line pieces => !(lineText pieces).toList.contains '\n'
  | _ => false

theorem isLine_line_iff {pieces : List Piece} :
    (Code.line pieces).isLine = true ↔ '\n' ∉ (lineText pieces).toList := by
  simp [Code.isLine]

theorem toList_fileText_cons (pieces : List Piece) (rest : List Code) :
    (fileText (.line pieces :: rest)).toList =
      (lineText pieces).toList ++ '\n' :: (fileText rest).toList := by
  unfold fileText
  rw [Code.renderAll, Code.render, Code.renderLine, String.toList_append]
  split
  · next hempty => simp [String.isEmpty_iff.mp hempty]
  · simp [String.join]

/-- **A file of lines has their texts in its lines**, and behind the last line feed there is nothing. -/
theorem linesOf_fileText {file : List Code} (h : ∀ code ∈ file, code.isLine = true) :
    linesOf (fileText file) = file.map Code.text ++ [[]] := by
  induction file with
  | nil => rfl
  | cons code file ih =>
    rw [List.forall_mem_cons] at h
    obtain ⟨hline, hrest⟩ := h
    cases code with
    | line pieces =>
      have hnone : ∀ c ∈ (lineText pieces).toList, (c == '\n') = false := by
        intro c hc
        rw [beq_eq_false_iff_ne]
        rintro rfl
        exact isLine_line_iff.mp hline hc
      unfold linesOf at ih ⊢
      rw [toList_fileText_cons, List.splitOnP_append_cons _ _ rfl, ih hrest,
        List.splitOnP_eq_singleton hnone]
      rfl
    | block header suffix body => cases hline
    | blockElse header body otherwise => cases hline

/-! ## 2. Statements -/

/-- What stands in a line between its beginning and the semicolon at its end. -/
def statement? (beginning : String) (line : List Char) : Option (List Char) :=
  if beginning.toList.isPrefixOf line && line.getLast? == some ';' then
    some ((line.drop beginning.toList.length).dropLast)
  else none

/-- The module that a line declares, without the mark of a raw identifier. -/
def moduleOf? (line : List Char) : Option String :=
  (statement? "pub mod " line).map fun module => String.ofList (dropRawMarks module)

/-- The modules that a text declares. -/
def declaredModules (text : String) : List String := (linesOf text).filterMap moduleOf?

/-- The names at the end of a path: the last one, or those between braces. -/
def pathEnds (path : List Char) : List String :=
  let last := (path.splitOnP (· == ':')).getLastD []
  ((last.splitOnP fun c => !isIdentChar c).filter fun name => !name.isEmpty).map String.ofList

/-- The names that a line brings in from a module. -/
def importsOf (line : List Char) : List String :=
  ((statement? "pub use " line).map pathEnds).getD []

/-- The names that a text brings in from modules. -/
def importedNames (text : String) : List String := (linesOf text).flatMap importsOf

example : declaredModules "pub mod dispatch;\npub mod r#type;\npub use r#type::Type;\n" =
    ["dispatch", "type"] := by decide

example : importedNames "pub use dispatch::{AnyValue, Registered};\npub use r#type::Type;\n" =
    ["AnyValue", "Registered", "Type"] := by decide

theorem statement?_append (beginning : String) (inner : List Char) :
    statement? beginning (beginning.toList ++ (inner ++ [';'])) = some inner := by
  unfold statement?
  rw [if_pos (by simp), List.drop_left, List.dropLast_concat]

/-- A path from a module to a name ends with the name. -/
theorem pathEnds_append {module name : List Char} (hmodule : ':' ∉ module) (hname : name ≠ [])
    (hchars : ∀ c ∈ name, isIdentChar c = true) :
    pathEnds (module ++ ':' :: ':' :: name) = [String.ofList name] := by
  have hmodule : ∀ c ∈ module, (c == ':') = false := by
    intro c hc
    rw [beq_eq_false_iff_ne]
    rintro rfl
    exact hmodule hc
  have hcolon : ∀ c ∈ name, (c == ':') = false := by
    intro c hc
    rw [beq_eq_false_iff_ne]
    rintro rfl
    exact absurd (hchars _ hc) (by decide)
  have hlast : (module ++ ':' :: ':' :: name).splitOnP (· == ':') = [module, [], name] := by
    rw [List.splitOnP_append_cons _ _ rfl, List.splitOnP_eq_singleton hmodule,
      ← List.nil_append (':' :: name), List.splitOnP_append_cons _ _ rfl,
      List.splitOnP_eq_singleton hcolon]
    rfl
  have hwhole : name.splitOnP (fun c => !isIdentChar c) = [name] :=
    List.splitOnP_eq_singleton fun c hc => by rw [hchars c hc]; rfl
  unfold pathEnds
  rw [hlast]
  dsimp only [List.getLastD]
  simp [hwhole, hname]

/-- A character that neither the name has nor what escapes it is not in the identifier. -/
theorem not_mem_identOf {c : Char} {name : String} (h : c ∉ name.toList) (hescape : c ∉ ['_', 'r', '#']) :
    c ∉ (identOf name).toList := by
  simp only [List.mem_cons, List.not_mem_nil, or_false, not_or] at hescape
  obtain ⟨hunderscore, hr, hhash⟩ := hescape
  unfold identOf
  split
  · simp [h, hunderscore]
  · split
    · simp [h, hr, hhash]
    · exact h

/-- What can stand in no module's name and escapes nothing is not in a module's identifier. -/
theorem not_mem_identOf_moduleName {c : Char} {name : String} (h : isIdentifier name = true)
    (hchar : isModuleChar c = false) (hhash : c ≠ '#') : c ∉ (identOf (moduleName name)).toList := by
  refine not_mem_identOf (fun hmem => ?_) ?_
  · rw [isModuleChar_moduleName h c hmem] at hchar
    exact Bool.noConfusion hchar
  · simp only [List.mem_cons, List.not_mem_nil, or_false, not_or]
    refine ⟨?_, ?_, hhash⟩
    · rintro rfl
      exact absurd hchar (by decide)
    · rintro rfl
      exact absurd hchar (by decide)

/-! ## 3. The listing -/

theorem newline_not_mem_toDigits (n : Nat) : '\n' ∉ Nat.toDigits 10 n := by
  intro hmem
  exact absurd (Nat.isDigit_of_mem_toDigits (by decide) (by decide) hmem) (by decide)

section

variable {table : Table}

/-- A name in the table is an identifier. -/
theorem isIdentifier_of_mem_modules (hnames : ∀ name ∈ table.names, isIdentifier name = true)
    {entry : String × String} (hentry : entry ∈ table.modules) :
    entry.1 = moduleName entry.2 ∧ isIdentifier entry.2 = true := by
  obtain ⟨name, hname, rfl⟩ := List.mem_map.mp ((modules_perm table).mem_iff.mp hentry)
  exact ⟨rfl, hnames name hname⟩

/-- **The listing is a file of lines.** -/
theorem isLine_listingModule (hnames : ∀ name ∈ table.names, isIdentifier name = true) :
    ∀ code ∈ listingModule table, code.isLine = true := by
  have hident : ∀ {name : String}, isIdentifier name = true → '\n' ∉ name.toList :=
    fun h hmem => absurd (forall_isIdentChar h _ hmem) (by decide)
  have hmodule : ∀ {name : String}, isIdentifier name = true →
      '\n' ∉ (identOf (moduleName name)).toList :=
    fun h => not_mem_identOf_moduleName h (by decide) (by decide)
  have hentry : ∀ entry ∈ table.entries, '\n' ∉ entry.name.toList :=
    fun entry hentry => hident (hnames _ (List.mem_append_left _ (List.mem_map_of_mem hentry)))
  unfold listingModule
  simp only [List.forall_mem_append, List.forall_mem_map]
  refine ⟨⟨⟨⟨⟨⟨⟨by decide, by decide⟩, fun entry hmem => ?_⟩, by decide⟩, fun entry hmem => ?_⟩,
    by decide⟩, fun entry hmem => ?_⟩, by decide⟩
  · obtain ⟨hname, hidentifier⟩ := isIdentifier_of_mem_modules hnames hmem
    rw [isLine_line_iff, toList_lineText, hname]
    simp [Piece.toString, hmodule hidentifier]
  · obtain ⟨hname, hidentifier⟩ := isIdentifier_of_mem_modules hnames hmem
    rw [isLine_line_iff, toList_lineText, hname]
    simp [Piece.toString, hmodule hidentifier, hident hidentifier]
  · rw [isLine_line_iff, toList_lineText]
    simp [Piece.toString, TableEntry.literal, hentry entry hmem, newline_not_mem_toDigits]

/-- The lines of the listing. -/
theorem linesOf_listing (hnames : ∀ name ∈ table.names, isIdentifier name = true) :
    linesOf (fileText (listingModule table)) = (listingModule table).map Code.text ++ [[]] :=
  linesOf_fileText (isLine_listingModule hnames)

theorem text_module (module : String) :
    Code.text (.line ["pub mod ", .ident module, ";"]) =
      "pub mod ".toList ++ (module.toList ++ [';']) := by
  simp [Code.text, toList_lineText, Piece.toString]

theorem text_import (module name : String) :
    Code.text (.line ["pub use ", .ident module, "::", .ident name, ";"]) =
      "pub use ".toList ++ (module.toList ++ ':' :: ':' :: name.toList ++ [';']) := by
  simp [Code.text, toList_lineText, Piece.toString]

theorem text_entry (entry : TableEntry) :
    Code.text (.line ["    (", toString entry.tag, ", ", entry.literal, "),"]) =
      "    (".toList ++ ((toString entry.tag).toList ++
        (", ".toList ++ (entry.literal.toString.toList ++ "),".toList))) := by
  simp [Code.text, toList_lineText, Piece.toString]

/-- **The listing declares the dispatch table and the modules of all types.** -/
theorem declaredModules_listing (hnames : ∀ name ∈ table.names, isIdentifier name = true) :
    declaredModules (fileText (listingModule table)) =
      "dispatch" :: table.modules.map fun entry => fileStem entry.2 := by
  have hmodules : (table.modules.filterMap fun entry =>
      moduleOf? (Code.text (.line ["pub mod ", .ident (identOf entry.1), ";"]))) =
        table.modules.map fun entry => fileStem entry.2 := by
    rw [← List.filterMap_eq_map]
    refine List.filterMap_congr fun entry hentry => ?_
    rw [text_module, moduleOf?, statement?_append, (isIdentifier_of_mem_modules hnames hentry).1]
    rfl
  have himports : ∀ entry : String × String,
      moduleOf? (Code.text (.line ["pub use ", .ident (identOf entry.1), "::", .ident entry.2, ";"])) =
        none := by
    intro entry
    rw [text_import]
    rfl
  have hentries : ∀ entry : TableEntry,
      moduleOf? (Code.text (.line ["    (", toString entry.tag, ", ", entry.literal, "),"])) = none := by
    intro entry
    rw [text_entry]
    rfl
  unfold declaredModules
  rw [linesOf_listing hnames]
  unfold listingModule
  simp only [List.map_append, List.filterMap_append, List.map_map, List.filterMap_map,
    Function.comp_def, hmodules, himports, hentries, List.filterMap_none, List.append_assoc]
  -- No other line declares a module.
  exact congrArg (List.cons "dispatch") (List.append_nil _)

theorem importedNames_listing (hnames : ∀ name ∈ table.names, isIdentifier name = true) :
    importedNames (fileText (listingModule table)) =
      "AnyValue" :: "Registered" :: table.modules.map Prod.snd := by
  have hmodules : (table.modules.flatMap fun entry =>
      importsOf (Code.text (.line ["pub mod ", .ident (identOf entry.1), ";"]))) = [] := by
    refine List.flatMap_eq_nil_iff.mpr fun entry _ => ?_
    rw [text_module]
    rfl
  have himports : (table.modules.flatMap fun entry =>
      importsOf (Code.text (.line ["pub use ", .ident (identOf entry.1), "::", .ident entry.2, ";"]))) =
        table.modules.map Prod.snd := by
    rw [List.map_eq_flatMap]
    refine List.flatMap_congr fun entry hentry => ?_
    obtain ⟨hmodule, hname⟩ := isIdentifier_of_mem_modules hnames hentry
    have hcolon : ':' ∉ (identOf entry.1).toList :=
      hmodule ▸ not_mem_identOf_moduleName hname (by decide) (by decide)
    obtain ⟨c, rest, htext, -⟩ := Schema.exists_of_isIdentifier hname
    rw [text_import, importsOf, statement?_append, Option.map_some, Option.getD_some,
      pathEnds_append hcolon (by simp [htext]) (forall_isIdentChar hname), String.ofList_toList]
  have hentries : (table.entries.flatMap fun entry =>
      importsOf (Code.text (.line ["    (", toString entry.tag, ", ", entry.literal, "),"]))) = [] := by
    refine List.flatMap_eq_nil_iff.mpr fun entry _ => ?_
    rw [text_entry]
    rfl
  unfold importedNames
  rw [linesOf_listing hnames]
  unfold listingModule
  simp only [List.map_append, List.flatMap_append, List.map_map, List.flatMap_map,
    Function.comp_def, hmodules, himports, hentries, List.append_assoc]
  -- No other line brings a name in.
  exact congrArg (["AnyValue", "Registered"] ++ ·) (List.append_nil _)

end

/-! ## 4. The names of a run -/

/-- The names in the table of a run are identifiers. -/
theorem Lowers.isIdentifier_of_mem_names {known : KnownTypes} {tags last : TagRegistry String}
    {decls : List TypeDecl} {lowered : List LoweredType} (h : Lowers known tags decls lowered last)
    (hknown : KnownTypes.ofDecls decls = .ok known) :
    ∀ name ∈ (tableOf lowered).names, isIdentifier name = true := by
  intro name hname
  obtain ⟨decl, hdecl, rfl⟩ := List.mem_map.mp (h.names_perm.mem_iff.mp hname)
  exact ((KnownTypes.ofDecls_eq_ok_iff.mp hknown).1 decl hdecl).identifier

theorem listing_mem_artifactsOf (lowered : List LoweredType) :
    ⟨listingFile, fileText (listingModule (tableOf lowered)), false⟩ ∈ artifactsOf lowered :=
  List.mem_append_right _ (List.mem_cons_of_mem _ List.mem_cons_self)

/-- The listing among the files of a run, with the names that it declares and brings in. -/
theorem exists_listing {decls : List TypeDecl} {artifacts : List Artifact}
    (h : render decls = .ok artifacts) :
    ∃ listing ∈ artifacts, listing.fileName = listingFile ∧
      (declaredModules listing.contents).Perm
          ("dispatch" :: decls.map fun decl => fileStem decl.name) ∧
        (importedNames listing.contents).Perm
          ("AnyValue" :: "Registered" :: decls.map TypeDecl.name) := by
  obtain ⟨lowered, hlowered, rfl⟩ := render_eq_ok_iff.mp h
  obtain ⟨known, tags, last, hknown, -, -, hlowers⟩ := lowerAll_eq_ok_iff.mp hlowered
  have hnames := hlowers.isIdentifier_of_mem_names hknown
  have hmodules : (tableOf lowered).modules.Perm
      (decls.map fun decl => (moduleName decl.name, decl.name)) := by
    have hperm := (modules_perm (tableOf lowered)).trans (hlowers.names_perm.map _)
    rwa [List.map_map] at hperm
  refine ⟨_, listing_mem_artifactsOf lowered, rfl, ?_, ?_⟩
  · rw [declaredModules_listing hnames]
    have hstems := hmodules.map fun entry => fileStem entry.2
    rw [List.map_map] at hstems
    exact hstems.cons _
  · rw [importedNames_listing hnames]
    have himports := hmodules.map Prod.snd
    rw [List.map_map] at himports
    exact (himports.cons _).cons _

/-- **Files and tag constants never clash**: if declarations are rendered, their files have the names of
the declared types and the shared ones, all different even where case does not count, and all names of
sources in the output directory; the listing declares a module for every file but its own, each once;
and no two structures have one tag constant or that of null.  Nothing else is refused: generated
names fail their check exactly if two files have one name, or two constants. -/
theorem generated_names_apart (decls : List TypeDecl) :
    (∀ artifacts, render decls = .ok artifacts →
      artifacts.map Artifact.fileName =
          (decls.map fun decl => fileName decl.name) ++ [dispatchFile, listingFile] ∧
        (artifacts.map fun artifact => artifact.fileName.toLower).Nodup ∧
        (∀ artifact ∈ artifacts, IsSourceName artifact.fileName ∧ IsSingle artifact.fileName) ∧
        (∃ listing ∈ artifacts, listing.fileName = listingFile ∧
          (declaredModules listing.contents).Nodup ∧
          ((declaredModules listing.contents).map (· ++ ".rs")).Perm
            (dispatchFile :: (artifacts.filter Artifact.perType).map Artifact.fileName)) ∧
        (nullTagConst :: (structures decls).map fun decl => tagConst decl.name).Nodup) ∧
      ((∃ fault, checkGeneratedNames decls = .error fault) ↔
        ¬(fileNames decls).Nodup ∨ ¬(tagConsts decls).Nodup) := by
  constructor
  · intro artifacts h
    obtain ⟨hnodup, hsingle⟩ := names_of_render h
    have hsource := isSourceName_of_render h
    obtain ⟨lowered, hlowered, -⟩ := render_eq_ok_iff.mp h
    obtain ⟨known, tags, last, -, hnames, -, -⟩ := lowerAll_eq_ok_iff.mp hlowered
    obtain ⟨hfiles, hconsts⟩ := checkGeneratedNames_eq_ok_iff.mp hnames
    obtain ⟨listing, hlisting, hname, hmodules, -⟩ := exists_listing h
    refine ⟨fileNames_of_render h, ?_,
      fun artifact hmem => ⟨hsource artifact hmem, hsingle artifact hmem⟩,
      ⟨listing, hlisting, hname, ?_, ?_⟩, hconsts⟩
    · rwa [List.map_congr_left fun artifact hmem => (hsource artifact hmem).toLower]
    · exact hmodules.nodup_iff.mpr (nodup_fileNames_iff.mp hfiles).of_cons
    · rw [perType_of_render h]
      have hperm := hmodules.map (· ++ ".rs")
      rw [List.map_cons, List.map_map] at hperm
      exact hperm
  · rw [← not_and_or]
    rcases checkGeneratedNames_cases decls with ⟨hok, hnodup⟩ | ⟨hfault, htwice⟩
    · rw [hok]
      exact iff_of_false (fun h => by obtain ⟨_, h⟩ := h; cases h) (not_not_intro hnodup)
    · exact iff_of_true hfault htwice

/-- A structure without fields. -/
def emptyStruct (name : String) : TypeDecl := .struct ⟨name, none, []⟩

theorem render_super :
    ∃ artifacts, render [emptyStruct "Super", emptyStruct "Type"] = .ok artifacts := by
  have hlowered : lowerAll [emptyStruct "Super", emptyStruct "Type"] =
    .ok [.struct (.ofSchema ⟨"Super", 1, []⟩), .struct (.ofSchema ⟨"Type", 2, []⟩)] := rfl
  exact ⟨_, render_eq_ok_iff.mpr ⟨_, hlowered, rfl⟩⟩

/-- `Super` and `Type` have files beside the shared ones; two servers that differ in case have one. -/
theorem generated_names_apart_super :
    (∃ artifacts, render [emptyStruct "Super", emptyStruct "Type"] = .ok artifacts ∧
      artifacts.map Artifact.fileName = ["super_.rs", "type.rs", "dispatch.rs", "mod.rs"] ∧
      ["NULL_TAG", "SUPER_TAG", "TYPE_TAG"].Nodup) ∧
    ∃ fault, checkGeneratedNames [emptyStruct "HTTPServer", emptyStruct "HttpServer"] = .error fault := by
  obtain ⟨artifacts, h⟩ := render_super
  obtain ⟨hfiles, -, -, -, hconsts⟩ := (generated_names_apart _).1 artifacts h
  have hnames : ([emptyStruct "Super", emptyStruct "Type"].map fun decl => fileName decl.name) ++
      [dispatchFile, listingFile] = ["super_.rs", "type.rs", "dispatch.rs", "mod.rs"] := by decide
  have htags : (nullTagConst :: (structures [emptyStruct "Super", emptyStruct "Type"]).map
      fun decl => tagConst decl.name) = ["NULL_TAG", "SUPER_TAG", "TYPE_TAG"] := by decide
  have hsame : ¬(fileNames [emptyStruct "HTTPServer", emptyStruct "HttpServer"]).Nodup := by
    decide +kernel
  rw [hnames] at hfiles
  rw [htags] at hconsts
  exact ⟨⟨artifacts, h, hfiles, hconsts⟩, (generated_names_apart _).2.mpr (.inl hsame)⟩

/-! ## 5. Modules beside types -/

/-- The names that a text brings into its namespace of types: the modules that it declares, and what
it brings in from modules. -/
def typeNames (text : String) : List String := declaredModules text ++ importedNames text

/-- What the listing brings in differs, since two of the names are reserved. -/
theorem nodup_imports {decls : List TypeDecl} {known : KnownTypes}
    (hknown : KnownTypes.ofDecls decls = .ok known) :
    ("AnyValue" :: "Registered" :: decls.map TypeDecl.name).Nodup := by
  obtain ⟨htypes, hnodup, -⟩ := KnownTypes.ofDecls_eq_ok_iff.mp hknown
  have hreserved : ∀ name ∈ decls.map TypeDecl.name, name ∉ Schema.reservedTypeNames :=
    List.forall_mem_map.mpr fun decl hdecl => (htypes decl hdecl).notReserved
  refine List.nodup_cons.mpr ⟨fun hmem => ?_, List.nodup_cons.mpr ⟨fun hmem => ?_, hnodup⟩⟩
  · rcases List.mem_cons.mp hmem with heq | hmem
    · exact absurd heq (by decide)
    · exact hreserved _ hmem (by decide)
  · exact hreserved _ hmem (by decide)

/-- The modules and the types in a listing differ exactly if no type's name is that of a file.  It could
only be that of its own file, since no two files have one name. -/
theorem nodup_namesOfListing_iff {decls : List TypeDecl} {known : KnownTypes}
    (hknown : KnownTypes.ofDecls decls = .ok known) (hfiles : (fileNames decls).Nodup) :
    (("dispatch" :: decls.map fun decl => fileStem decl.name) ++
        ("AnyValue" :: "Registered" :: decls.map TypeDecl.name)).Nodup ↔
      ∀ decl ∈ decls, (∃ c ∈ decl.name.toList, c.isUpper = true) ∨ decl.name ∈ pathKeywords := by
  have htypes := (KnownTypes.ofDecls_eq_ok_iff.mp hknown).1
  have hstems := (nodup_fileNames_iff.mp hfiles).of_cons
  have hlower : ∀ stem ∈ "dispatch" :: decls.map fun decl => fileStem decl.name,
      ∀ c ∈ stem.toList, isModuleChar c = true :=
    List.forall_mem_cons.mpr ⟨List.all_eq_true.mp (by decide), List.forall_mem_map.mpr fun decl hdecl =>
      isModuleChar_fileStem (htypes decl hdecl).identifier⟩
  constructor
  · intro h decl hdecl
    by_contra hnone
    have heq : fileStem decl.name = decl.name :=
      (fileStem_eq_self_iff (htypes decl hdecl).identifier).mpr (by simpa using hnone)
    have hstem : decl.name ∈ "dispatch" :: decls.map fun decl => fileStem decl.name :=
      List.mem_cons_of_mem _ (List.mem_map.mpr ⟨decl, hdecl, heq⟩)
    have hname : decl.name ∈ "AnyValue" :: "Registered" :: decls.map TypeDecl.name :=
      List.mem_cons_of_mem _ (List.mem_cons_of_mem _ (List.mem_map_of_mem hdecl))
    exact (List.nodup_append.mp h).2.2 _ hstem _ hname rfl
  · intro hall
    refine List.nodup_append.mpr ⟨hstems, nodup_imports hknown, fun stem hstem name hname heq => ?_⟩
    subst heq
    have hchars := hlower stem hstem
    rcases List.mem_cons.mp hname with rfl | hname
    · exact absurd (hchars 'A' (by decide)) (by decide)
    rcases List.mem_cons.mp hname with rfl | hname
    · exact absurd (hchars 'R' (by decide)) (by decide)
    obtain ⟨decl, hdecl, rfl⟩ := List.mem_map.mp hname
    -- A stem has no capital, and is no keyword without a raw form.
    rcases hall decl hdecl with ⟨c, hc, hupper⟩ | hkeyword
    · rw [not_isUpper_of_isModuleChar (hchars c hc)] at hupper
      cases hupper
    · rcases List.mem_cons.mp hstem with hdispatch | hmem
      · rw [hdispatch] at hkeyword
        exact absurd hkeyword (by decide)
      · obtain ⟨other, hother, heq⟩ := List.mem_map.mp hmem
        exact fileStem_not_mem_pathKeywords (htypes other hother).identifier (heq ▸ hkeyword)

/-- **The names in the listing differ exactly if no declared type is called like its module**: of all
that is rendered, these are the declarations in which every type's name has a capital, or is a keyword
without a raw form. -/
theorem typeNames_nodup_iff {decls : List TypeDecl} {artifacts : List Artifact}
    (h : render decls = .ok artifacts) :
    ∃ listing ∈ artifacts, listing.fileName = listingFile ∧
      (typeNames listing.contents).Perm
          (("dispatch" :: decls.map fun decl => fileStem decl.name) ++
            ("AnyValue" :: "Registered" :: decls.map TypeDecl.name)) ∧
        ((typeNames listing.contents).Nodup ↔
          ∀ decl ∈ decls, (∃ c ∈ decl.name.toList, c.isUpper = true) ∨ decl.name ∈ pathKeywords) := by
  obtain ⟨lowered, hlowered, -⟩ := render_eq_ok_iff.mp h
  obtain ⟨known, tags, last, hknown, hnames, -, -⟩ := lowerAll_eq_ok_iff.mp hlowered
  have hfiles := (checkGeneratedNames_eq_ok_iff.mp hnames).1
  obtain ⟨listing, hlisting, hname, hmodules, himports⟩ := exists_listing h
  have hperm := hmodules.append himports
  exact ⟨listing, hlisting, hname, hperm,
    hperm.nodup_iff.trans (nodup_namesOfListing_iff hknown hfiles)⟩

/-- A keyword is no module of its own, so the listing of `Super` and `Type` is in order. -/
theorem typeNames_nodup_super :
    ∃ artifacts, render [emptyStruct "Super", emptyStruct "Type"] = .ok artifacts ∧
      ∃ listing ∈ artifacts, listing.fileName = listingFile ∧ (typeNames listing.contents).Nodup := by
  obtain ⟨artifacts, h⟩ := render_super
  obtain ⟨listing, hlisting, hname, -, hiff⟩ := typeNames_nodup_iff h
  have hcapital : ∀ decl ∈ [emptyStruct "Super", emptyStruct "Type"],
      decl.name.toList.any Char.isUpper = true := by decide
  exact ⟨artifacts, h, listing, hlisting, hname,
    hiff.mpr fun decl hdecl => .inl (List.any_eq_true.mp (hcapital decl hdecl))⟩

/-- A structure `point` is accepted, and its module and the type stand in the listing under one name. -/
theorem typeNames_point_twice :
    ∃ artifacts, render [emptyStruct "point"] = .ok artifacts ∧
      ∃ listing ∈ artifacts, listing.fileName = listingFile ∧
        (typeNames listing.contents).Perm ["dispatch", "point", "AnyValue", "Registered", "point"] ∧
          ¬(typeNames listing.contents).Nodup := by
  have hlowered : lowerAll [emptyStruct "point"] = .ok [.struct (.ofSchema ⟨"point", 1, []⟩)] := rfl
  have hrender := render_eq_ok_iff.mpr ⟨_, hlowered, rfl⟩
  obtain ⟨listing, hlisting, hname, hmodules, himports⟩ := exists_listing hrender
  have hstems : ([emptyStruct "point"].map fun decl => fileStem decl.name) = ["point"] := by decide
  have hperm : (typeNames listing.contents).Perm
      ["dispatch", "point", "AnyValue", "Registered", "point"] := by
    rw [hstems] at hmodules
    exact hmodules.append himports
  have htwice : ¬["dispatch", "point", "AnyValue", "Registered", "point"].Nodup := by decide
  exact ⟨_, hrender, listing, hlisting, hname, hperm, fun h => htwice (hperm.nodup_iff.mp h)⟩

end Wireform.Emit
