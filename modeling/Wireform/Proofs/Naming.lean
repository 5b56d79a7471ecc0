import Mathlib
import Wireform.Proofs.Lowered

/-!
# Names of modules, files and tag constants

A declared type gives its name to a module, a file and a tag constant, and none of these is the name
itself.  The module is in lower case (`isModuleChar_moduleName`), so names that differ in their
capitals only have one module, and a name that has none is its own module
(`moduleName_eq_self_iff`).  A file is called like the module without the mark of a raw identifier;
what is left of escaping is the underscore behind a keyword that has no raw form (`fileStem_eq`).  So
the name of a file is in lower case too, with the ending of a source (`IsSourceName`).

Names are claimed in one list, files and constants together.  Since a file never ends like a
constant, this is no stricter than to ask for different files and for different constants:
`checkGeneratedNames` refuses declarations exactly if two files have one name or two constants have
(`checkGeneratedNames_eq_ok_iff`).
-/
namespace Wireform.Emit

open Schema (KnownTypes SchemaError TypeDecl isIdentChar isIdentStart isIdentifier structures)

/-! ## 1. The characters of generated names -/

/-- What starts an identifier still does in another case, which letters keep and an underscore has not. -/
theorem isIdentStart_of_isAlpha_eq {c d : Char} (h : isIdentStart c = true)
    (halpha : d.isAlpha = c.isAlpha) (hunderscore : c = '_' → d = '_') : isIdentStart d = true := by
  unfold isIdentStart at h ⊢
  rw [halpha]
  rcases Bool.or_eq_true_iff.mp h with hletter | hmark
  · rw [hletter, Bool.true_or]
  · rw [hunderscore (beq_iff_eq.mp hmark), beq_self_eq_true, Bool.or_true]

theorem isIdentStart_toLower {c : Char} (h : isIdentStart c = true) :
    isIdentStart c.toLower = true :=
  isIdentStart_of_isAlpha_eq h c.isAlpha_toLower_eq_isAlpha (by rintro rfl; decide)

theorem isIdentStart_toUpper {c : Char} (h : isIdentStart c = true) :
    isIdentStart c.toUpper = true :=
  isIdentStart_of_isAlpha_eq h c.isAlpha_toUpper_eq_isAlpha (by rintro rfl; decide)

theorem isIdentChar_toUpper {c : Char} (h : isIdentChar c = true) : isIdentChar c.toUpper = true := by
  cases hlower : c.isLower with
  | true => simp [isIdentChar, Char.isAlphanum, Char.isAlpha, hlower]
  | false => rwa [Char.toUpper_eq_of_not_isLower (Bool.eq_false_iff.mp hlower)]

/-- A character of the names of modules: a lower-case letter, a digit or an underscore. -/
def isModuleChar (c : Char) : Bool := c.isLower || c.isDigit || c == '_'

theorem not_isUpper_of_isModuleChar {c : Char} (h : isModuleChar c = true) : c.isUpper = false := by
  refine Bool.eq_false_iff.mpr fun hupper => ?_
  simp only [isModuleChar, Bool.or_eq_true, beq_iff_eq] at h
  rcases h with (hlower | hdigit) | rfl
  · exact Char.not_isUpper_of_isLower hlower hupper
  · have hstart : isIdentStart c = true := by simp [isIdentStart, Char.isAlpha, hupper]
    rw [(Schema.isIdentChar_of_isIdentStart hstart).2] at hdigit
    cases hdigit
  · exact absurd hupper (by decide)

theorem isIdentChar_of_isModuleChar {c : Char} (h : isModuleChar c = true) : isIdentChar c = true := by
  simp only [isModuleChar, Bool.or_eq_true] at h
  simp only [isIdentChar, Char.isAlphanum, Char.isAlpha, Bool.or_eq_true]
  tauto

/-- What is no capital in an identifier is a character of modules, and so is the small letter of a
capital. -/
theorem isModuleChar_toLower {c : Char} (h : isIdentChar c = true) :
    isModuleChar c.toLower = true := by
  cases hupper : c.isUpper with
  | true => simp [isModuleChar, Char.isAlpha, hupper]
  | false =>
    rw [Char.toLower_eq_of_not_isUpper (Bool.eq_false_iff.mp hupper)]
    simpa [isIdentChar, isModuleChar, Char.isAlphanum, Char.isAlpha, hupper] using h

theorem isModuleChar_snakeChars {before : Option Char} {text : List Char}
    (h : ∀ c ∈ text, isIdentChar c = true) :
    ∀ c ∈ snakeChars before text, isModuleChar c = true := by
  induction text generalizing before with
  | nil => exact fun _ hmem => absurd hmem List.not_mem_nil
  | cons c text ih =>
    rw [List.forall_mem_cons] at h
    have hc := isModuleChar_toLower h.1
    unfold snakeChars
    split
    · refine List.forall_mem_append.mpr ⟨fun d hd => ?_, List.forall_mem_cons.mpr ⟨hc, ih h.2⟩⟩
      split at hd
      · rw [List.mem_singleton.mp hd]
        rfl
      · cases hd
    · next hupper =>
      rw [Char.toLower_eq_of_not_isUpper hupper] at hc
      exact List.forall_mem_cons.mpr ⟨hc, ih h.2⟩

/-- A text without capitals is its own lower-case form. -/
theorem snakeChars_of_lower {before : Option Char} {text : List Char}
    (h : ∀ c ∈ text, c.isUpper = false) : snakeChars before text = text := by
  induction text generalizing before with
  | nil => rfl
  | cons c text ih =>
    rw [List.forall_mem_cons] at h
    unfold snakeChars
    rw [if_neg (Bool.eq_false_iff.mp h.1), ih h.2]

/-- All characters of an identifier are those of words. -/
theorem forall_isIdentChar {name : String} (h : isIdentifier name = true) :
    ∀ c ∈ name.toList, isIdentChar c = true := by
  obtain ⟨c, rest, htext, hstart, hrest⟩ := Schema.exists_of_isIdentifier h
  rw [htext]
  exact List.forall_mem_cons.mpr ⟨(Schema.isIdentChar_of_isIdentStart hstart).1, hrest⟩

/-- **Modules are in lower case.** -/
theorem isModuleChar_moduleName {name : String} (h : isIdentifier name = true) :
    ∀ c ∈ (moduleName name).toList, isModuleChar c = true := by
  unfold moduleName
  rw [String.toList_ofList]
  exact isModuleChar_snakeChars (forall_isIdentChar h)

/-- The first character of a module is the small letter of the name's first. -/
theorem toList_moduleName {name : String} {c : Char} {rest : List Char}
    (h : name.toList = c :: rest) :
    (moduleName name).toList = c.toLower :: snakeChars (some c) rest := by
  unfold moduleName
  rw [String.toList_ofList, h, snakeChars]
  split
  · rfl
  · next hupper => rw [Char.toLower_eq_of_not_isUpper hupper]

/-- The module of an identifier is one. -/
theorem isIdentifier_moduleName {name : String} (h : isIdentifier name = true) :
    isIdentifier (moduleName name) = true := by
  obtain ⟨c, rest, htext, hstart, hrest⟩ := Schema.exists_of_isIdentifier h
  exact Schema.isIdentifier_of_toList (toList_moduleName htext) (isIdentStart_toLower hstart) fun d hd =>
    isIdentChar_of_isModuleChar (isModuleChar_snakeChars hrest d hd)

theorem snakeChars_ne_nil {before : Option Char} {c : Char} {rest : List Char} :
    snakeChars before (c :: rest) ≠ [] := by
  unfold snakeChars
  split <;> simp

/-- Only a lone underscore has it for a module. -/
theorem moduleName_eq_underscore_iff {name : String} (h : isIdentifier name = true) :
    moduleName name = "_" ↔ name = "_" := by
  refine ⟨fun heq => ?_, ?_⟩
  swap
  · rintro rfl
    decide
  obtain ⟨c, rest, htext, -, -⟩ := Schema.exists_of_isIdentifier h
  have hchars : c.toLower :: snakeChars (some c) rest = ['_'] := by
    rw [← toList_moduleName htext, heq]
    decide
  obtain ⟨hc, hrest⟩ := List.cons_eq_cons.mp hchars
  have hunderscore : c = '_' := by
    cases hupper : c.isUpper with
    | true =>
      have hlower : c.toLower.isLower = true := by simp [Char.isAlpha, hupper]
      rw [hc] at hlower
      exact absurd hlower (by decide)
    | false => rwa [Char.toLower_eq_of_not_isUpper (Bool.eq_false_iff.mp hupper)] at hc
  cases rest with
  | nil => exact String.toList_injective (by rw [htext, hunderscore]; decide)
  | cons d rest => exact absurd hrest snakeChars_ne_nil

theorem isIdentifier_tagConst {name : String} (h : isIdentifier name = true) :
    isIdentifier (tagConst name) = true := by
  obtain ⟨c, rest, htext, hstart, hrest⟩ := Schema.exists_of_isIdentifier h
  have htoList : (tagConst name).toList =
      c.toLower.toUpper :: ((snakeChars (some c) rest).map Char.toUpper ++ "_TAG".toList) := by
    simp [tagConst, toList_moduleName htext]
  refine Schema.isIdentifier_of_toList htoList (isIdentStart_toUpper (isIdentStart_toLower hstart)) ?_
  refine List.forall_mem_append.mpr
    ⟨List.forall_mem_map.mpr fun d hd => ?_, List.all_eq_true.mp (by decide)⟩
  exact isIdentChar_toUpper (isIdentChar_of_isModuleChar (isModuleChar_snakeChars hrest d hd))

/-- A name is its own module exactly if it has no capital. -/
theorem moduleName_eq_self_iff {name : String} (h : isIdentifier name = true) :
    moduleName name = name ↔ ∀ c ∈ name.toList, c.isUpper = false := by
  constructor
  · intro heq c hc
    rw [← heq] at hc
    exact not_isUpper_of_isModuleChar (isModuleChar_moduleName h c hc)
  · intro hlower
    unfold moduleName
    rw [snakeChars_of_lower hlower, String.ofList_toList]

theorem dropRawMarks_of_not_mem {text : List Char} (h : '#' ∉ text) : dropRawMarks text = text := by
  unfold dropRawMarks
  split
  · exact absurd (List.mem_cons_of_mem _ List.mem_cons_self) h
  · rfl

/-- **Without raw marks an identifier is the name**, with an underscore where no raw form exists. -/
theorem dropRawMarks_identOf {name : String} (h : '#' ∉ name.toList) :
    dropRawMarks (identOf name).toList =
      (if name ∈ pathKeywords then name ++ "_" else name).toList := by
  unfold identOf
  simp only [List.contains_iff_mem]
  split
  · refine dropRawMarks_of_not_mem fun hmem => ?_
    rw [String.toList_append] at hmem
    rcases List.mem_append.mp hmem with hname | hunderscore
    · exact h hname
    · exact absurd hunderscore (by decide)
  · split
    · rw [String.toList_append]
      exact dropRawMarks_of_not_mem h
    · exact dropRawMarks_of_not_mem h

/-- The name of a type's file without its ending, which is that of the type's module. -/
def fileStem (typeName : String) : String :=
  String.ofList (dropRawMarks (identOf (moduleName typeName)).toList)

theorem fileName_eq (typeName : String) : fileName typeName = fileStem typeName ++ ".rs" := rfl

theorem hash_not_mem_moduleName {name : String} (h : isIdentifier name = true) :
    '#' ∉ (moduleName name).toList :=
  fun hmem => absurd (isModuleChar_moduleName h _ hmem) (by decide)

theorem fileStem_eq {name : String} (h : isIdentifier name = true) :
    fileStem name =
      if moduleName name ∈ pathKeywords then moduleName name ++ "_" else moduleName name := by
  unfold fileStem
  rw [dropRawMarks_identOf (hash_not_mem_moduleName h), String.ofList_toList]

/-- **Stems are in lower case.** -/
theorem isModuleChar_fileStem {name : String} (h : isIdentifier name = true) :
    ∀ c ∈ (fileStem name).toList, isModuleChar c = true := by
  rw [fileStem_eq h]
  split
  · rw [String.toList_append]
    exact List.forall_mem_append.mpr ⟨isModuleChar_moduleName h, List.all_eq_true.mp (by decide)⟩
  · exact isModuleChar_moduleName h

/-- No stem is one of the keywords without a raw form. -/
theorem fileStem_not_mem_pathKeywords {name : String} (h : isIdentifier name = true) :
    fileStem name ∉ pathKeywords := by
  have hunderscore : ∀ keyword ∈ pathKeywords, keyword ++ "_" ∉ pathKeywords := by decide
  rw [fileStem_eq h]
  split
  · next hmem => exact hunderscore _ hmem
  · assumption

/-- **A type's file is called like the type exactly if** the type's name has no capital and is no
keyword without a raw form. -/
theorem fileStem_eq_self_iff {name : String} (h : isIdentifier name = true) :
    fileStem name = name ↔ (∀ c ∈ name.toList, c.isUpper = false) ∧ name ∉ pathKeywords := by
  constructor
  · intro heq
    have hlower : ∀ c ∈ name.toList, c.isUpper = false := by
      intro c hc
      rw [← heq] at hc
      exact not_isUpper_of_isModuleChar (isModuleChar_fileStem h c hc)
    exact ⟨hlower, heq ▸ fileStem_not_mem_pathKeywords h⟩
  · rintro ⟨hlower, hkeyword⟩
    have hmodule := (moduleName_eq_self_iff h).mpr hlower
    rw [fileStem_eq h, hmodule, if_neg hkeyword]

theorem moduleName_ne_empty {name : String} (h : isIdentifier name = true) : moduleName name ≠ "" := by
  intro heq
  have hmodule := isIdentifier_moduleName h
  rw [heq] at hmodule
  exact absurd hmodule (by decide)

theorem fileStem_ne_empty {name : String} (h : isIdentifier name = true) : fileStem name ≠ "" := by
  rw [fileStem_eq h]
  split
  · simp
  · exact moduleName_ne_empty h

/-- A name of a source: a stem in lower case, and the ending. -/
def IsSourceName (name : String) : Prop :=
  ∃ stem : String, stem ≠ "" ∧ (∀ c ∈ stem.toList, isModuleChar c = true) ∧ name = stem ++ ".rs"

theorem isSourceName_fileName {name : String} (h : isIdentifier name = true) :
    IsSourceName (fileName name) :=
  ⟨fileStem name, fileStem_ne_empty h, isModuleChar_fileStem h, fileName_eq name⟩

/-- A name of a source has no capital that could tell it from another. -/
theorem IsSourceName.toLower {name : String} (h : IsSourceName name) : name.toLower = name := by
  obtain ⟨stem, -, hchars, rfl⟩ := h
  have hlower : ∀ c ∈ (stem ++ ".rs").toList, c.toLower = c := by
    rw [String.toList_append]
    refine List.forall_mem_append.mpr ⟨fun c hc => ?_, by simp⟩
    exact Char.toLower_eq_of_not_isUpper
      (Bool.eq_false_iff.mp (not_isUpper_of_isModuleChar (hchars c hc)))
  have hmap : (stem ++ ".rs").toList.map Char.toLower = (stem ++ ".rs").toList := by
    conv_rhs => rw [← List.map_id (stem ++ ".rs").toList]
    exact List.map_congr_left hlower
  refine String.toList_injective ?_
  rw [String.toLower, String.toList_map, hmap]

/-! ## 2. Names that are claimed -/

/-- A name is claimed unless it has an owner. -/
theorem claimName_cases (typeName : String) (owners : Owners) (generated : String) :
    (claimName typeName owners generated = .ok ((generated, typeName) :: owners) ∧
        generated ∉ owners.map Prod.fst) ∨
      (∃ fault, claimName typeName owners generated = .error fault) ∧
        generated ∈ owners.map Prod.fst := by
  unfold claimName
  cases hfound : owners.lookup generated with
  | some owner =>
    obtain ⟨l₁, l₂, howners, -⟩ := List.lookup_eq_some_iff.mp hfound
    refine .inr ⟨⟨_, rfl⟩, ?_⟩
    simp [howners]
  | none =>
    refine .inl ⟨rfl, fun hmem => ?_⟩
    obtain ⟨entry, hentry, rfl⟩ := List.mem_map.mp hmem
    have hdiffers := List.lookup_eq_none_iff.mp hfound entry hentry
    simp at hdiffers

/-- Names are claimed one after the other unless one has an owner or comes twice. -/
theorem claimNames_cases {typeName : String} {names : List String} {owners : Owners}
    (howners : (owners.map Prod.fst).Nodup) :
    (∃ last, names.foldlM (claimName typeName) owners = .ok last ∧
        last.map Prod.fst = names.reverse ++ owners.map Prod.fst ∧ (last.map Prod.fst).Nodup) ∨
      (∃ fault, names.foldlM (claimName typeName) owners = .error fault) ∧
        ¬(names.reverse ++ owners.map Prod.fst).Nodup := by
  induction names generalizing owners with
  | nil => exact .inl ⟨owners, rfl, rfl, howners⟩
  | cons name names ih =>
    have hsplit : (name :: names).reverse ++ owners.map Prod.fst =
        names.reverse ++ ((name, typeName) :: owners).map Prod.fst := by simp
    rw [List.foldlM_cons, hsplit]
    rcases claimName_cases typeName owners name with ⟨hclaimed, hnew⟩ | ⟨⟨fault, hfault⟩, hmem⟩
    · rw [hclaimed]
      exact ih (List.nodup_cons.mpr ⟨hnew, howners⟩)
    · rw [hfault]
      refine .inr ⟨⟨fault, rfl⟩, fun hnodup => ?_⟩
      exact (List.nodup_cons.mp (List.nodup_append.mp hnodup).2.1).1 hmem

/-- The same for the names of declarations one after the other. -/
theorem foldlM_claimNames_cases {decls : List TypeDecl} {owners : Owners}
    (howners : (owners.map Prod.fst).Nodup) :
    (∃ last, decls.foldlM claimNames owners = .ok last) ∧
        ((decls.flatMap generatedNames).reverse ++ owners.map Prod.fst).Nodup ∨
      (∃ fault, decls.foldlM claimNames owners = .error fault) ∧
        ¬((decls.flatMap generatedNames).reverse ++ owners.map Prod.fst).Nodup := by
  induction decls generalizing owners with
  | nil => exact .inl ⟨⟨owners, rfl⟩, howners⟩
  | cons decl decls ih =>
    have hsplit : ((decl :: decls).flatMap generatedNames).reverse ++ owners.map Prod.fst =
        (decls.flatMap generatedNames).reverse ++
          ((generatedNames decl).reverse ++ owners.map Prod.fst) := by simp
    rw [List.foldlM_cons, hsplit]
    have hclaims : (∃ last, claimNames owners decl = .ok last ∧
        last.map Prod.fst = (generatedNames decl).reverse ++ owners.map Prod.fst ∧
          (last.map Prod.fst).Nodup) ∨
        (∃ fault, claimNames owners decl = .error fault) ∧
          ¬((generatedNames decl).reverse ++ owners.map Prod.fst).Nodup := claimNames_cases howners
    rcases hclaims with ⟨next, hnext, hnames, hnodup⟩ | ⟨⟨fault, hfault⟩, htwice⟩
    · rw [hnext, ← hnames]
      exact ih hnodup
    · rw [hfault]
      exact .inr ⟨⟨fault, rfl⟩, fun hnodup => htwice (List.nodup_append.mp hnodup).2.1⟩

/-- The names of all files: those of the declared types, and the shared ones. -/
def fileNames (decls : List TypeDecl) : List String :=
  (decls.map fun decl => fileName decl.name) ++ [dispatchFile, listingFile]

/-- All tag constants: that of null, and those of the declared structures. -/
def tagConsts (decls : List TypeDecl) : List String :=
  nullTagConst :: (structures decls).map fun decl => tagConst decl.name

/-- What is generated are files and tag constants. -/
theorem generatedNames_perm (decls : List TypeDecl) :
    (decls.flatMap generatedNames ++ sharedOwners.map Prod.fst).Perm
      (fileNames decls ++ tagConsts decls) := by
  have hnames : (decls.flatMap generatedNames).Perm
      ((decls.map fun decl => fileName decl.name) ++
        (structures decls).map fun decl => tagConst decl.name) := by
    induction decls with
    | nil => exact .refl _
    | cons decl decls ih =>
      rw [List.flatMap_cons]
      cases decl with
      | struct decl =>
        refine ((ih.cons (tagConst decl.name)).trans ?_).cons (fileName decl.name)
        exact List.perm_middle.symm
      | «enum» decl => exact ih.cons (fileName decl.name)
  refine (hnames.append_right _).trans ?_
  unfold fileNames tagConsts
  rw [List.append_assoc, List.append_assoc]
  exact List.perm_append_comm.append_left _

/-- No file is called like a tag constant. -/
theorem fileNames_ne_tagConsts (decls : List TypeDecl) :
    ∀ file ∈ fileNames decls, ∀ const ∈ tagConsts decls, file ≠ const := by
  have hfiles : ∀ name ∈ fileNames decls, name.toList.getLast? = some 's' := by
    unfold fileNames
    refine List.forall_mem_append.mpr ⟨List.forall_mem_map.mpr fun decl _ => ?_, by decide⟩
    simp [fileName_eq]
  have hconsts : ∀ name ∈ tagConsts decls, name.toList.getLast? = some 'G' := by
    refine List.forall_mem_cons.mpr ⟨by decide, List.forall_mem_map.mpr fun decl _ => ?_⟩
    simp [tagConst]
  rintro file hfile const hconst rfl
  exact absurd ((hfiles file hfile).symm.trans (hconsts file hconst)) (by decide)

/-- **Generated names are refused exactly if two files have one name, or two tag constants.** -/
theorem checkGeneratedNames_cases (decls : List TypeDecl) :
    checkGeneratedNames decls = .ok () ∧ (fileNames decls).Nodup ∧ (tagConsts decls).Nodup ∨
      (∃ fault, checkGeneratedNames decls = .error fault) ∧
        ¬((fileNames decls).Nodup ∧ (tagConsts decls).Nodup) := by
  have hiff : ((decls.flatMap generatedNames).reverse ++ sharedOwners.map Prod.fst).Nodup ↔
      (fileNames decls).Nodup ∧ (tagConsts decls).Nodup := by
    rw [(((List.reverse_perm _).append_right _).trans (generatedNames_perm decls)).nodup_iff,
      List.nodup_append]
    exact ⟨fun h => ⟨h.1, h.2.1⟩, fun h => ⟨h.1, h.2, fileNames_ne_tagConsts decls⟩⟩
  unfold checkGeneratedNames
  rw [← hiff]
  have hshared : (sharedOwners.map Prod.fst).Nodup := by decide
  rcases foldlM_claimNames_cases hshared with ⟨⟨last, hlast⟩, hnodup⟩ | ⟨⟨fault, hfault⟩, htwice⟩
  · rw [hlast]
    exact .inl ⟨rfl, hnodup⟩
  · rw [hfault]
    exact .inr ⟨⟨fault, rfl⟩, htwice⟩

theorem checkGeneratedNames_eq_ok_iff {decls : List TypeDecl} :
    checkGeneratedNames decls = .ok () ↔ (fileNames decls).Nodup ∧ (tagConsts decls).Nodup := by
  rcases checkGeneratedNames_cases decls with ⟨hok, hnodup⟩ | ⟨⟨fault, hfault⟩, htwice⟩
  · exact iff_of_true hok hnodup
  · rw [hfault]
    exact iff_of_false (fun h => by cases h) htwice

/-- Files differ exactly if their stems do. -/
theorem nodup_fileNames_iff {decls : List TypeDecl} :
    (fileNames decls).Nodup ↔
      ("mod" :: "dispatch" :: decls.map fun decl => fileStem decl.name).Nodup := by
  have hperm : (fileNames decls).Perm
      (("mod" :: "dispatch" :: decls.map fun decl => fileStem decl.name).map (· ++ ".rs")) := by
    rw [List.map_cons, List.map_cons, List.map_map]
    exact List.perm_append_comm.trans (.swap _ _ _)
  have hinjective : Function.Injective fun stem : String => stem ++ ".rs" := by
    intro a b hab
    have hchars := congrArg String.toList hab
    simp only [String.toList_append] at hchars
    exact String.toList_injective (List.append_cancel_right hchars)
  rw [hperm.nodup_iff, List.nodup_map_iff hinjective]

/-! ## 3. Files of a run -/

/-- The files of a run are those of the declared types, and the shared ones. -/
theorem fileNames_of_render {decls : List TypeDecl} {artifacts : List Artifact}
    (h : render decls = .ok artifacts) :
    artifacts.map Artifact.fileName = fileNames decls := by
  obtain ⟨lowered, hlowered, rfl⟩ := render_eq_ok_iff.mp h
  obtain ⟨known, tags, last, -, -, -, hlowers⟩ := lowerAll_eq_ok_iff.mp hlowered
  have hnames : lowered.map (fun type => type.artifact.fileName) =
      decls.map fun decl => fileName decl.name := by
    clear hlowered h
    induction hlowers with
    | nil => rfl
    | struct htag hschema hrest ih =>
      rw [List.map_cons, List.map_cons, ih]
      exact congrArg (fun name => fileName name :: _) (name_of_analyze hschema)
    | «enum» hvalid hrest ih =>
      rw [List.map_cons, List.map_cons, ih]
      rfl
  unfold artifactsOf fileNames
  rw [List.map_append, List.map_map, ← hnames]
  rfl

/-- **All files have names of sources.** -/
theorem isSourceName_of_render {decls : List TypeDecl} {artifacts : List Artifact}
    (h : render decls = .ok artifacts) : ∀ artifact ∈ artifacts, IsSourceName artifact.fileName := by
  obtain ⟨lowered, hlowered, -⟩ := render_eq_ok_iff.mp h
  obtain ⟨known, tags, last, hknown, -, -, -⟩ := lowerAll_eq_ok_iff.mp hlowered
  intro artifact hartifact
  have hmem : artifact.fileName ∈ fileNames decls :=
    fileNames_of_render h ▸ List.mem_map_of_mem hartifact
  rcases List.mem_append.mp hmem with htype | hshared
  · obtain ⟨decl, hdecl, hname⟩ := List.mem_map.mp htype
    exact hname ▸ isSourceName_fileName ((KnownTypes.ofDecls_eq_ok_iff.mp hknown).1 decl hdecl).identifier
  · simp only [List.mem_cons, List.not_mem_nil, or_false] at hshared
    rcases hshared with hname | hname
    · exact hname ▸ ⟨"dispatch", by decide, List.all_eq_true.mp (by decide), rfl⟩
    · exact hname ▸ ⟨"mod", by decide, List.all_eq_true.mp (by decide), rfl⟩

/-- The files of the types, in the order of their declarations. -/
theorem perType_of_render {decls : List TypeDecl} {artifacts : List Artifact}
    (h : render decls = .ok artifacts) :
    (artifacts.filter Artifact.perType).map Artifact.fileName =
      decls.map fun decl => fileName decl.name := by
  have hnames := fileNames_of_render h
  obtain ⟨lowered, -, rfl⟩ := render_eq_ok_iff.mp h
  have htypes : ∀ artifact ∈ lowered.map LoweredType.artifact, artifact.perType = true := by
    refine List.forall_mem_map.mpr fun type _ => ?_
    cases type <;> rfl
  unfold artifactsOf fileNames at hnames
  rw [List.map_append] at hnames
  unfold artifactsOf
  rw [List.filter_append, List.filter_eq_self.mpr htypes, List.map_append]
  have hshared := List.append_inj_left' hnames rfl
  rw [hshared]
  exact List.append_nil _

end Wireform.Emit
