import Wireform.Emit.Dispatch
import Wireform.Emit.Enumeration
import Wireform.Schema.Analysis
import Wireform.Schema.TagRegistry

/-!
# From declarations to artifacts

`render` takes a list of declarations to the text of every file, or to the first error; nothing is
written anywhere.  The checks come in this order: the names of the declared types; the files and tag
constants that they would generate; the explicit tags; and then, declaration by declaration, the tag
and the layout of a structure, or the variants of an enumeration.

Explicit tags are taken first, so that automatic ones fill the gaps around them.
-/
namespace Wireform.Emit

open Schema (KnownTypes SchemaError StructCode StructDecl TagRegistry TypeDecl)

/-- A file to be. -/
structure Artifact where
  fileName : String
  contents : String
  /-- Files of single types are protected from being overwritten; shared ones are not. -/
  perType : Bool
  deriving DecidableEq, Repr

/-- What a declared type is lowered to. -/
inductive LoweredType where
  | struct (code : StructCode)
  | enum (e : Enumeration)
  deriving DecidableEq, Repr

/-! ## 1. Generated names -/

/-- The names that files and constants have, with who owns them. -/
abbrev Owners := List (String × String)

/-- The names that no declaration may generate. -/
def sharedOwners : Owners :=
  [(dispatchFile, "the dispatch table"), (listingFile, "the registry listing"),
    (nullTagConst, "the null tag")]

/-- The names that a declaration generates. -/
def generatedNames : TypeDecl → List String
  | .struct decl => [fileName decl.name, tagConst decl.name]
  | .enum decl => [fileName decl.name]

/-- Takes a generated name for a type, unless somebody has it. -/
def claimName (typeName : String) (owners : Owners) (generated : String) :
    Except SchemaError Owners :=
  match owners.lookup generated with
  | some owner => .error (.nameCollision typeName generated owner)
  | none => .ok ((generated, typeName) :: owners)

/-- Takes the generated names of a declaration. -/
def claimNames (owners : Owners) (decl : TypeDecl) : Except SchemaError Owners :=
  (generatedNames decl).foldlM (claimName decl.name) owners

/-- Checks that every generated name belongs to one owner. -/
def checkGeneratedNames (decls : List TypeDecl) : Except SchemaError Unit := do
  let _ ← decls.foldlM claimNames sharedOwners
  pure ()

/-! ## 2. Tags and layouts -/

/-- Takes the tag of a declaration that asks for one. -/
def claimTag (tags : TagRegistry String) (decl : TypeDecl) :
    Except SchemaError (TagRegistry String) :=
  match decl with
  | .struct ⟨name, some tag, _⟩ => do
    let (_, tags) ← tags.registerWithTag name tag name
    pure tags
  | _ => pure tags

/-- The tag of a structure: the one that it asks for, or the lowest that is free. -/
def assignTag (tags : TagRegistry String) (decl : StructDecl) :
    Except SchemaError (Nat × TagRegistry String) :=
  match decl.tag with
  | some tag => tags.registerWithTag decl.name tag decl.name
  | none => tags.register decl.name decl.name

/-- Lowers the next declaration. -/
def lowerNext (known : KnownTypes) (state : TagRegistry String × Array LoweredType)
    (decl : TypeDecl) : Except SchemaError (TagRegistry String × Array LoweredType) :=
  match decl with
  | .struct decl => do
    let (tag, tags) ← assignTag state.1 decl
    let schema ← Schema.analyze decl known tag
    pure (tags, state.2.push (.struct (.ofSchema schema)))
  | .enum decl => do
    Schema.validateEnum decl
    pure (state.1, state.2.push (.enum (.ofDecl decl)))

/-- Lowers all declarations, in their order. -/
def lowerAll (decls : List TypeDecl) : Except SchemaError (List LoweredType) := do
  let known ← KnownTypes.ofDecls decls
  checkGeneratedNames decls
  let tags ← decls.foldlM claimTag TagRegistry.empty
  let (_, lowered) ← decls.foldlM (lowerNext known) (tags, #[])
  pure lowered.toList

/-! ## 3. Files -/

/-- The structures and enumerations of the shared files. -/
def tableOf (lowered : List LoweredType) : Table where
  entries :=
    (lowered.filterMap fun
      | .struct code => some ⟨code.tag, code.name⟩
      | .enum _ => none).mergeSort fun a b => a.tag ≤ b.tag
  enums := lowered.filterMap fun
    | .struct _ => none
    | .enum e => some e.name

/-- The file of a type. -/
def LoweredType.artifact : LoweredType → Artifact
  | .struct code => ⟨fileName code.name, fileText (structModule code), true⟩
  | .enum e => ⟨fileName e.name, fileText (enumModule e), true⟩

/-- All files: one per type, then the dispatch table and the listing. -/
def artifactsOf (lowered : List LoweredType) : List Artifact :=
  lowered.map LoweredType.artifact ++
    [⟨dispatchFile, fileText (dispatchModule (tableOf lowered)), false⟩,
      ⟨listingFile, fileText (listingModule (tableOf lowered)), false⟩]

/-- The files that declarations generate. -/
def render (decls : List TypeDecl) : Except SchemaError (List Artifact) := do
  let lowered ← lowerAll decls
  pure (artifactsOf lowered)

end Wireform.Emit
