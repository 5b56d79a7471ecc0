import Wireform.Json.Scanner
import Wireform.Schema.Manifest

/-!
# Reading a manifest

A manifest is read from left to right, and the first problem decides which `Json.Fault` it is.  The
members of a declaration are collected first, whatever they are, and only then looked at; but a kind
that is none is refused where it stands, and so is a member that may not be repeated.
-/
namespace Wireform.Schema

open Json (Scanner)

/-- Reads the name of a kind. -/
def scanKind : Scanner DeclKind := do
  match DeclKind.ofName? (← Json.wantText) with
  | some kind => pure kind
  | none => throw .wrongShape

/-- Reads the next member of a declaration's object. -/
def scanDeclMember (bound depth : Nat) (state : Option DeclKind × List (String × Json))
    (name : String) : Scanner (Option DeclKind × List (String × Json)) := do
  if name = "kind" then
    if state.1.isSome then throw .wrongShape
    Json.colon
    let kind ← scanKind
    pure (some kind, state.2)
  else
    Json.colon
    let value ← Json.scan .keep bound depth
    pure (state.1, (name, value) :: state.2)

/-- Reads the kind and the other members of a declaration; what is nested in it may be `depth`
deep. -/
def scanDeclParts (bound depth : Nat) : Scanner (DeclKind × Json) := do
  match ← Json.next? with
  | some '\x7b' =>
    Json.advance
    let (kind?, members) ←
      Json.foldMembers .keep (scanDeclMember bound depth) bound true (none, [])
    match kind? with
    | some kind =>
      Json.advance
      pure (kind, .object members.reverse)
    | none => throw .wrongShape
  | some '[' =>
    Json.advance
    if ← Json.moreElements true then
      let kind ← scanKind
      let items ← Json.elements (Json.scan .keep bound depth) bound false
      Json.advance
      pure (kind, .array items)
    else throw .wrongShape
  | _ => Json.refuse

/-- Reads a declaration. -/
def scanDecl (bound depth : Nat) : Scanner TypeDecl := do
  let (kind, members) ← scanDeclParts bound depth
  match TypeDecl.ofKind? kind members with
  | some decl => pure decl
  | none => throw .wrongShape

/-- Reads an array of declarations. -/
def scanDecls (bound depth : Nat) : Scanner (List TypeDecl) := do
  match ← Json.next? with
  | some '[' =>
    Json.advance
    let decls ← Json.elements (scanDecl bound depth) bound true
    Json.advance
    pure decls
  | _ => Json.refuse

/-- How deep the parts of a declaration may be nested: the manifest, its list and the declaration
are levels of their own. -/
def declDepth : Nat := Json.depthLimit - 3

/-- Reads the next member of a manifest's object. -/
def scanManifestMember (bound : Nat) (types : Option (List TypeDecl)) (name : String) :
    Scanner (Option (List TypeDecl)) := do
  if name = "types" then
    if types.isSome then throw .wrongShape
    Json.colon
    some <$> scanDecls bound declDepth
  else
    Json.colon
    Json.skim bound
    pure types

/-- Reads a manifest. -/
def scanManifest (bound : Nat) : Scanner Manifest := do
  match ← Json.next? with
  | some '\x7b' =>
    Json.advance
    match ← Json.foldMembers .keep (scanManifestMember bound) bound true none with
    | some types =>
      Json.advance
      pure ⟨types⟩
    | none => throw .wrongShape
  | some '[' =>
    Json.advance
    if ← Json.moreElements true then
      let types ← scanDecls bound declDepth
      Json.closeArray
      pure ⟨types⟩
    else throw .wrongShape
  | _ => Json.refuse

/-- The manifest that a text holds. -/
def Manifest.parse (text : String) : Except Json.Fault Manifest :=
  Json.readAll scanManifest text

end Wireform.Schema
