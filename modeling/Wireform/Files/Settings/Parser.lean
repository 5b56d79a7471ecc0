import Wireform.Files.Generation
import Wireform.Json.Scanner

/-!
# Reading settings

The settings of a run as JSON: an object, of which every member may be missing, unknown ones are
ignored and repeated ones refused; or an array of the members in their order, which may be cut
short.  What is missing is as in `Settings.default`.
-/
namespace Wireform.Files

open Json (Scanner)

/-- What a text says of the settings. -/
structure GivenSettings where
  outputDir : Option String
  force : Option Bool
  deriving DecidableEq, Repr

/-- The settings, completed by the default. -/
def GivenSettings.complete (given : GivenSettings) : Settings :=
  ⟨given.outputDir.getD Settings.default.outputDir, given.force.getD Settings.default.force⟩

/-- Reads the next member of the settings' object. -/
def scanSettingsMember (bound : Nat) (given : GivenSettings) (name : String) :
    Scanner GivenSettings := do
  match name with
  | "output_dir" =>
    if given.outputDir.isSome then throw .wrongShape
    Json.colon
    let dir ← Json.wantText
    pure { given with outputDir := some dir }
  | "force" =>
    if given.force.isSome then throw .wrongShape
    Json.colon
    let force ← Json.wantBool
    pure { given with force := some force }
  | _ =>
    Json.colon
    Json.skim bound
    pure given

/-- Reads the settings' array from behind its bracket. -/
def scanSettingsItems : Scanner GivenSettings := do
  if ← Json.moreElements true then
    let dir ← Json.wantText
    if ← Json.moreElements false then
      let force ← Json.wantBool
      pure ⟨some dir, some force⟩
    else pure ⟨some dir, none⟩
  else pure ⟨none, none⟩

/-- Reads settings. -/
def scanSettings (bound : Nat) : Scanner Settings := do
  match ← Json.next? with
  | some '\x7b' =>
    Json.advance
    let given ← Json.foldMembers .keep (scanSettingsMember bound) bound true ⟨none, none⟩
    Json.advance
    pure given.complete
  | some '[' =>
    Json.advance
    let given ← scanSettingsItems
    Json.closeArray
    pure given.complete
  | _ => Json.refuse

/-- The settings that a text holds. -/
def Settings.parse (text : String) : Except Json.Fault Settings :=
  Json.readAll scanSettings text

end Wireform.Files
