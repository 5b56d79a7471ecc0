import Wireform.Files.Generation
import Wireform.Schema.Manifest.Parser

/-!
# What a command line asks for

A command names a manifest, and either only checks it or generates its files into a directory.
`Command.ofArguments?` reads the arguments: one word that is not an option is the manifest's path,
each option may be given once, and all words behind `--` are taken as they are.

The answers of a command are pure: `Command.check` says what a manifest would generate, and
`Command.settings` are the settings of the run.
-/
namespace Wireform

/-- What is asked for. -/
structure Command where
  /-- The path of the manifest. -/
  manifest : String
  settings : Files.Settings
  /-- Whether nothing is to be written. -/
  checkOnly : Bool
  deriving DecidableEq, Repr

namespace Command

/-- The arguments seen so far. -/
structure Given where
  manifest : Option String
  outputDir : Option String
  force : Bool
  checkOnly : Bool
  deriving DecidableEq, Repr

/-- No argument seen. -/
def Given.none : Given := ⟨.none, .none, false, false⟩

/-- Takes the manifest's path, which is given once. -/
def Given.withManifest? (given : Given) (path : String) : Option Given :=
  if given.manifest.isSome then .none else some { given with manifest := some path }

/-- Takes the output directory, which is given at most once. -/
def Given.withOutputDir? (given : Given) (dir : String) : Option Given :=
  if given.outputDir.isSome then .none else some { given with outputDir := some dir }

/-- Takes the wish to overwrite. -/
def Given.withForce? (given : Given) : Option Given :=
  if given.force then .none else some { given with force := true }

/-- Takes the wish to check only. -/
def Given.withCheck? (given : Given) : Option Given :=
  if given.checkOnly then .none else some { given with checkOnly := true }

/-- Reads the arguments; `none` when they fit no command. -/
def readArguments? : List String → Given → Option Given
  | [], given => some given
  | "--" :: rest, given => rest.foldlM Given.withManifest? given
  | "-o" :: dir :: rest, given => given.withOutputDir? dir >>= readArguments? rest
  | "--output" :: dir :: rest, given => given.withOutputDir? dir >>= readArguments? rest
  | "-f" :: rest, given => given.withForce? >>= readArguments? rest
  | "--force" :: rest, given => given.withForce? >>= readArguments? rest
  | "--check" :: rest, given => given.withCheck? >>= readArguments? rest
  | word :: rest, given =>
    match word.toList with
    | ['-'] => given.withManifest? word >>= readArguments? rest
    | '-' :: _ => .none
    | _ => given.withManifest? word >>= readArguments? rest

/-- The command that arguments ask for. -/
def ofArguments? (arguments : List String) : Option Command := do
  let given ← readArguments? arguments Given.none
  let manifest ← given.manifest
  let outputDir := given.outputDir.getD Files.Settings.default.outputDir
  pure ⟨manifest, ⟨outputDir, given.force⟩, given.checkOnly⟩

/-- The manifest of a command, read from its text; otherwise what is wrong with it. -/
def readManifest (command : Command) (text : String) : Except String Schema.Manifest :=
  match Schema.Manifest.parse text with
  | .ok manifest => .ok manifest
  | .error fault => .error s!"Failed to parse manifest {command.manifest}: {fault.category} error"

/-- What a check says of a manifest that can be generated; otherwise what is wrong with it. -/
def check (command : Command) (manifest : Schema.Manifest) : Except String String :=
  match Emit.render manifest.types with
  | .ok artifacts =>
    .ok (s!"{command.manifest}: {manifest.types.length} types OK "
      ++ s!"({artifacts.length} files would be generated)")
  | .error error => .error s!"Manifest rejected: {error.message}"

/-- What is wrong with a run. -/
def failure : Files.GenerateError → String
  | .schema error => s!"Generation failed: {error.message}"
  | .file path fault => s!"Generation failed: Failed to write {path}: {fault.kind}"

end Command

end Wireform
