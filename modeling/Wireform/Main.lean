import Wireform.Command

/-!
# The program

Reads a manifest from a file and generates its modules into a directory, or only checks it.  What is
done with each file is decided by `Files.generate` on a picture of the output directory; the program
takes that picture before the run and carries out afterwards what has changed in it.
-/
namespace Wireform

open Files (Node Tree)

/-- How the program is called. -/
def usage : String :=
  "usage: wireform MANIFEST [--output DIR] [--force] [--check]"

/-- What stands at a path; something that cannot be read as a file is taken for a directory, which
is never written over. -/
def nodeOnDisk (path : String) : IO (Option Node) := do
  match ← (IO.FS.readBinFile path).toBaseIO with
  | .ok bytes => return some (.file bytes.toList)
  | .error (.noFileOrDirectory ..) => return none
  | .error _ => return some .directory

/-- The output directory with what stands in the places of the given files. -/
def pictureOf (dir : String) (files : List String) : IO Tree := do
  let start := (Tree.empty.makeDirectories (Files.namesOf dir)).toOption.getD .empty
  files.foldlM (fun tree file => do
    let path := Files.joinPath dir file
    match ← nodeOnDisk path with
    | some node => return tree.setNode (Files.namesOf path) node
    | none => return tree) start

/-- Writes the files that differ between two pictures of a directory. -/
def carryOut (dir : String) (artifacts : List Emit.Artifact) (before after : Tree) : IO Unit := do
  IO.FS.createDirAll dir
  for artifact in artifacts do
    let path := Files.joinPath dir artifact.fileName
    if after.find? (Files.namesOf path) != before.find? (Files.namesOf path) then
      IO.FS.writeFile path artifact.contents

/-- Generates the files of a manifest. -/
def runGeneration (settings : Files.Settings) (manifest : Schema.Manifest) :
    IO (Except String String) := do
  match Emit.render manifest.types with
  | .error error => return .error (Command.failure (.schema error))
  | .ok artifacts =>
    let dir := settings.outputDir
    let before ← pictureOf dir (artifacts.map fun artifact => artifact.fileName)
    match (Files.writeArtifacts artifacts settings).run before with
    | .ok report after =>
      carryOut dir artifacts before after
      return .ok s!"{dir}: {report.summary}"
    | .error error after =>
      carryOut dir artifacts before after
      return .error (Command.failure error)

/-- Runs a command. -/
def runCommand (command : Command) : IO (Except String String) := do
  match ← (IO.FS.readFile command.manifest).toBaseIO with
  | .error error => return .error s!"Failed to read manifest {command.manifest}: {error}"
  | .ok text =>
    match command.readManifest text with
    | .error message => return .error message
    | .ok manifest =>
      if command.checkOnly then return command.check manifest
      else runGeneration command.settings manifest

end Wireform

def main (arguments : List String) : IO UInt32 := do
  match Wireform.Command.ofArguments? arguments with
  | none =>
    IO.eprintln Wireform.usage
    return 2
  | some command =>
    match ← (Wireform.runCommand command).toBaseIO with
    | .ok (.ok text) =>
      IO.println text
      return 0
    | .ok (.error message) =>
      IO.eprintln s!"error: {message}"
      return 1
    | .error error =>
      IO.eprintln s!"error: {error}"
      return 1
