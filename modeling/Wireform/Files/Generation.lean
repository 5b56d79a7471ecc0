import Wireform.Emit.Render
import Wireform.Files.Tree

/-!
# Generating into a directory

A run renders all files first, so that a schema error leaves the directory alone, and then writes
them one by one.

* A file of a single type is left as it is when something stands in its place, unless the run is
  forced.
* A shared file is left as it is when it holds the rendered text already, and is written otherwise.
* The first operation that fails ends the run; what was written before stays.
-/
namespace Wireform.Files

open Emit (Artifact)

/-- Where to generate, and whether to overwrite the files of single types. -/
structure Settings where
  outputDir : String
  force : Bool
  deriving DecidableEq, Repr

/-- The settings of a run that names none. -/
def Settings.default : Settings := ⟨"generated", false⟩

/-- What a run did to each file. -/
structure Report where
  written : List String
  skipped : List String
  unchanged : List String
  deriving DecidableEq, Repr

namespace Report

/-- Nothing done. -/
def empty : Report := ⟨[], [], []⟩

/-- The counts of a report. -/
def summary (report : Report) : String :=
  s!"{report.written.length} written, {report.skipped.length} skipped, "
    ++ s!"{report.unchanged.length} unchanged"

end Report

/-- Why a run stops. -/
inductive GenerateError where
  | schema (error : Schema.SchemaError)
  /-- An operation on the file or directory `path` fails. -/
  | file (path : String) (fault : FileFault)
  deriving DecidableEq, Repr

/-- The names of a path. -/
def namesOf (path : String) : Path :=
  (path.splitOn "/").filter fun name => name != "" && name != "."

/-- The path of a file in a directory. -/
def joinPath (dir file : String) : String :=
  if dir.isEmpty || dir.endsWith "/" then dir ++ file else dir ++ "/" ++ file

/-- A run in progress: its state is the tree, also after a failure. -/
abbrev Run (α : Type) := EStateM GenerateError Tree α

/-- Runs an operation that changes the tree. -/
def change (path : String) (operation : Tree → Except FileFault Tree) : Run Unit := do
  match operation (← get) with
  | .ok tree => set tree
  | .error fault => throw (.file path fault)

/-- The text of a file, if there is one. -/
def readExisting (path : String) : Run (Option String) := do
  match (← get).readText (namesOf path) with
  | .ok text => pure (some text)
  | .error .notFound => pure none
  | .error fault => throw (.file path fault)

/-- What is done to a file. -/
inductive Deed where
  | written
  | skipped
  | unchanged
  deriving DecidableEq, Repr

/-- Writes a file, unless it is protected or up to date. -/
def writeArtifact (settings : Settings) (artifact : Artifact) : Run Deed := do
  let path := joinPath settings.outputDir artifact.fileName
  if artifact.perType then
    let tree ← get
    if !settings.force && (tree.find? (namesOf path)).isSome then
      return .skipped
  else
    let existing ← readExisting path
    if existing == some artifact.contents then
      return .unchanged
  change path fun tree => tree.writeFile (namesOf path) (Utf8.encode artifact.contents.toList)
  return .written

/-- Adds a deed to a report. -/
def Report.add (report : Report) (path : String) : Deed → Report
  | .written => { report with written := report.written ++ [path] }
  | .skipped => { report with skipped := report.skipped ++ [path] }
  | .unchanged => { report with unchanged := report.unchanged ++ [path] }

/-- Writes the files one by one. -/
def writeEach (settings : Settings) : List Artifact → Report → Run Report
  | [], report => pure report
  | artifact :: rest, report => do
    let deed ← writeArtifact settings artifact
    writeEach settings rest (report.add (joinPath settings.outputDir artifact.fileName) deed)

/-- Writes rendered files into the output directory, which is made if need be. -/
def writeArtifacts (artifacts : List Artifact) (settings : Settings) : Run Report := do
  change settings.outputDir fun tree => tree.makeDirectories (namesOf settings.outputDir)
  writeEach settings artifacts .empty

/-- Generates the files of declarations into the output directory. -/
def generate (decls : List Schema.TypeDecl) (settings : Settings) : Run Report := do
  match Emit.render decls with
  | .error error => throw (.schema error)
  | .ok artifacts => writeArtifacts artifacts settings

end Wireform.Files
