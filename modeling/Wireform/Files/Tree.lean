import Wireform.Text.Utf8

/-!
# A tree of files

What a run of the generator sees of a file system: regular files with their bytes, and directories.
A path is a list of names from the root; `..` leads back to the parent.  Looking a path up needs
every name but the last to be a directory, and the operations fail with the kind of error that tells
why: a name that is not there, a file where a directory is needed, a directory where a file is
needed, and so on.
-/
namespace Wireform.Files

/-- What a path can lead to. -/
inductive Node where
  | file (bytes : List UInt8)
  | directory
  deriving DecidableEq, Repr

/-- Names from the root; in a path that is looked up, `..` stands for the parent. -/
abbrev Path := List String

/-- Why an operation fails. -/
inductive FileFault where
  | notFound
  | alreadyExists
  | notADirectory
  | isADirectory
  | invalidData
  | invalidFilename
  deriving DecidableEq, Repr

/-- The name of the kind of a fault. -/
def FileFault.kind : FileFault → String
  | .notFound => "NotFound"
  | .alreadyExists => "AlreadyExists"
  | .notADirectory => "NotADirectory"
  | .isADirectory => "IsADirectory"
  | .invalidData => "InvalidData"
  | .invalidFilename => "InvalidFilename"

/-- Files and directories below a root, which itself is a directory, each under the path that leads
to it without `..`. -/
structure Tree where
  nodes : List (Path × Node)
  deriving DecidableEq, Repr

/-- The greatest size of a name in bytes. -/
def maxNameSize : Nat := 255

namespace Tree

/-- A root without content. -/
def empty : Tree := ⟨[]⟩

/-- What stands at a path without `..`. -/
def node? (tree : Tree) (path : Path) : Option Node :=
  if path.isEmpty then some .directory else tree.nodes.lookup path

/-- Puts a node at a path, in the place of what stood there. -/
def setNode (tree : Tree) (path : Path) (node : Node) : Tree :=
  if (tree.nodes.lookup path).isSome then
    ⟨tree.nodes.map fun entry => if entry.1 = path then (path, node) else entry⟩
  else ⟨tree.nodes ++ [(path, node)]⟩

/-- Removes what stands at a path and below it. -/
def remove (tree : Tree) (path : Path) : Tree :=
  ⟨tree.nodes.filter fun entry => !path.isPrefixOf entry.1⟩

/-- Enters the directory `name` of the directory `base`. -/
def enter (tree : Tree) (base : Path) (name : String) : Except FileFault Path :=
  if name = ".." then .ok base.dropLast
  else
    match tree.node? (base ++ [name]) with
    | some .directory => .ok (base ++ [name])
    | some (.file _) => .error .notADirectory
    | none => .error .notFound

/-- The path without `..` that a path leads to; all of its names but the last must be
directories. -/
def resolve (tree : Tree) (path : Path) : Except FileFault Path :=
  match path.getLast? with
  | none => .ok []
  | some last => do
    let base ← path.dropLast.foldlM tree.enter []
    if last = ".." then pure base.dropLast
    else if maxNameSize < last.utf8ByteSize then throw .invalidFilename
    else pure (base ++ [last])

/-- What a path leads to. -/
def find? (tree : Tree) (path : Path) : Option Node :=
  match tree.resolve path with
  | .ok path => tree.node? path
  | .error _ => none

/-- Whether a path leads to a directory. -/
def isDirectory (tree : Tree) (path : Path) : Bool :=
  tree.find? path == some .directory

/-- The text of a file. -/
def readText (tree : Tree) (path : Path) : Except FileFault String := do
  let path ← tree.resolve path
  match tree.node? path with
  | none => throw .notFound
  | some .directory => throw .isADirectory
  | some (.file bytes) =>
    match Utf8.decode bytes with
    | .ok text => pure (String.ofList text)
    | .error _ => throw .invalidData

/-- The tree with a file of the given bytes. -/
def writeFile (tree : Tree) (path : Path) (bytes : List UInt8) : Except FileFault Tree := do
  let path ← tree.resolve path
  match tree.node? path with
  | some .directory => throw .isADirectory
  | _ => pure (tree.setNode path (.file bytes))

/-- The tree with a new directory. -/
def makeDirectory (tree : Tree) (path : Path) : Except FileFault Tree := do
  let path ← tree.resolve path
  match tree.node? path with
  | some _ => throw .alreadyExists
  | none => pure (tree.setNode path .directory)

/-- Makes a directory and, while its parent is missing, the parent first; a directory that is there
already is left alone.  `depth` is the number of names in the path. -/
def makeDirectoriesTo : (depth : Nat) → Tree → Path → Except FileFault Tree
  | 0, tree, _ => .ok tree
  | depth + 1, tree, path => do
    match tree.makeDirectory path with
    | .ok tree => pure tree
    | .error .notFound =>
      let tree ← makeDirectoriesTo depth tree path.dropLast
      match tree.makeDirectory path with
      | .ok tree => pure tree
      | .error fault => if tree.isDirectory path then pure tree else throw fault
    | .error fault => if tree.isDirectory path then pure tree else throw fault

/-- Makes a directory with all its parents. -/
def makeDirectories (tree : Tree) (path : Path) : Except FileFault Tree :=
  makeDirectoriesTo path.length tree path

end Tree

end Wireform.Files
