import Mathlib.Data.List.Basic
import Wireform.Files.Tree
import Wireform.Proofs.Analysis

/-!
# What operations leave of a tree

An operation on a tree puts a node at one path, and every other path leads to what it led to
(`node?_setNode`).  What a path leads to depends on the directories on the way, though, so that a new
file where a directory stood would change where other paths lead.  That does not happen: no operation
puts a file in the place of a directory, and as long as directories stay (`Keeps`), every path that
could be resolved is resolved as before (`Keeps.resolve`).

To make a directory with its parents only adds directories, each of which is a beginning of the path
(`Grown`), and leaves a tree alone in which the directory is there (`makeDirectories_of_isDirectory`).
-/
namespace Wireform.Files.Tree

/-! ## 1. Nodes -/

/-- Replacing the value of a key changes what is found for the key, and for no other. -/
theorem lookup_map_replace {κ α : Type} [BEq κ] [LawfulBEq κ] [DecidableEq κ] (key other : κ)
    (value : α) (entries : List (κ × α)) :
    (entries.map fun entry => if entry.1 = key then (key, value) else entry).lookup other =
      if other = key then (entries.lookup key).map fun _ => value else entries.lookup other := by
  induction entries with
  | nil => simp
  | cons entry entries ih =>
    obtain ⟨first, old⟩ := entry
    rw [List.map_cons]
    by_cases hfirst : first = key
    · subst hfirst
      rw [if_pos rfl, List.lookup_cons, ih]
      by_cases hother : other = first
      · subst hother
        simp
      · simp [hother, List.lookup_cons, beq_false_of_ne hother]
    · rw [if_neg hfirst, List.lookup_cons, ih, List.lookup_cons, List.lookup_cons]
      by_cases hother : other = key
      · subst hother
        simp [beq_false_of_ne (Ne.symm hfirst)]
      · simp [hother]

variable {tree middle later : Tree} {path other names : Path} {node : Node} {name : String}

theorem node?_nil : tree.node? [] = some .directory := rfl

theorem node?_of_ne_nil (hpath : path ≠ []) : tree.node? path = tree.nodes.lookup path := by
  unfold node?
  rw [if_neg (by simpa using hpath)]

/-- **A node that is put at a path is found there**, and every other path leads to what it led to. -/
theorem node?_setNode (hpath : path ≠ []) :
    (tree.setNode path node).node? other = if other = path then some node else tree.node? other := by
  by_cases hother : other = []
  · subst hother
    rw [if_neg (Ne.symm hpath), node?_nil, node?_nil]
  · rw [node?_of_ne_nil hother, node?_of_ne_nil hother]
    unfold setNode
    split
    · next hold =>
      rw [lookup_map_replace]
      split
      · obtain ⟨found, hfound⟩ := Option.isSome_iff_exists.mp hold
        rw [hfound]
        rfl
      · rfl
    · next hnew =>
      rw [Bool.not_eq_true, Option.isSome_eq_false_iff, Option.isNone_iff_eq_none] at hnew
      rw [List.lookup_append]
      split
      · next hsame =>
        rw [hsame, hnew, Option.none_or, List.lookup_cons_self]
      · next hdiffers =>
        rw [List.lookup_cons, beq_false_of_ne hdiffers]
        simp

theorem node?_setNode_self (hpath : path ≠ []) :
    (tree.setNode path node).node? path = some node := by
  rw [node?_setNode hpath, if_pos rfl]

theorem node?_setNode_of_ne (hpath : path ≠ []) (hother : other ≠ path) :
    (tree.setNode path node).node? other = tree.node? other := by
  rw [node?_setNode hpath, if_neg hother]

/-! ## 2. Resolving paths -/

/-- **What was a directory still is one.** -/
def Keeps (tree later : Tree) : Prop :=
  ∀ path, tree.node? path = some .directory → later.node? path = some .directory

theorem Keeps.refl (tree : Tree) : tree.Keeps tree := fun _ h => h

theorem Keeps.trans (h : tree.Keeps middle) (h' : middle.Keeps later) : tree.Keeps later :=
  fun path hdirectory => h' path (h path hdirectory)

theorem ne_nil_of_not_directory (hpath : tree.node? path ≠ some .directory) : path ≠ [] := by
  rintro rfl
  exact hpath node?_nil

/-- Putting a node where there is no directory keeps all directories. -/
theorem keeps_setNode (hpath : tree.node? path ≠ some .directory) :
    tree.Keeps (tree.setNode path node) := by
  intro other hdirectory
  have hother : other ≠ path := by
    rintro rfl
    exact hpath hdirectory
  rw [node?_setNode_of_ne (ne_nil_of_not_directory hpath) hother]
  exact hdirectory

theorem Keeps.enter (h : tree.Keeps later) {base : Path}
    (henter : tree.enter base name = .ok path) : later.enter base name = .ok path := by
  unfold Tree.enter at henter ⊢
  split
  · next hparent =>
    rw [if_pos hparent] at henter
    exact henter
  · next hnot =>
    rw [if_neg hnot] at henter
    split at henter
    · next hdirectory =>
      rw [h _ hdirectory]
      exact henter
    · cases henter
    · cases henter

theorem Keeps.foldlM_enter (h : tree.Keeps later) {base : Path}
    (henter : names.foldlM tree.enter base = .ok path) :
    names.foldlM later.enter base = .ok path := by
  induction names generalizing base with
  | nil => exact henter
  | cons name names ih =>
    rw [List.foldlM_cons] at henter ⊢
    obtain ⟨next, hstep, hrest⟩ := Schema.bind_eq_ok henter
    rw [h.enter hstep]
    exact ih hrest

/-- A path is resolved by entering all of its names but the last. -/
theorem resolve_append_singleton (names : Path) (last : String) :
    tree.resolve (names ++ [last]) = (do
      let base ← names.foldlM tree.enter []
      if last = ".." then pure base.dropLast
      else if maxNameSize < last.utf8ByteSize then throw .invalidFilename
      else pure (base ++ [last])) := by
  unfold resolve
  rw [List.getLast?_concat, List.dropLast_concat]

/-- **Where directories stay, paths are resolved as before.** -/
theorem Keeps.resolve (h : tree.Keeps later) (hresolve : tree.resolve names = .ok path) :
    later.resolve names = .ok path := by
  rcases List.eq_nil_or_concat names with rfl | ⟨front, last, rfl⟩
  · exact hresolve
  · rw [List.concat_eq_append, resolve_append_singleton] at hresolve ⊢
    cases hbase : front.foldlM tree.enter [] with
    | error fault =>
      rw [hbase] at hresolve
      cases hresolve
    | ok base =>
      rw [hbase] at hresolve
      rw [h.foldlM_enter hbase]
      exact hresolve

/-- A file in a directory is resolved to its place. -/
theorem resolve_file {base : Path} (hbase : names.foldlM tree.enter [] = .ok base)
    (hparent : name ≠ "..") (hsize : name.utf8ByteSize ≤ maxNameSize) :
    tree.resolve (names ++ [name]) = .ok (base ++ [name]) := by
  rw [resolve_append_singleton, hbase]
  simp only [bind, Except.bind]
  rw [if_neg hparent, if_neg (Nat.not_lt_of_le hsize)]
  rfl

theorem find?_of_resolve (h : tree.resolve names = .ok path) :
    tree.find? names = tree.node? path := by
  unfold find?
  rw [h]

theorem isDirectory_iff :
    tree.isDirectory names = true ↔
      ∃ path, tree.resolve names = .ok path ∧ tree.node? path = some .directory := by
  unfold isDirectory find?
  cases tree.resolve names with
  | error fault => simp
  | ok path => simp

theorem Keeps.isDirectory (h : tree.Keeps later) (hdirectory : tree.isDirectory names = true) :
    later.isDirectory names = true := by
  obtain ⟨path, hresolve, hnode⟩ := isDirectory_iff.mp hdirectory
  exact isDirectory_iff.mpr ⟨path, h.resolve hresolve, h path hnode⟩

/-- **A directory can be entered.** -/
theorem foldlM_enter_of_isDirectory (h : tree.isDirectory names = true) :
    ∃ base, names.foldlM tree.enter [] = .ok base ∧ tree.node? base = some .directory := by
  obtain ⟨path, hresolve, hdirectory⟩ := isDirectory_iff.mp h
  refine ⟨path, ?_, hdirectory⟩
  rcases List.eq_nil_or_concat names with rfl | ⟨front, last, rfl⟩
  · exact hresolve
  · rw [List.concat_eq_append, resolve_append_singleton] at hresolve
    obtain ⟨base, hbase, hlast⟩ := Schema.bind_eq_ok hresolve
    have hstep : tree.enter base last = .ok path := by
      unfold Tree.enter
      split at hlast
      · next hparent =>
        cases hlast
        rw [if_pos hparent]
      · next hnot =>
        split at hlast
        · cases hlast
        · cases hlast
          rw [if_neg hnot, hdirectory]
    rw [List.concat_eq_append, List.foldlM_append, hbase]
    simp only [bind, Except.bind, List.foldlM_cons, List.foldlM_nil, hstep]
    rfl

/-! ## 3. Files -/

/-- A file can be written where there is no directory. -/
theorem writeFile_of_resolve (h : tree.resolve names = .ok path)
    (hnode : tree.node? path ≠ some .directory) (bytes : List UInt8) :
    tree.writeFile names bytes = .ok (tree.setNode path (.file bytes)) := by
  unfold writeFile
  rw [h]
  simp only [bind, Except.bind]
  rfl

/-- Nothing is read where there is nothing. -/
theorem readText_of_none (h : tree.resolve names = .ok path) (hnode : tree.node? path = none) :
    tree.readText names = .error .notFound := by
  unfold readText
  rw [h]
  simp only [bind, Except.bind, hnode]
  rfl

/-- A file with a text is read as that text. -/
theorem readText_of_file (h : tree.resolve names = .ok path) {text : List Char}
    (hnode : tree.node? path = some (.file (Utf8.encode text)))
    (hdecode : Utf8.decode (Utf8.encode text) = .ok text) :
    tree.readText names = .ok (String.ofList text) := by
  unfold readText
  rw [h]
  simp only [bind, Except.bind, hnode, hdecode]
  rfl

/-! ## 4. Directories -/

/-- **Only directories were added**, and each of them is a beginning of the path. -/
def Grown (tree later : Tree) (names : Path) : Prop :=
  ∀ path, later.node? path = tree.node? path ∨
    tree.node? path = none ∧ later.node? path = some .directory ∧
      ∃ front, front <+: names ∧ later.resolve front = .ok path

theorem Grown.refl (tree : Tree) (names : Path) : tree.Grown tree names := fun _ => .inl rfl

theorem Grown.keeps (h : tree.Grown later names) : tree.Keeps later := by
  intro path hdirectory
  rcases h path with hsame | ⟨hnone, -⟩
  · rw [hsame, hdirectory]
  · rw [hdirectory] at hnone
    cases hnone

/-- One directory after the other is added. -/
theorem Grown.trans {front : Path} (h : tree.Grown middle front) (h' : middle.Grown later names)
    (hfront : front <+: names) : tree.Grown later names := by
  intro path
  rcases h' path with hsame' | ⟨hnone', hlater⟩
  · rcases h path with hsame | ⟨hnone, hmiddle, start, hstart, hresolve⟩
    · exact .inl (hsame'.trans hsame)
    · refine .inr ⟨hnone, hsame'.trans hmiddle, start, hstart.trans hfront, ?_⟩
      exact h'.keeps.resolve hresolve
  · rcases h path with hsame | ⟨-, hmiddle, -⟩
    · exact .inr ⟨hsame ▸ hnone', hlater⟩
    · rw [hmiddle] at hnone'
      cases hnone'

/-- To make a directory puts one where there is nothing. -/
theorem makeDirectory_eq_ok (h : tree.makeDirectory names = .ok later) :
    ∃ path, tree.resolve names = .ok path ∧ tree.node? path = none ∧
      later = tree.setNode path .directory := by
  obtain ⟨path, hresolve, h⟩ := Schema.bind_eq_ok h
  split at h
  · cases h
  · next hnone =>
    cases h
    exact ⟨path, hresolve, hnone, rfl⟩

/-- A directory that is made is there, and nothing else has changed. -/
theorem grown_of_makeDirectory (h : tree.makeDirectory names = .ok later) :
    tree.Grown later names ∧ later.isDirectory names = true := by
  obtain ⟨path, hresolve, hnone, rfl⟩ := makeDirectory_eq_ok h
  have hnot : tree.node? path ≠ some .directory := by simp [hnone]
  have hpath := ne_nil_of_not_directory hnot
  have hlater : (tree.setNode path .directory).resolve names = .ok path :=
    (keeps_setNode hnot).resolve hresolve
  have hdirectory : (tree.setNode path .directory).node? path = some .directory :=
    node?_setNode_self hpath
  refine ⟨fun other => ?_, isDirectory_iff.mpr ⟨path, hlater, hdirectory⟩⟩
  by_cases hother : other = path
  · subst hother
    exact .inr ⟨hnone, hdirectory, names, List.prefix_rfl, hlater⟩
  · exact .inl (node?_setNode_of_ne hpath hother)

/-- **Directories are made on the way** to the one that is asked for, which is there in the end. -/
theorem grown_of_makeDirectoriesTo {depth : Nat} (hdepth : names.length ≤ depth)
    (h : makeDirectoriesTo depth tree names = .ok later) :
    tree.Grown later names ∧ later.isDirectory names = true := by
  induction depth generalizing tree later names with
  | zero =>
    obtain rfl := List.eq_nil_of_length_eq_zero (Nat.le_zero.mp hdepth)
    cases h
    exact ⟨.refl tree [], isDirectory_iff.mpr ⟨[], rfl, node?_nil⟩⟩
  | succ depth ih =>
    unfold makeDirectoriesTo at h
    split at h
    · next made hmade =>
      cases h
      exact grown_of_makeDirectory hmade
    · obtain ⟨parent, hparent, h⟩ := Schema.bind_eq_ok h
      have hlength : names.dropLast.length ≤ depth := by
        rw [List.length_dropLast]
        omega
      have hgrown := (ih hlength hparent).1
      have hfront : names.dropLast <+: names := List.dropLast_prefix names
      split at h
      · next made hmade =>
        cases h
        obtain ⟨hmore, hdirectory⟩ := grown_of_makeDirectory hmade
        exact ⟨hgrown.trans hmore hfront, hdirectory⟩
      · split at h
        · next hdirectory =>
          cases h
          exact ⟨hgrown.trans (.refl _ names) hfront, hdirectory⟩
        · cases h
    · split at h
      · next hdirectory =>
        cases h
        exact ⟨.refl _ names, hdirectory⟩
      · cases h

/-- **Where directories are made, only those on the way are new.** -/
theorem grown_of_makeDirectories (h : tree.makeDirectories names = .ok later) :
    tree.Grown later names ∧ later.isDirectory names = true :=
  grown_of_makeDirectoriesTo Nat.le.refl h

/-- **A directory that is there is left alone.** -/
theorem makeDirectories_of_isDirectory (h : tree.isDirectory names = true) :
    tree.makeDirectories names = .ok tree := by
  obtain ⟨path, hresolve, hdirectory⟩ := isDirectory_iff.mp h
  unfold makeDirectories
  cases names.length with
  | zero => rfl
  | succ depth =>
    have hthere : tree.makeDirectory names = .error .alreadyExists := by
      unfold makeDirectory
      rw [hresolve]
      simp only [bind, Except.bind, hdirectory]
      rfl
    unfold makeDirectoriesTo
    rw [hthere]
    simp only [h, if_pos]
    rfl

end Wireform.Files.Tree
