import Mathlib.Data.List.Nodup
import Wireform.Proofs.Paths
import Wireform.Proofs.Trees
import Wireform.Proofs.Utf8

/-!
# Generating once and again

What a run does to a file depends only on what stands in the file's place: there is one place for
each file, since generated names are checked to be distinct, and no file goes where another one is
looked up.  So the deed is a function of the file and of the node in its place (`deedFor`), and a run
over all files comes down to this function (`writeEach_run`): places have what it leaves there, all
other paths have what they had.

From there everything about two runs is about a single file.  What a run leaves in a place is
protected or up to date for the next one, which therefore writes nothing; and a run that is forced
leaves what it would write again.

A run writes if the output directory can be made, the names of files are not too long, and in their
places stands nothing or a file, which has to hold a text where the file is shared (`Writable`).
-/
namespace Wireform

namespace Files

open Emit (Artifact render)

/-! ## 1. One file -/

/-- What comes second goes on where the first has ended. -/
theorem run_bind {α β : Type} {first : Run α} {next : α → Run β} {tree middle : Tree} {value : α}
    (h : first.run tree = .ok value middle) :
    (first >>= next).run tree = (next value).run middle := by
  have hfirst : first tree = .ok value middle := h
  show EStateM.bind first next tree = _
  simp only [EStateM.bind, hfirst]
  rfl

theorem run_get (tree : Tree) : (get : Run Tree).run tree = .ok tree tree := rfl

theorem change_run {path : String} {operation : Tree → Except FileFault Tree} {tree later : Tree}
    (h : operation tree = .ok later) : (change path operation).run tree = .ok () later := by
  unfold change
  rw [run_bind (run_get tree), h]
  rfl

theorem readExisting_run_none {path : String} {tree : Tree} {place : Path}
    (hpath : tree.resolve (namesOf path) = .ok place) (hnone : tree.node? place = none) :
    (readExisting path).run tree = .ok none tree := by
  unfold readExisting
  rw [run_bind (run_get tree), Tree.readText_of_none hpath hnone]
  rfl

theorem readExisting_run_text {path : String} {tree : Tree} {place : Path} {text : List Char}
    (hpath : tree.resolve (namesOf path) = .ok place)
    (hfile : tree.node? place = some (.file (Utf8.encode text))) :
    (readExisting path).run tree = .ok (some (String.ofList text)) tree := by
  unfold readExisting
  rw [run_bind (run_get tree), Tree.readText_of_file hpath hfile (Utf8.decode_encode text)]
  rfl

/-- The file that an artifact is to be. -/
def fileOf (artifact : Artifact) : Node := .file (Utf8.encode artifact.contents.toList)

/-- The place of an artifact. -/
def namesIn (dir : String) (artifact : Artifact) : Path := namesOf (joinPath dir artifact.fileName)

/-- What a run does to an artifact, given what stands in its place. -/
def deedFor (force : Bool) (artifact : Artifact) (found : Option Node) : Deed :=
  if artifact.perType then
    if !force && found.isSome then .skipped else .written
  else if found = some (fileOf artifact) then .unchanged
  else .written

/-- What the run leaves there. -/
def leftFor (force : Bool) (artifact : Artifact) (found : Option Node) : Option Node :=
  if deedFor force artifact found = .written then some (fileOf artifact) else found

/-- A file is up to date if and only if its text is that of the artifact. -/
theorem file_eq_fileOf_iff {artifact : Artifact} {text : List Char} :
    Node.file (Utf8.encode text) = fileOf artifact ↔ String.ofList text = artifact.contents := by
  constructor
  · intro h
    have hbytes : Utf8.encode text = Utf8.encode artifact.contents.toList := by injection h
    have hdecoded := Utf8.decode_encode artifact.contents.toList
    rw [← hbytes, Utf8.decode_encode] at hdecoded
    cases hdecoded
    exact String.ofList_toList
  · intro h
    unfold fileOf
    rw [← h, String.toList_ofList]

/-- An artifact can be written in a place: nothing stands there, or a file, which has to hold a text
if the artifact is shared. -/
structure Fits (artifact : Artifact) (found : Option Node) : Prop where
  notDirectory : found ≠ some .directory
  text : artifact.perType = false → ∀ bytes, found = some (.file bytes) →
    ∃ text, bytes = Utf8.encode text

/-- **What is done to an artifact** depends on what stands in its place, and nothing else is
changed. -/
theorem writeArtifact_run {settings : Settings} {artifact : Artifact} {tree : Tree} {path : Path}
    (hpath : tree.resolve (namesIn settings.outputDir artifact) = .ok path)
    (hfits : Fits artifact (tree.node? path)) :
    (writeArtifact settings artifact).run tree =
      .ok (deedFor settings.force artifact (tree.node? path))
        (if deedFor settings.force artifact (tree.node? path) = .written then
          tree.setNode path (fileOf artifact) else tree) := by
  have hwrite : (do
      change (joinPath settings.outputDir artifact.fileName) fun tree =>
        tree.writeFile (namesOf (joinPath settings.outputDir artifact.fileName))
          (Utf8.encode artifact.contents.toList)
      return Deed.written : Run Deed).run tree =
        .ok .written (tree.setNode path (fileOf artifact)) := by
    rw [run_bind (change_run (Tree.writeFile_of_resolve hpath hfits.notDirectory _))]
    rfl
  unfold writeArtifact deedFor
  dsimp only
  cases hkind : artifact.perType with
  | true =>
    rw [if_pos rfl, if_pos rfl, run_bind (run_get tree)]
    rw [show tree.find? (namesOf (joinPath settings.outputDir artifact.fileName)) = tree.node? path
      from Tree.find?_of_resolve hpath]
    split
    · rfl
    · exact hwrite
  | false =>
    rw [if_neg Bool.false_ne_true, if_neg Bool.false_ne_true]
    cases hfound : tree.node? path with
    | none =>
      rw [run_bind (readExisting_run_none hpath hfound)]
      exact hwrite
    | some node =>
      cases node with
      | directory => exact absurd hfound hfits.notDirectory
      | file bytes =>
        obtain ⟨text, rfl⟩ := hfits.text hkind bytes hfound
        rw [run_bind (readExisting_run_text hpath hfound)]
        by_cases hsame : String.ofList text = artifact.contents
        · have hfile := file_eq_fileOf_iff.mpr hsame
          rw [if_pos (by simpa using hsame), if_pos (congrArg some hfile)]
          rfl
        · have hfile : ¬some (Node.file (Utf8.encode text)) = some (fileOf artifact) :=
            fun h => hsame (file_eq_fileOf_iff.mp (Option.some.inj h))
          rw [if_neg (by simpa using hsame), if_neg hfile]
          exact hwrite

/-- **A step of a run** keeps directories, leaves in the artifact's place what is left there, and all
other paths as they are; and it leaves the whole tree as it is unless it writes. -/
theorem writeArtifact_step {settings : Settings} {artifact : Artifact} {tree : Tree} {path : Path}
    (hpath : tree.resolve (namesIn settings.outputDir artifact) = .ok path)
    {found : Option Node} (hfound : tree.node? path = found) (hfits : Fits artifact found) :
    ∃ later, (writeArtifact settings artifact).run tree =
        .ok (deedFor settings.force artifact found) later ∧
      tree.Keeps later ∧ later.node? path = leftFor settings.force artifact found ∧
      (∀ other, other ≠ path → later.node? other = tree.node? other) ∧
      (deedFor settings.force artifact found ≠ .written → later = tree) := by
  subst hfound
  have hrun := writeArtifact_run hpath hfits
  have hne := Tree.ne_nil_of_not_directory hfits.notDirectory
  unfold leftFor
  by_cases hdeed : deedFor settings.force artifact (tree.node? path) = .written
  · rw [if_pos hdeed] at hrun ⊢
    exact ⟨_, hrun, Tree.keeps_setNode hfits.notDirectory, Tree.node?_setNode_self hne,
      fun other hother => Tree.node?_setNode_of_ne hne hother, fun hnot => absurd hdeed hnot⟩
  · rw [if_neg hdeed] at hrun ⊢
    exact ⟨tree, hrun, .refl tree, rfl, fun _ _ => rfl, fun _ => rfl⟩

theorem fits_none (artifact : Artifact) : Fits artifact none where
  notDirectory := by simp
  text := by simp

/-- An artifact can be written over any text. -/
theorem fits_text (artifact : Artifact) (text : List Char) :
    Fits artifact (some (.file (Utf8.encode text))) where
  notDirectory := by simp
  text := by
    rintro - bytes hbytes
    cases hbytes
    exact ⟨text, rfl⟩

theorem fits_fileOf (artifact : Artifact) : Fits artifact (some (fileOf artifact)) :=
  fits_text artifact artifact.contents.toList

theorem Fits.leftFor {artifact : Artifact} {found : Option Node} (h : Fits artifact found)
    (force : Bool) : Fits artifact (leftFor force artifact found) := by
  unfold Files.leftFor
  split
  · exact fits_fileOf artifact
  · exact h

/-- **The next run finds every file protected or up to date.** -/
theorem deedFor_leftFor (artifact : Artifact) (found : Option Node) :
    deedFor false artifact (leftFor false artifact found) =
      if artifact.perType then .skipped else .unchanged := by
  unfold leftFor deedFor
  cases hkind : artifact.perType with
  | true => cases found <;> simp
  | false =>
    by_cases hsame : found = some (fileOf artifact)
    · simp [hsame]
    · simp [hsame]

/-- **A run that is forced leaves what it would write.** -/
theorem leftFor_true (artifact : Artifact) (found : Option Node) :
    leftFor true artifact found = some (fileOf artifact) := by
  unfold leftFor deedFor
  cases hkind : artifact.perType with
  | true => simp
  | false =>
    by_cases hsame : found = some (fileOf artifact)
    · simp [hsame]
    · simp [hsame]

/-- A file that is up to date stays as it is. -/
theorem leftFor_fileOf (force : Bool) (artifact : Artifact) :
    leftFor force artifact (some (fileOf artifact)) = some (fileOf artifact) := by
  unfold leftFor
  split <;> rfl

/-- A run that is not forced protects files of single types, and writes them where there is none. -/
theorem leftFor_perType {artifact : Artifact} (hkind : artifact.perType = true)
    (found : Option Node) : leftFor false artifact found = found.or (some (fileOf artifact)) := by
  unfold leftFor deedFor
  cases found <;> simp [hkind]

/-- Shared files are brought up to date. -/
theorem leftFor_shared {artifact : Artifact} (hkind : artifact.perType = false)
    (found : Option Node) : leftFor false artifact found = some (fileOf artifact) := by
  unfold leftFor deedFor
  by_cases hsame : found = some (fileOf artifact)
  · simp [hkind, hsame]
  · simp [hkind, hsame]

/-! ## 2. All files -/

/-- What a report says when each artifact had its deed. -/
def reportOf (dir : String) (deed : Artifact → Deed) (artifacts : List Artifact) : Report where
  written := (artifacts.filter fun artifact => deed artifact == .written).map fun artifact =>
    joinPath dir artifact.fileName
  skipped := (artifacts.filter fun artifact => deed artifact == .skipped).map fun artifact =>
    joinPath dir artifact.fileName
  unchanged := (artifacts.filter fun artifact => deed artifact == .unchanged).map fun artifact =>
    joinPath dir artifact.fileName

/-- A report, and what is reported after it. -/
def Report.append (first second : Report) : Report :=
  ⟨first.written ++ second.written, first.skipped ++ second.skipped,
    first.unchanged ++ second.unchanged⟩

theorem append_reportOf_cons (report : Report) (dir : String) (deed : Artifact → Deed)
    (artifact : Artifact) (artifacts : List Artifact) :
    (report.add (joinPath dir artifact.fileName) (deed artifact)).append
        (reportOf dir deed artifacts) =
      report.append (reportOf dir deed (artifact :: artifacts)) := by
  cases hdeed : deed artifact <;> simp [Report.add, Report.append, reportOf, hdeed]

/-- **What a run over all artifacts does** is what it does to each, as long as they have places of
their own: each place has what is left for its artifact, and all other paths have what they had. -/
theorem writeEach_run (settings : Settings) {artifacts : List Artifact} (report : Report)
    {tree : Tree} (place : Artifact → Path) (found : Artifact → Option Node)
    (hplaces : (artifacts.map place).Nodup)
    (hresolve : ∀ artifact ∈ artifacts,
      tree.resolve (namesIn settings.outputDir artifact) = .ok (place artifact))
    (hfound : ∀ artifact ∈ artifacts, tree.node? (place artifact) = found artifact)
    (hfits : ∀ artifact ∈ artifacts, Fits artifact (found artifact)) :
    ∃ later, (writeEach settings artifacts report).run tree =
        .ok (report.append (reportOf settings.outputDir
          (fun artifact => deedFor settings.force artifact (found artifact)) artifacts)) later ∧
      tree.Keeps later ∧
      (∀ artifact ∈ artifacts,
        later.node? (place artifact) = leftFor settings.force artifact (found artifact)) ∧
      (∀ path, path ∉ artifacts.map place → later.node? path = tree.node? path) ∧
      ((∀ artifact ∈ artifacts, deedFor settings.force artifact (found artifact) ≠ .written) →
        later = tree) := by
  induction artifacts generalizing tree report with
  | nil =>
    refine ⟨tree, ?_, .refl tree, by simp, fun _ _ => rfl, fun _ => rfl⟩
    simp [writeEach, reportOf, Report.append]
  | cons artifact artifacts ih =>
    obtain ⟨hnew, hrest⟩ := List.nodup_cons.mp hplaces
    obtain ⟨middle, hrun, hkeeps, hleft, hframe, hsame⟩ := writeArtifact_step
      (hresolve artifact List.mem_cons_self) (hfound artifact List.mem_cons_self)
      (hfits artifact List.mem_cons_self)
    have hothers : ∀ other ∈ artifacts, place other ≠ place artifact := by
      rintro other hother heq
      exact hnew (heq ▸ List.mem_map_of_mem hother)
    obtain ⟨later, hlater, hkeeps', hleft', hframe', hsame'⟩ :=
      ih (report.add (joinPath settings.outputDir artifact.fileName)
          (deedFor settings.force artifact (found artifact))) hrest
        (fun other hother => hkeeps.resolve (hresolve other (List.mem_cons_of_mem _ hother)))
        (fun other hother => (hframe _ (hothers other hother)).trans
          (hfound other (List.mem_cons_of_mem _ hother)))
        (fun other hother => hfits other (List.mem_cons_of_mem _ hother))
    refine ⟨later, ?_, hkeeps.trans hkeeps', ?_, ?_, ?_⟩
    · unfold writeEach
      rw [run_bind hrun, ← append_reportOf_cons]
      exact hlater
    · intro other hother
      rcases List.mem_cons.mp hother with rfl | hmem
      · exact (hframe' _ hnew).trans hleft
      · exact hleft' other hmem
    · intro path hpath
      rw [List.map_cons, List.mem_cons, not_or] at hpath
      exact (hframe' path hpath.2).trans (hframe path hpath.1)
    · intro hdeeds
      have hmiddle := hsame (hdeeds artifact List.mem_cons_self)
      exact (hsame' fun other hother => hdeeds other (List.mem_cons_of_mem _ hother)).trans hmiddle

/-! ## 3. Runs -/

/-- All files can be written into the output directory: their names are not too long, and each fits
in its place. -/
structure Writable (dir : String) (artifacts : List Artifact) (tree : Tree) : Prop where
  sizes : ∀ artifact ∈ artifacts, artifact.fileName.utf8ByteSize ≤ maxNameSize
  fits : ∀ artifact ∈ artifacts, Fits artifact (tree.find? (namesIn dir artifact))

/-- **Only the places of artifacts have changed.** -/
def ChangedOnly (dir : String) (artifacts : List Artifact) (tree later : Tree) : Prop :=
  ∀ path, (∀ artifact ∈ artifacts, tree.resolve (namesIn dir artifact) ≠ .ok path) →
    later.node? path = tree.node? path

/-- **Each file has a place of its own** in a directory that is there. -/
theorem exists_places {dir : String} {artifacts : List Artifact} {tree : Tree}
    (hdir : tree.isDirectory (namesOf dir) = true)
    (hsizes : ∀ artifact ∈ artifacts, artifact.fileName.utf8ByteSize ≤ maxNameSize)
    (hnames : (artifacts.map Artifact.fileName).Nodup)
    (hsingle : ∀ artifact ∈ artifacts, IsSingle artifact.fileName) :
    ∃ place : Artifact → Path, (artifacts.map place).Nodup ∧
      ∀ artifact ∈ artifacts, tree.resolve (namesIn dir artifact) = .ok (place artifact) := by
  obtain ⟨base, hbase, -⟩ := Tree.foldlM_enter_of_isDirectory hdir
  refine ⟨fun artifact => base ++ [artifact.fileName], ?_, fun artifact hartifact => ?_⟩
  · have hinjective : Function.Injective fun name : String => base ++ [name] :=
      fun first second heq => List.singleton_inj.mp (List.append_cancel_left heq)
    have hmapped := List.Nodup.map hinjective hnames
    rwa [List.map_map] at hmapped
  · have hname := hsingle artifact hartifact
    unfold namesIn
    rw [namesOf_joinPath dir hname]
    exact Tree.resolve_file hbase hname.notParent (hsizes artifact hartifact)

/-- **A run from a directory that is there** does to each artifact what it does to what it finds. -/
theorem writeArtifacts_run {dir : String} {artifacts : List Artifact} {tree : Tree}
    (hdir : tree.isDirectory (namesOf dir) = true) (hwritable : Writable dir artifacts tree)
    (hnames : (artifacts.map Artifact.fileName).Nodup)
    (hsingle : ∀ artifact ∈ artifacts, IsSingle artifact.fileName) (force : Bool) :
    ∃ later, (writeArtifacts artifacts ⟨dir, force⟩).run tree =
        .ok (reportOf dir (fun artifact =>
          deedFor force artifact (tree.find? (namesIn dir artifact))) artifacts) later ∧
      tree.Keeps later ∧
      (∀ artifact ∈ artifacts, later.find? (namesIn dir artifact) =
        leftFor force artifact (tree.find? (namesIn dir artifact))) ∧
      ChangedOnly dir artifacts tree later ∧
      ((∀ artifact ∈ artifacts,
        deedFor force artifact (tree.find? (namesIn dir artifact)) ≠ .written) → later = tree) := by
  obtain ⟨place, hplaces, hresolve⟩ := exists_places hdir hwritable.sizes hnames hsingle
  obtain ⟨later, hrun, hkeeps, hleft, hframe, hsame⟩ := writeEach_run ⟨dir, force⟩ .empty place
    (fun artifact => tree.find? (namesIn dir artifact)) hplaces hresolve
    (fun artifact hartifact => (Tree.find?_of_resolve (hresolve artifact hartifact)).symm)
    hwritable.fits
  refine ⟨later, ?_, hkeeps, fun artifact hartifact => ?_, fun path hpath => ?_, hsame⟩
  · unfold writeArtifacts
    rw [run_bind (change_run (Tree.makeDirectories_of_isDirectory hdir)), hrun]
    simp [Report.append, Report.empty]
  · rw [← hleft artifact hartifact]
    exact Tree.find?_of_resolve (hkeeps.resolve (hresolve artifact hartifact))
  · refine hframe path fun hmem => ?_
    obtain ⟨artifact, hartifact, rfl⟩ := List.mem_map.mp hmem
    exact hpath artifact hartifact (hresolve artifact hartifact)

/-- Making the directory comes first. -/
theorem writeArtifacts_run_made {dir : String} {artifacts : List Artifact} {tree ready : Tree}
    (hmade : tree.makeDirectories (namesOf dir) = .ok ready) (force : Bool) :
    (writeArtifacts artifacts ⟨dir, force⟩).run tree =
      (writeArtifacts artifacts ⟨dir, force⟩).run ready := by
  have hthere := Tree.makeDirectories_of_isDirectory (Tree.grown_of_makeDirectories hmade).2
  unfold writeArtifacts
  rw [run_bind (change_run hmade), run_bind (change_run hthere)]

theorem generate_run {decls : List Schema.TypeDecl} {artifacts : List Artifact}
    (h : render decls = .ok artifacts) (settings : Settings) (tree : Tree) :
    (generate decls settings).run tree = (writeArtifacts artifacts settings).run tree := by
  unfold generate
  rw [h]

theorem generate_run_error {decls : List Schema.TypeDecl} {error : Schema.SchemaError}
    (h : render decls = .error error) (settings : Settings) (tree : Tree) :
    (generate decls settings).run tree = .error (.schema error) tree := by
  unfold generate
  rw [h]
  rfl

/-- The report of a run that finds every file protected or up to date. -/
theorem reportOf_settled {dir : String} {artifacts : List Artifact} {deed : Artifact → Deed}
    (h : ∀ artifact ∈ artifacts,
      deed artifact = if artifact.perType then .skipped else .unchanged) :
    reportOf dir deed artifacts = ⟨[],
      (artifacts.filter fun artifact => artifact.perType).map fun artifact =>
        joinPath dir artifact.fileName,
      (artifacts.filter fun artifact => !artifact.perType).map fun artifact =>
        joinPath dir artifact.fileName⟩ := by
  have hwritten : (artifacts.filter fun artifact => deed artifact == .written) = [] := by
    rw [List.filter_eq_nil_iff]
    intro artifact hartifact
    rw [h artifact hartifact]
    cases artifact.perType <;> decide
  have hskipped : (artifacts.filter fun artifact => deed artifact == .skipped) =
      artifacts.filter fun artifact => artifact.perType := by
    refine List.filter_congr fun artifact hartifact => ?_
    rw [h artifact hartifact]
    cases artifact.perType <;> decide
  have hunchanged : (artifacts.filter fun artifact => deed artifact == .unchanged) =
      artifacts.filter fun artifact => !artifact.perType := by
    refine List.filter_congr fun artifact hartifact => ?_
    rw [h artifact hartifact]
    cases artifact.perType <;> decide
  unfold reportOf
  rw [hwritten, hskipped, hunchanged]
  rfl

/-- **What a run leaves that is not forced.**  Files of single types that were there are as they were,
those that were missing and the shared files are as rendered, and nothing else has changed. -/
structure Protected (dir : String) (artifacts : List Artifact) (tree later : Tree) : Prop where
  existing : ∀ artifact ∈ artifacts, artifact.perType = true → ∀ node,
    tree.find? (namesIn dir artifact) = some node → later.find? (namesIn dir artifact) = some node
  missing : ∀ artifact ∈ artifacts, artifact.perType = true →
    tree.find? (namesIn dir artifact) = none →
      later.find? (namesIn dir artifact) = some (fileOf artifact)
  shared : ∀ artifact ∈ artifacts, artifact.perType = false →
    later.find? (namesIn dir artifact) = some (fileOf artifact)
  others : ChangedOnly dir artifacts tree later

section

variable {dir : String} {artifacts : List Artifact} {tree later : Tree}

/-- What can be written once can be written over what was left. -/
theorem Writable.leftFor (h : Writable dir artifacts tree) {force : Bool}
    (hleft : ∀ artifact ∈ artifacts, later.find? (namesIn dir artifact) =
      leftFor force artifact (tree.find? (namesIn dir artifact))) : Writable dir artifacts later := by
  refine ⟨h.sizes, fun artifact hartifact => ?_⟩
  rw [hleft artifact hartifact]
  exact (h.fits artifact hartifact).leftFor force

/-- A run that is not forced protects what was there. -/
theorem protected_of_leftFor
    (hleft : ∀ artifact ∈ artifacts, later.find? (namesIn dir artifact) =
      leftFor false artifact (tree.find? (namesIn dir artifact)))
    (hothers : ChangedOnly dir artifacts tree later) : Protected dir artifacts tree later where
  existing := by
    intro artifact hartifact hkind node hnode
    rw [hleft artifact hartifact, leftFor_perType hkind, hnode]
    rfl
  missing := by
    intro artifact hartifact hkind hnode
    rw [hleft artifact hartifact, leftFor_perType hkind, hnode]
    rfl
  shared := by
    intro artifact hartifact hkind
    rw [hleft artifact hartifact, leftFor_shared hkind]
  others := hothers

/-- **A run that is not forced settles the tree**: the same run again changes nothing. -/
theorem writeArtifacts_unforced (hdir : tree.isDirectory (namesOf dir) = true)
    (hwritable : Writable dir artifacts tree) (hnames : (artifacts.map Artifact.fileName).Nodup)
    (hsingle : ∀ artifact ∈ artifacts, IsSingle artifact.fileName) :
    ∃ final, (writeArtifacts artifacts ⟨dir, false⟩).run tree =
        .ok (reportOf dir (fun artifact =>
          deedFor false artifact (tree.find? (namesIn dir artifact))) artifacts) final ∧
      Protected dir artifacts tree final ∧
      (writeArtifacts artifacts ⟨dir, false⟩).run final =
        .ok ⟨[], (artifacts.filter fun artifact => artifact.perType).map fun artifact =>
            joinPath dir artifact.fileName,
          (artifacts.filter fun artifact => !artifact.perType).map fun artifact =>
            joinPath dir artifact.fileName⟩ final := by
  obtain ⟨final, hrun, hkeeps, hleft, hothers, -⟩ :=
    writeArtifacts_run hdir hwritable hnames hsingle false
  obtain ⟨last, hlast, -, -, -, hsame⟩ := writeArtifacts_run (hkeeps.isDirectory hdir)
    (hwritable.leftFor hleft) hnames hsingle false
  have hdeeds : ∀ artifact ∈ artifacts,
      deedFor false artifact (final.find? (namesIn dir artifact)) =
        if artifact.perType then .skipped else .unchanged := by
    intro artifact hartifact
    rw [hleft artifact hartifact]
    exact deedFor_leftFor artifact _
  have hlastSame : last = final := by
    refine hsame fun artifact hartifact => ?_
    rw [hdeeds artifact hartifact]
    cases artifact.perType <;> decide
  rw [hlastSame, reportOf_settled hdeeds] at hlast
  exact ⟨final, hrun, protected_of_leftFor hleft hothers, hlast⟩

/-- **After a run that is forced all files are as rendered**, and no further run changes a place. -/
theorem writeArtifacts_forced (hdir : tree.isDirectory (namesOf dir) = true)
    (hwritable : Writable dir artifacts tree) (hnames : (artifacts.map Artifact.fileName).Nodup)
    (hsingle : ∀ artifact ∈ artifacts, IsSingle artifact.fileName) :
    ∃ final, (writeArtifacts artifacts ⟨dir, true⟩).run tree =
        .ok (reportOf dir (fun artifact =>
          deedFor true artifact (tree.find? (namesIn dir artifact))) artifacts) final ∧
      (∀ artifact ∈ artifacts, final.find? (namesIn dir artifact) = some (fileOf artifact)) ∧
      ChangedOnly dir artifacts tree final ∧
      ∀ force, ∃ report last, (writeArtifacts artifacts ⟨dir, force⟩).run final = .ok report last ∧
        ∀ path, last.node? path = final.node? path := by
  obtain ⟨final, hrun, hkeeps, hleft, hothers, -⟩ :=
    writeArtifacts_run hdir hwritable hnames hsingle true
  have hfiles : ∀ artifact ∈ artifacts,
      final.find? (namesIn dir artifact) = some (fileOf artifact) := by
    intro artifact hartifact
    rw [hleft artifact hartifact, leftFor_true]
  refine ⟨final, hrun, hfiles, hothers, fun force => ?_⟩
  obtain ⟨last, hlast, hkeepsLast, hleftLast, hothersLast, -⟩ := writeArtifacts_run
    (hkeeps.isDirectory hdir) (hwritable.leftFor hleft) hnames hsingle force
  refine ⟨_, last, hlast, fun path => ?_⟩
  by_cases hplace : ∃ artifact ∈ artifacts, final.resolve (namesIn dir artifact) = .ok path
  · -- what stands in the place is what would be written there
    obtain ⟨artifact, hartifact, hpath⟩ := hplace
    have hbefore := hfiles artifact hartifact
    have hafter := hleftLast artifact hartifact
    rw [hbefore, leftFor_fileOf, Tree.find?_of_resolve (hkeepsLast.resolve hpath)] at hafter
    rw [Tree.find?_of_resolve hpath] at hbefore
    rw [hafter, hbefore]
  · refine hothersLast path fun artifact hartifact hpath => ?_
    exact hplace ⟨artifact, hartifact, hpath⟩

end

/-- **Generation is idempotent and protects files.**  Where declarations are refused, the tree is as it
was.  Otherwise the output directory is made, with its parents if they are missing, and files are
written only then.

A run that is not forced leaves files as in `Protected`, and the same run again changes nothing at
all: it skips all files of single types and finds both shared ones unchanged.  After a run that is
forced all files are as rendered, and no further run changes any of them. -/
theorem generation_protects_and_settles (decls : List Schema.TypeDecl) (dir : String)
    (tree : Tree) :
    (∀ error, render decls = .error error → ∀ force,
      (generate decls ⟨dir, force⟩).run tree = .error (.schema error) tree) ∧
    ∀ artifacts, render decls = .ok artifacts → ∀ ready,
      tree.makeDirectories (namesOf dir) = .ok ready → Writable dir artifacts ready →
      (tree.Grown ready (namesOf dir) ∧
        (tree.isDirectory (namesOf dir) = true → ready = tree)) ∧
      (∃ final, (generate decls ⟨dir, false⟩).run tree =
          .ok (reportOf dir (fun artifact =>
            deedFor false artifact (ready.find? (namesIn dir artifact))) artifacts) final ∧
        Protected dir artifacts ready final ∧
        (generate decls ⟨dir, false⟩).run final =
          .ok ⟨[], (artifacts.filter fun artifact => artifact.perType).map fun artifact =>
              joinPath dir artifact.fileName,
            (artifacts.filter fun artifact => !artifact.perType).map fun artifact =>
              joinPath dir artifact.fileName⟩ final) ∧
      ∃ final, (generate decls ⟨dir, true⟩).run tree =
          .ok (reportOf dir (fun artifact =>
            deedFor true artifact (ready.find? (namesIn dir artifact))) artifacts) final ∧
        (∀ artifact ∈ artifacts, final.find? (namesIn dir artifact) = some (fileOf artifact)) ∧
        ChangedOnly dir artifacts ready final ∧
        ∀ force, ∃ report last, (generate decls ⟨dir, force⟩).run final = .ok report last ∧
          ∀ path, last.node? path = final.node? path := by
  refine ⟨fun error herror force => generate_run_error herror _ tree, ?_⟩
  intro artifacts hrender ready hmade hwritable
  obtain ⟨hnames, hsingle⟩ := Emit.names_of_render hrender
  obtain ⟨hgrown, hdir⟩ := Tree.grown_of_makeDirectories hmade
  simp only [generate_run hrender, writeArtifacts_run_made hmade]
  refine ⟨⟨hgrown, fun hthere => ?_⟩, writeArtifacts_unforced hdir hwritable hnames hsingle,
    writeArtifacts_forced hdir hwritable hnames hsingle⟩
  have hsame := Tree.makeDirectories_of_isDirectory hthere
  rw [hmade] at hsame
  exact Except.ok.inj hsame

end Files

namespace Samples

open Files (Tree)

/-- An output directory with a file of links that somebody has edited. -/
def editedTree : Tree := ⟨[(["out"], .directory), (["out", "link.rs"], .file [104, 105])]⟩

end Samples

namespace Files

open Emit (Artifact render)
open Samples (editedTree frameStruct linkStruct)

theorem namesOf_out : namesOf "out" = ["out"] :=
  IsSingle.namesOf ⟨by decide, by decide, by decide, by decide⟩

/-- The files of frames and links, and where they are. -/
theorem namesIn_frames {artifacts : List Artifact}
    (h : render [.struct frameStruct, .struct linkStruct] = .ok artifacts) :
    ∀ artifact ∈ artifacts, namesIn "out" artifact = ["out", artifact.fileName] ∧
      artifact.fileName ∈ ["frame.rs", "link.rs", "dispatch.rs", "mod.rs"] := by
  have hfiles : artifacts.map Artifact.fileName =
      ["frame.rs", "link.rs", "dispatch.rs", "mod.rs"] := by
    rw [Emit.fileNames_of_render h]
    decide
  intro artifact hartifact
  refine ⟨?_, hfiles ▸ List.mem_map_of_mem hartifact⟩
  unfold namesIn
  rw [namesOf_joinPath "out" ((Emit.names_of_render h).2 artifact hartifact), namesOf_out]
  rfl

/-- An output directory that is there is not made. -/
theorem makeDirectories_out {tree : Tree} (h : tree.isDirectory ["out"] = true) :
    tree.makeDirectories (namesOf "out") = .ok tree := by
  rw [namesOf_out]
  exact Tree.makeDirectories_of_isDirectory h

/-- Files can be written beside one that somebody has edited, which is protected then. -/
theorem generation_protects_and_settles_link :
    ∃ artifacts, render [.struct frameStruct, .struct linkStruct] = .ok artifacts ∧
      editedTree.makeDirectories (namesOf "out") = .ok editedTree ∧
      Writable "out" artifacts editedTree ∧
      ∃ report final, (generate [.struct frameStruct, .struct linkStruct] ⟨"out", false⟩).run
          editedTree = .ok report final ∧
        Protected "out" artifacts editedTree final := by
  obtain ⟨artifacts, hrender⟩ := Samples.render_frames
  obtain ⟨-, hruns⟩ :=
    generation_protects_and_settles [.struct frameStruct, .struct linkStruct] "out" editedTree
  have hmade : editedTree.makeDirectories (namesOf "out") = .ok editedTree :=
    makeDirectories_out (by decide)
  have hlink : editedTree.find? ["out", "link.rs"] = some (.file (Utf8.encode ['h', 'i'])) := by
    decide
  have hwritable : Writable "out" artifacts editedTree := by
    refine ⟨fun artifact hartifact => ?_, fun artifact hartifact => ?_⟩
    all_goals
      obtain ⟨hplace, hname⟩ := namesIn_frames hrender artifact hartifact
      simp only [List.mem_cons, List.not_mem_nil, or_false] at hname
    · rcases hname with h | h | h | h <;> rw [h] <;> decide
    · rw [hplace]
      rcases hname with h | h | h | h <;> rw [h]
      · exact fits_none artifact
      · exact hlink ▸ fits_text artifact ['h', 'i']
      · exact fits_none artifact
      · exact fits_none artifact
  obtain ⟨-, ⟨final, hrun, hprotected, -⟩, -⟩ := hruns artifacts hrender editedTree hmade hwritable
  exact ⟨artifacts, hrender, hmade, hwritable, _, final, hrun, hprotected⟩

end Files

end Wireform
