import Wireform.Proofs.Regeneration

/-!
# Forced runs over any old files

A run that is forced is meant to replace whatever stands in the places of its files.  A file of a
single type is written without a look at the old one.  A shared file is compared with the old one
first, as a text, and an old file that holds no text ends the run with `invalidData`
(`writeArtifact_run_illegible`).

So a forced run over any old files succeeds exactly if those of shared artifacts are legible, and
then all files are as rendered.  Otherwise it halts at the first one that is not: the files before it
have been replaced, among them those of all types, since these come first (`Emit.parts_of_render`);
that file and the ones behind it are what they were (`Halted`).
-/
namespace Wireform

namespace Emit

/-- **Files of types come before the shared ones**, which are the dispatch table and the listing. -/
theorem parts_of_render {decls : List Schema.TypeDecl} {artifacts : List Artifact}
    (h : render decls = .ok artifacts) :
    ∃ types table listing, artifacts = types ++ [table, listing] ∧
      (∀ artifact ∈ types, artifact.perType = true) ∧
      (table.perType = false ∧ table.fileName = dispatchFile) ∧
      (listing.perType = false ∧ listing.fileName = listingFile) := by
  obtain ⟨lowered, -, rfl⟩ := render_eq_ok_iff.mp h
  refine ⟨_, _, _, rfl, ?_, ⟨rfl, rfl⟩, rfl, rfl⟩
  refine List.forall_mem_map.mpr fun type _ => ?_
  cases type <;> rfl

/-- What stands before a shared file in a run holds all files of types. -/
theorem mem_front_of_render {decls : List Schema.TypeDecl} {front back : List Artifact}
    {artifact : Artifact} (h : render decls = .ok (front ++ artifact :: back))
    (hshared : artifact.perType = false) :
    ∀ other ∈ front ++ artifact :: back, other.perType = true → other ∈ front := by
  obtain ⟨types, table, listing, hparts, htypes, ⟨htable, -⟩, hlisting, -⟩ := parts_of_render h
  have hordered : (front ++ artifact :: back).Pairwise
      fun first second => second.perType = true → first.perType = true := by
    rw [hparts]
    refine List.pairwise_append.mpr ⟨?_, ?_, fun first hfirst _ _ _ => htypes first hfirst⟩
    · exact List.pairwise_of_forall_mem_list fun first hfirst _ _ _ => htypes first hfirst
    · simp [hlisting]
  have hbehind := (List.pairwise_cons.mp (List.pairwise_append.mp hordered).2.1).1
  intro other hother hkind
  rcases List.mem_append.mp hother with hmem | hmem
  · exact hmem
  rcases List.mem_cons.mp hmem with rfl | hmem
  · rw [hshared] at hkind
    cases hkind
  · rw [hshared] at hbehind
    cases hbehind other hmem hkind

end Emit

namespace Files

open Emit (Artifact render)

/-! ## 1. Old files -/

/-- What an artifact is compared with, if it is, can be read: an old file that is shared holds a
text. -/
def Legible (artifact : Artifact) (found : Option Node) : Prop :=
  artifact.perType = false → ∀ bytes, found = some (.file bytes) → ∃ text, bytes = Utf8.encode text

theorem not_legible_iff {artifact : Artifact} {found : Option Node} :
    ¬Legible artifact found ↔ artifact.perType = false ∧
      ∃ bytes, found = some (.file bytes) ∧ ∀ text, bytes ≠ Utf8.encode text := by
  simp [Legible]

theorem legible_none (artifact : Artifact) : Legible artifact none := (fits_none artifact).text

/-- Files of types are not read. -/
theorem legible_of_perType {artifact : Artifact} (h : artifact.perType = true)
    (found : Option Node) : Legible artifact found := by
  simp [Legible, h]

/-- **Files can be replaced**: their names are not too long, and in their places stands nothing or a
file, of any bytes. -/
structure Replaceable (dir : String) (artifacts : List Artifact) (tree : Tree) : Prop where
  sizes : ∀ artifact ∈ artifacts, artifact.fileName.utf8ByteSize ≤ maxNameSize
  notDirectory : ∀ artifact ∈ artifacts, tree.find? (namesIn dir artifact) ≠ some .directory

/-- What can be replaced can be written if it is legible. -/
theorem writable_iff {dir : String} {artifacts : List Artifact} {tree : Tree} :
    Writable dir artifacts tree ↔ Replaceable dir artifacts tree ∧
      ∀ artifact ∈ artifacts, Legible artifact (tree.find? (namesIn dir artifact)) := by
  constructor
  · intro h
    exact ⟨⟨h.sizes, fun artifact hartifact => (h.fits artifact hartifact).notDirectory⟩,
      fun artifact hartifact => (h.fits artifact hartifact).text⟩
  · rintro ⟨h, hlegible⟩
    exact ⟨h.sizes, fun artifact hartifact =>
      ⟨h.notDirectory artifact hartifact, hlegible artifact hartifact⟩⟩

/-- All old files are legible, or there is a first one that is not. -/
theorem legible_or_first (found : Artifact → Option Node) (artifacts : List Artifact) :
    (∀ artifact ∈ artifacts, Legible artifact (found artifact)) ∨
      ∃ front artifact back, artifacts = front ++ artifact :: back ∧
        (∀ other ∈ front, Legible other (found other)) ∧ ¬Legible artifact (found artifact) := by
  induction artifacts with
  | nil => exact .inl (by simp)
  | cons head rest ih =>
    by_cases hhead : Legible head (found head)
    · rcases ih with hall | ⟨front, artifact, back, rfl, hfront, hartifact⟩
      · exact .inl (List.forall_mem_cons.mpr ⟨hhead, hall⟩)
      · exact .inr ⟨head :: front, artifact, back, rfl,
          List.forall_mem_cons.mpr ⟨hhead, hfront⟩, hartifact⟩
    · exact .inr ⟨[], head, rest, rfl, by simp, hhead⟩

/-! ## 2. Where a run halts -/

/-- What fails first ends the run. -/
theorem run_bind_error {α β : Type} {first : Run α} {next : α → Run β} {tree later : Tree}
    {error : GenerateError} (h : first.run tree = .error error later) :
    (first >>= next).run tree = .error error later := by
  have hfirst : first tree = .error error later := h
  show EStateM.bind first next tree = _
  simp only [EStateM.bind, hfirst]

theorem readExisting_run_illegible {path : String} {tree : Tree} {place : Path}
    {bytes : List UInt8} (hpath : tree.resolve (namesOf path) = .ok place)
    (hfile : tree.node? place = some (.file bytes)) (hbytes : ∀ text, bytes ≠ Utf8.encode text) :
    (readExisting path).run tree = .error (.file path .invalidData) tree := by
  have hread : tree.readText (namesOf path) = .error .invalidData := by
    unfold Tree.readText
    rw [hpath]
    simp only [bind, Except.bind, hfile]
    cases hdecode : Utf8.decode bytes with
    | error fault => rfl
    | ok text => exact absurd (Utf8.encode_of_decode hdecode).symm (hbytes text)
  unfold readExisting
  rw [run_bind (run_get tree), hread]
  rfl

/-- **An old file that is no text is not replaced**: the run ends there, forced or not. -/
theorem writeArtifact_run_illegible {settings : Settings} {artifact : Artifact} {tree : Tree}
    {path : Path} (hpath : tree.resolve (namesIn settings.outputDir artifact) = .ok path)
    (hfound : ¬Legible artifact (tree.node? path)) :
    (writeArtifact settings artifact).run tree =
      .error (.file (joinPath settings.outputDir artifact.fileName) .invalidData) tree := by
  obtain ⟨hkind, bytes, hfile, hbytes⟩ := not_legible_iff.mp hfound
  unfold writeArtifact
  dsimp only
  rw [hkind, if_neg Bool.false_ne_true]
  exact run_bind_error (readExisting_run_illegible hpath hfile hbytes)

/-- Artifacts are written from the first to the last. -/
theorem writeEach_append (settings : Settings) (front back : List Artifact) (report : Report) :
    writeEach settings (front ++ back) report =
      writeEach settings front report >>= writeEach settings back := by
  induction front generalizing report with
  | nil => simp [writeEach]
  | cons artifact rest ih => simp [writeEach, ih]

theorem writeArtifacts_append (front back : List Artifact) (settings : Settings) :
    writeArtifacts (front ++ back) settings =
      writeArtifacts front settings >>= writeEach settings back := by
  simp [writeArtifacts, writeEach_append]

/-- **What a run leaves that has halted**: the files in front are as rendered, those behind are what
they were, and nothing else has changed. -/
structure Halted (dir : String) (front back : List Artifact) (tree later : Tree) : Prop where
  replaced : ∀ artifact ∈ front, later.find? (namesIn dir artifact) = some (fileOf artifact)
  kept : ∀ artifact ∈ back,
    later.find? (namesIn dir artifact) = tree.find? (namesIn dir artifact)
  others : ChangedOnly dir front tree later

section

variable {dir : String} {front back : List Artifact} {artifact : Artifact} {tree : Tree}

/-- **A forced run halts at the first old file that it cannot read.** -/
theorem writeArtifacts_halted (hdir : tree.isDirectory (namesOf dir) = true)
    (hreplaceable : Replaceable dir (front ++ artifact :: back) tree)
    (hnames : ((front ++ artifact :: back).map Artifact.fileName).Nodup)
    (hsingle : ∀ other ∈ front ++ artifact :: back, IsSingle other.fileName)
    (hfront : ∀ other ∈ front, Legible other (tree.find? (namesIn dir other)))
    (hartifact : ¬Legible artifact (tree.find? (namesIn dir artifact))) :
    ∃ final, (writeArtifacts (front ++ artifact :: back) ⟨dir, true⟩).run tree =
        .error (.file (joinPath dir artifact.fileName) .invalidData) final ∧
      Halted dir front (artifact :: back) tree final := by
  have hmem : ∀ other ∈ front, other ∈ front ++ artifact :: back :=
    fun other hother => List.mem_append_left _ hother
  have hmem' : ∀ other ∈ artifact :: back, other ∈ front ++ artifact :: back :=
    fun other hother => List.mem_append_right _ hother
  obtain ⟨place, hplaces, hresolve⟩ := exists_places hdir hreplaceable.sizes hnames hsingle
  rw [List.map_append] at hplaces hnames
  have hwritable : Writable dir front tree := writable_iff.mpr
    ⟨⟨fun other hother => hreplaceable.sizes other (hmem other hother),
      fun other hother => hreplaceable.notDirectory other (hmem other hother)⟩, hfront⟩
  obtain ⟨final, hrun, hkeeps, hleft, hothers, -⟩ := writeArtifacts_run hdir hwritable
    (List.nodup_append.mp hnames).1 (fun other hother => hsingle other (hmem other hother)) true
  -- the places behind are none of those in front
  have hsame : ∀ other ∈ artifact :: back,
      final.node? (place other) = tree.node? (place other) := by
    intro other hother
    refine hothers _ fun earlier hearlier hpath => ?_
    have hplace : place earlier = place other :=
      Except.ok.inj ((hresolve earlier (hmem earlier hearlier)).symm.trans hpath)
    exact (List.nodup_append.mp hplaces).2.2 _ (List.mem_map_of_mem hearlier) _
      (List.mem_map_of_mem hother) hplace
  have hkept : ∀ other ∈ artifact :: back,
      final.find? (namesIn dir other) = tree.find? (namesIn dir other) := by
    intro other hother
    have hpath := hresolve other (hmem' other hother)
    rw [Tree.find?_of_resolve (hkeeps.resolve hpath), Tree.find?_of_resolve hpath]
    exact hsame other hother
  refine ⟨final, ?_, fun other hother => ?_, hkept, hothers⟩
  · have hpath := hkeeps.resolve (hresolve artifact (hmem' artifact List.mem_cons_self))
    rw [← hkept artifact List.mem_cons_self, Tree.find?_of_resolve hpath] at hartifact
    rw [writeArtifacts_append, run_bind hrun, writeEach]
    exact run_bind_error (writeArtifact_run_illegible hpath hartifact)
  · rw [hleft other hother, leftFor_true]

end

/-! ## 3. Forced runs -/

section

variable {decls : List Schema.TypeDecl} {artifacts : List Artifact} {dir : String}
  {tree ready : Tree}

/-- **A forced run halts behind all files of types**, which have been replaced. -/
theorem generate_halted (hrender : render decls = .ok artifacts)
    (hmade : tree.makeDirectories (namesOf dir) = .ok ready)
    (hreplaceable : Replaceable dir artifacts ready) {front back : List Artifact}
    {artifact : Artifact} (hsplit : artifacts = front ++ artifact :: back)
    (hfront : ∀ other ∈ front, Legible other (ready.find? (namesIn dir other)))
    (hartifact : ¬Legible artifact (ready.find? (namesIn dir artifact))) :
    ∃ final, (generate decls ⟨dir, true⟩).run tree =
        .error (.file (joinPath dir artifact.fileName) .invalidData) final ∧
      Halted dir front (artifact :: back) ready final ∧
      ∀ other ∈ artifacts, other.perType = true → other ∈ front := by
  obtain ⟨hnames, hsingle⟩ := Emit.names_of_render hrender
  subst hsplit
  obtain ⟨final, hrun, hhalted⟩ := writeArtifacts_halted
    (Tree.grown_of_makeDirectories hmade).2 hreplaceable hnames hsingle hfront hartifact
  refine ⟨final, ?_, hhalted, Emit.mem_front_of_render hrender (not_legible_iff.mp hartifact).1⟩
  rw [generate_run hrender, writeArtifacts_run_made hmade]
  exact hrun

/-- Where all old files are legible, a forced run succeeds. -/
theorem generate_refreshed (hrender : render decls = .ok artifacts)
    (hmade : tree.makeDirectories (namesOf dir) = .ok ready)
    (hwritable : Writable dir artifacts ready) :
    ∃ report final, (generate decls ⟨dir, true⟩).run tree = .ok report final ∧
      (∀ artifact ∈ artifacts, final.find? (namesIn dir artifact) = some (fileOf artifact)) ∧
      ChangedOnly dir artifacts ready final := by
  obtain ⟨hnames, hsingle⟩ := Emit.names_of_render hrender
  obtain ⟨final, hrun, hfiles, hothers, -⟩ := writeArtifacts_forced
    (Tree.grown_of_makeDirectories hmade).2 hwritable hnames hsingle
  rw [generate_run hrender, writeArtifacts_run_made hmade]
  exact ⟨_, final, hrun, hfiles, hothers⟩

/-- **A forced run over any old files succeeds exactly if the shared ones are legible.**  If it
succeeds, all files are as rendered and nothing else has changed.  If it fails, then at the first old
file of a shared artifact that is no text, and it leaves the directory half updated: the files before
that one are as rendered, those of all types among them, and it and the files behind it are what they
were. -/
theorem forced_generation_succeeds_iff (hrender : render decls = .ok artifacts)
    (hmade : tree.makeDirectories (namesOf dir) = .ok ready)
    (hreplaceable : Replaceable dir artifacts ready) :
    ((∃ report final, (generate decls ⟨dir, true⟩).run tree = .ok report final) ↔
      ∀ artifact ∈ artifacts, Legible artifact (ready.find? (namesIn dir artifact))) ∧
    (∀ report final, (generate decls ⟨dir, true⟩).run tree = .ok report final →
      (∀ artifact ∈ artifacts, final.find? (namesIn dir artifact) = some (fileOf artifact)) ∧
        ChangedOnly dir artifacts ready final) ∧
    ∀ error final, (generate decls ⟨dir, true⟩).run tree = .error error final →
      ∃ front artifact back, artifacts = front ++ artifact :: back ∧
        (∀ other ∈ front, Legible other (ready.find? (namesIn dir other))) ∧
        ¬Legible artifact (ready.find? (namesIn dir artifact)) ∧
        error = .file (joinPath dir artifact.fileName) .invalidData ∧
        Halted dir front (artifact :: back) ready final ∧
        ∀ other ∈ artifacts, other.perType = true → other ∈ front := by
  rcases legible_or_first (fun artifact => ready.find? (namesIn dir artifact)) artifacts with
    hlegible | ⟨front, artifact, back, hsplit, hfront, hartifact⟩
  · obtain ⟨report, final, hrun, hfiles, hothers⟩ :=
      generate_refreshed hrender hmade (writable_iff.mpr ⟨hreplaceable, hlegible⟩)
    rw [hrun]
    refine ⟨⟨fun _ => hlegible, fun _ => ⟨report, final, rfl⟩⟩, ?_, ?_⟩
    · rintro _ _ ⟨⟩
      exact ⟨hfiles, hothers⟩
    · rintro _ _ ⟨⟩
  · obtain ⟨final, hrun, hhalted, htypes⟩ :=
      generate_halted hrender hmade hreplaceable hsplit hfront hartifact
    rw [hrun]
    refine ⟨⟨?_, fun hlegible => ?_⟩, ?_, ?_⟩
    · rintro ⟨_, _, ⟨⟩⟩
    · exact absurd (hlegible artifact (hsplit ▸ by simp)) hartifact
    · rintro _ _ ⟨⟩
    · rintro _ _ ⟨⟩
      exact ⟨front, artifact, back, hsplit, hfront, hartifact, rfl, hhalted, htypes⟩

end

end Files

namespace Samples

open Files (Tree)

/-- An output directory with a file of links that is no text: links are not shared. -/
def garbledLinkTree : Tree := ⟨[(["out"], .directory), (["out", "link.rs"], .file [0xff])]⟩

/-- An output directory with a listing that is no text. -/
def garbledListingTree : Tree := ⟨[(["out"], .directory), (["out", "mod.rs"], .file [0xff])]⟩

end Samples

namespace Files

open Emit (Artifact render)
open Samples (frameStruct garbledLinkTree garbledListingTree linkStruct)

/-- Frames and links can be generated over any file in the output directory. -/
theorem replaceable_frames {artifacts : List Artifact}
    (h : render [.struct frameStruct, .struct linkStruct] = .ok artifacts) {tree : Tree}
    (hfound : ∀ name ∈ ["frame.rs", "link.rs", "dispatch.rs", "mod.rs"],
      tree.find? ["out", name] ≠ some .directory) : Replaceable "out" artifacts tree := by
  refine ⟨fun artifact hartifact => ?_, fun artifact hartifact => ?_⟩
  all_goals obtain ⟨hplace, hname⟩ := namesIn_frames h artifact hartifact
  · have hsizes : ∀ name ∈ ["frame.rs", "link.rs", "dispatch.rs", "mod.rs"],
        name.utf8ByteSize ≤ maxNameSize := by decide
    exact hsizes _ hname
  · rw [hplace]
    exact hfound _ hname

/-- A file of a type is replaced even if it was no text. -/
theorem forced_generation_succeeds_iff_link :
    ∃ artifacts, render [.struct frameStruct, .struct linkStruct] = .ok artifacts ∧
      garbledLinkTree.makeDirectories (namesOf "out") = .ok garbledLinkTree ∧
      Replaceable "out" artifacts garbledLinkTree ∧
      ∃ report final, (generate [.struct frameStruct, .struct linkStruct] ⟨"out", true⟩).run
          garbledLinkTree = .ok report final ∧
        ∀ artifact ∈ artifacts, final.find? (namesIn "out" artifact) = some (fileOf artifact) := by
  obtain ⟨artifacts, hrender⟩ := Samples.render_frames
  have hmade : garbledLinkTree.makeDirectories (namesOf "out") = .ok garbledLinkTree :=
    makeDirectories_out (by decide)
  have hreplaceable : Replaceable "out" artifacts garbledLinkTree :=
    replaceable_frames hrender (by decide)
  have hlegible : ∀ artifact ∈ artifacts,
      Legible artifact (garbledLinkTree.find? (namesIn "out" artifact)) := by
    obtain ⟨types, table, listing, hparts, htypes, ⟨-, htable⟩, -, hlisting⟩ :=
      Emit.parts_of_render hrender
    intro artifact hartifact
    rw [(namesIn_frames hrender artifact hartifact).1]
    rw [hparts, List.mem_append, List.mem_pair] at hartifact
    rcases hartifact with htype | rfl | rfl
    · exact legible_of_perType (htypes artifact htype) _
    · exact htable ▸ legible_none artifact
    · exact hlisting ▸ legible_none artifact
  obtain ⟨hsucceeds, hrefreshed, -⟩ := forced_generation_succeeds_iff hrender hmade hreplaceable
  obtain ⟨report, final, hrun⟩ := hsucceeds.mpr hlegible
  exact ⟨artifacts, hrender, hmade, hreplaceable, report, final, hrun,
    (hrefreshed report final hrun).1⟩

/-- **A listing that is no text is not replaced**: the forced run halts there, and keeps it. -/
theorem forced_generation_halts_listing :
    ∃ artifacts, render [.struct frameStruct, .struct linkStruct] = .ok artifacts ∧
      garbledListingTree.makeDirectories (namesOf "out") = .ok garbledListingTree ∧
      Replaceable "out" artifacts garbledListingTree ∧
      ∃ final, (generate [.struct frameStruct, .struct linkStruct] ⟨"out", true⟩).run
          garbledListingTree = .error (.file "out/mod.rs" .invalidData) final ∧
        final.find? ["out", "mod.rs"] = some (.file [0xff]) := by
  obtain ⟨artifacts, hrender⟩ := Samples.render_frames
  have hmade : garbledListingTree.makeDirectories (namesOf "out") = .ok garbledListingTree :=
    makeDirectories_out (by decide)
  have hreplaceable : Replaceable "out" artifacts garbledListingTree :=
    replaceable_frames hrender (by decide)
  obtain ⟨types, table, listing, rfl, htypes, ⟨-, htable⟩, hshared, hlisting⟩ :=
    Emit.parts_of_render hrender
  have hplace : namesIn "out" listing = ["out", "mod.rs"] := by
    rw [(namesIn_frames hrender listing (by simp)).1, hlisting]
    rfl
  have hold : garbledListingTree.find? ["out", "mod.rs"] = some (.file [0xff]) := by decide
  have hfront : ∀ other ∈ types ++ [table],
      Legible other (garbledListingTree.find? (namesIn "out" other)) := by
    intro other hother
    rcases List.mem_append.mp hother with htype | hmem
    · exact legible_of_perType (htypes other htype) _
    · obtain rfl := List.mem_singleton.mp hmem
      rw [(namesIn_frames hrender other (by simp)).1, htable]
      exact legible_none other
  have hnotText : ∀ text, [0xff] ≠ Utf8.encode text := by
    intro text htext
    have hdecode := Utf8.decode_encode text
    rw [← htext] at hdecode
    cases hdecode
  have hillegible : ¬Legible listing (garbledListingTree.find? (namesIn "out" listing)) := by
    rw [hplace, hold]
    exact not_legible_iff.mpr ⟨hshared, [0xff], rfl, hnotText⟩
  obtain ⟨final, hrun, hhalted, -⟩ := generate_halted hrender hmade hreplaceable
    (List.append_cons types table [listing]) hfront hillegible
  have hkept := hhalted.kept listing List.mem_cons_self
  rw [hplace, hold] at hkept
  have hpath : joinPath "out" Emit.listingFile = "out/mod.rs" := by decide +kernel
  rw [hlisting, hpath] at hrun
  exact ⟨_, hrender, hmade, hreplaceable, final, hrun, hkept⟩

end Files

end Wireform
