import Mathlib.Data.String.Basic
import Wireform.Files.Generation
import Wireform.Proofs.Naming

/-!
# Paths of generated files

The path of a generated file is a text, the directory's and the file's name with a slash between
them if there is none.  What it leads to depends on its names alone, and these are the names of the
directory and then that of the file (`namesOf_joinPath`).  So far as the directory goes this is one
equation about a text with a slash in it (`namesOf_append_slash`).  As for the file, its name has to
be a single one: without a slash, and none of those that stand for no name or for the parent.  The
names of sources are of that kind (`IsSourceName.isSingle`), since their stems have small letters,
digits and underscores only.
-/
namespace Wireform

namespace Files

/-! ## 1. Names between slashes -/

/-- A text is split on the way as a list of characters is: `before` has been split off, `middle` has
been passed since. -/
theorem splitOnAux_slash (before middle rest : List Char) (parts : List String) :
    String.splitOnAux (String.ofList (before ++ middle ++ rest)) "/" ⟨String.utf8Len before⟩
        ⟨String.utf8Len (before ++ middle)⟩ 0 parts =
      parts.reverse ++
        (List.splitOnPPrepend (· == '/') rest middle.reverse).map String.ofList := by
  induction rest generalizing before middle parts with
  | nil =>
    have hend := (String.atEnd_of_valid (before ++ middle) []).mpr rfl
    have hextract := String.extract_of_valid before middle []
    rw [← String.utf8Len_append] at hextract
    unfold String.splitOnAux
    rw [if_pos hend, hextract]
    simp
  | cons c rest ih =>
    have hend : ¬String.Pos.Raw.atEnd (String.ofList (before ++ middle ++ c :: rest))
        ⟨String.utf8Len (before ++ middle)⟩ = true :=
      fun h => by cases (String.atEnd_of_valid (before ++ middle) (c :: rest)).mp h
    have hget := String.get_of_valid (before ++ middle) (c :: rest)
    have hnext := String.next_of_valid (before ++ middle) c rest
    have hextract := String.extract_of_valid before middle (c :: rest)
    have hslash : String.Pos.Raw.get "/" 0 = '/' := by decide
    have hpast : String.Pos.Raw.next "/" 0 = ⟨1⟩ := by decide
    rw [← String.utf8Len_append] at hextract
    unfold String.splitOnAux
    rw [if_neg hend, hget, hslash, List.headD_cons, List.splitOnPPrepend_cons_eq_if]
    split
    · next hc =>
      rw [beq_iff_eq] at hc
      subst hc
      have hrest := ih (before ++ middle ++ ['/']) [] (String.ofList middle :: parts)
      have hstop : (⟨String.utf8Len (before ++ middle) + Char.utf8Size '/'⟩ : String.Pos.Raw) =
          ⟨String.utf8Len (before ++ middle ++ ['/'])⟩ := by
        simp [Nat.add_assoc]
      have hback : String.Pos.Raw.unoffsetBy ⟨String.utf8Len (before ++ middle ++ ['/'])⟩ ⟨1⟩ =
          ⟨String.utf8Len (before ++ middle)⟩ := by
        rw [← hstop]
        rfl
      have hlast : String.Pos.Raw.atEnd "/" ⟨1⟩ = true := by decide
      simp only [hnext, hpast, hstop, hback, hextract]
      rw [if_pos hlast]
      simpa using hrest
    · next hc =>
      have hrest := ih before (middle ++ [c]) parts
      have hstop : (⟨String.utf8Len (before ++ middle) + Char.utf8Size c⟩ : String.Pos.Raw) =
          ⟨String.utf8Len (before ++ (middle ++ [c]))⟩ := by
        simp [Nat.add_assoc]
      have hback : String.Pos.Raw.unoffsetBy ⟨String.utf8Len (before ++ middle)⟩ 0 =
          ⟨String.utf8Len (before ++ middle)⟩ := rfl
      simp only [hback, hnext, hstop]
      simpa using hrest

theorem splitOn_slash (path : String) :
    path.splitOn "/" = (path.toList.splitOnP (· == '/')).map String.ofList := by
  have haux := splitOnAux_slash [] [] path.toList []
  have hseparator : ("/" == "") = false := by decide
  unfold String.splitOn
  rw [hseparator]
  simpa using haux

/-- **The names of a path with a slash in it** are those before the slash and those behind it. -/
theorem namesOf_append_slash (before behind : String) :
    namesOf (before ++ "/" ++ behind) = namesOf before ++ namesOf behind := by
  have htoList : (before ++ "/" ++ behind).toList = before.toList ++ '/' :: behind.toList := by simp
  unfold namesOf
  rw [splitOn_slash, splitOn_slash, splitOn_slash, htoList,
    List.splitOnP_append_cons before.toList behind.toList rfl, List.map_append, List.filter_append]

/-- The name is one of a file: it is not empty, is neither the directory itself nor its parent, and
has no slash. -/
structure IsSingle (name : String) : Prop where
  noSlash : '/' ∉ name.toList
  notEmpty : name ≠ ""
  notHere : name ≠ "."
  notParent : name ≠ ".."

theorem IsSingle.namesOf {name : String} (h : IsSingle name) : namesOf name = [name] := by
  have hnone : ∀ c ∈ name.toList, (c == '/') = false := by
    intro c hc
    rw [beq_eq_false_iff_ne]
    rintro rfl
    exact h.noSlash hc
  unfold Files.namesOf
  rw [splitOn_slash, List.splitOnP_eq_singleton hnone]
  simp [h.notEmpty, h.notHere]

theorem namesOf_empty : namesOf "" = [] := by
  simp [namesOf, splitOn_slash]

/-- **A file in a directory is found by the names of the directory and then its own.** -/
theorem namesOf_joinPath (dir : String) {file : String} (h : IsSingle file) :
    namesOf (joinPath dir file) = namesOf dir ++ [file] := by
  unfold joinPath
  split
  · next hends =>
    rw [Bool.or_eq_true] at hends
    rcases hends with hempty | hslash
    · have hdir : dir = "" := by simpa using hempty
      rw [hdir, String.empty_append, namesOf_empty, h.namesOf, List.nil_append]
    · obtain ⟨front, hfront⟩ : ∃ front, dir = front ++ "/" := by
        have hsuffix := String.Slice.endsWith_string_iff.mp hslash
        rw [String.copy_toSlice] at hsuffix
        obtain ⟨front, hfront⟩ := hsuffix
        exact ⟨String.ofList front, String.toList_injective (by simp [← hfront])⟩
      have hdir : namesOf (front ++ "/" ++ "") = namesOf front := by
        rw [namesOf_append_slash, namesOf_empty, List.append_nil]
      rw [String.append_empty] at hdir
      rw [hfront, hdir, namesOf_append_slash, h.namesOf]
  · rw [namesOf_append_slash, h.namesOf]

end Files

namespace Emit

open Files (IsSingle)
open Schema (TypeDecl)

/-! ## 2. Names of generated files -/

/-- **The name of a source is a single one**, and none of those that stand for directories. -/
theorem IsSourceName.isSingle {name : String} (h : IsSourceName name) : IsSingle name := by
  obtain ⟨stem, -, hchars, rfl⟩ := h
  have hlength : 3 ≤ (stem ++ ".rs").toList.length := by simp
  refine ⟨fun hmem => ?_, fun heq => ?_, fun heq => ?_, fun heq => ?_⟩
  · rw [String.toList_append] at hmem
    rcases List.mem_append.mp hmem with hstem | hending
    · exact absurd (hchars '/' hstem) (by decide)
    · exact absurd hending (by decide)
  all_goals
    rw [heq] at hlength
    exact absurd hlength (by decide)

/-- **Files have single names, and each its own.** -/
theorem names_of_render {decls : List TypeDecl} {artifacts : List Artifact}
    (h : render decls = .ok artifacts) :
    (artifacts.map Artifact.fileName).Nodup ∧
      ∀ artifact ∈ artifacts, IsSingle artifact.fileName := by
  obtain ⟨lowered, hlowered, -⟩ := render_eq_ok_iff.mp h
  obtain ⟨known, tags, last, -, hnames, -, -⟩ := lowerAll_eq_ok_iff.mp hlowered
  refine ⟨fileNames_of_render h ▸ (checkGeneratedNames_eq_ok_iff.mp hnames).1,
    fun artifact hartifact => (isSourceName_of_render h artifact hartifact).isSingle⟩

end Emit

end Wireform
