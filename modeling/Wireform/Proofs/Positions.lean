import Wireform.Proofs.Grammar
import Wireform.Schema.TypeRef.ByteReader

/-!
# Type references at byte positions

`ByteReader` reads a type reference by byte positions and slices, and has no result where a slice
would cut a character or the fuel runs out.  Neither happens: it stands at the position of a suffix
of its text (`position`) all the way, and each nested type is read from a shorter suffix.  So it
answers what `TypeRef.parse` answers (`parse_eq_answer`), of which the grammar is known.

Each operation at the position of a suffix is compared with the operation on the suffix itself; a
sequence of operations is compared step by step (`answer_bind`).
-/
namespace Wireform.Schema

open TypeRef (byteLength)

/-! ## 1. Slices at the ends of characters -/

@[simp] theorem byteLength_cons (c : Char) (text : List Char) :
    byteLength (c :: text) = c.utf8Size + byteLength text := rfl

@[simp] theorem byteLength_append (front text : List Char) :
    byteLength (front ++ text) = byteLength front + byteLength text := by
  induction front with
  | nil => simp [byteLength]
  | cons c front ih => simp [ih, Nat.add_assoc]

theorem byteLength_eq_zero_iff {text : List Char} : byteLength text = 0 ↔ text = [] := by
  cases text with
  | nil => simp [byteLength]
  | cons c text =>
    have hpos := c.utf8Size_pos
    simp
    omega

theorem sliceFrom_append (front text : List Char) :
    sliceFrom (front ++ text) (byteLength front) = some text := by
  induction front with
  | nil => simp [byteLength, sliceFrom]
  | cons c front ih =>
    obtain ⟨size, hsize⟩ := Nat.exists_eq_add_one.mpr c.utf8Size_pos
    have hpos : byteLength (c :: front) = (size + byteLength front) + 1 := by
      simp [hsize]
      omega
    rw [hpos, List.cons_append, sliceFrom, if_pos (by omega), hsize]
    rwa [show size + byteLength front + 1 - (size + 1) = byteLength front by omega]

theorem sliceTo_append (front text : List Char) :
    sliceTo (front ++ text) (byteLength front) = some front := by
  induction front with
  | nil => simp [byteLength, sliceTo]
  | cons c front ih =>
    obtain ⟨size, hsize⟩ := Nat.exists_eq_add_one.mpr c.utf8Size_pos
    have hpos : byteLength (c :: front) = (size + byteLength front) + 1 := by
      simp [hsize]
      omega
    rw [hpos, List.cons_append, sliceTo, if_pos (by omega), hsize,
      show size + byteLength front + 1 - (size + 1) = byteLength front by omega, ih]
    rfl

namespace ByteReader

variable {input text behind : List Char} {α β γ δ : Type}

/-- The byte position at which a suffix of the text starts. -/
def position (input text : List Char) : Nat := byteLength input - byteLength text

theorem position_append (front text : List Char) :
    position (front ++ text) text = byteLength front := by
  simp [position]

/-- A part of a suffix lies behind the suffix by its own bytes. -/
theorem position_behind {front : List Char} (h : front ++ behind <:+ input) :
    position input (front ++ behind) + byteLength front = position input behind := by
  obtain ⟨before, rfl⟩ := h
  simp [position]
  omega

theorem position_eq_byteLength_iff (h : text <:+ input) :
    position input text = byteLength input ↔ text = [] := by
  obtain ⟨before, rfl⟩ := h
  simp [position, ← byteLength_eq_zero_iff]

/-- A reading that has a result. -/
def answer (result : Except TypeRefFault α) : Reading α := ExceptT.mk (some result)

theorem lift_some (value : α) : (ExceptT.lift (some value) : Reading α) = pure value := rfl

/-- Readings are compared step by step. -/
theorem answer_bind {result : Except TypeRefFault α} {next : α → Except TypeRefFault β}
    {place : α → γ} {place' : β → δ} {next' : γ → Reading δ}
    (h : ∀ value, result = .ok value → next' (place value) = answer ((next value).map place')) :
    (answer (result.map place) >>= next') = answer ((result >>= next).map place') := by
  cases result with
  | error fault => rfl
  | ok value => exact h value rfl

/-! ## 2. Operations at the position of a suffix -/

theorem rest_position (h : text <:+ input) : rest input (position input text) = pure text := by
  obtain ⟨before, rfl⟩ := h
  rw [position_append, rest, sliceFrom_append]
  rfl

theorem skipBlanks_suffix (text : List Char) : TypeRef.skipBlanks text <:+ text :=
  List.dropWhile_suffix _

theorem skipBlanks_position (h : text <:+ input) :
    skipBlanks input (position input text) = pure (position input (TypeRef.skipBlanks text)) := by
  rw [skipBlanks, rest_position h, pure_bind]
  rfl

/-- The next character is eaten. -/
theorem eat_eq_true {c : Char} (h : text <:+ input)
    (hnext : TypeRef.skipBlanks text = c :: behind) :
    eat input c (position input text) = pure (true, position input behind) := by
  have hsuffix : c :: behind <:+ input := hnext ▸ (skipBlanks_suffix text).trans h
  have hbehind := position_behind (show [c] ++ behind <:+ input from hsuffix)
  have hone : byteLength [c] = c.utf8Size := rfl
  simp only [List.singleton_append, hone] at hbehind
  rw [eat, skipBlanks_position h, pure_bind, hnext, rest_position hsuffix, pure_bind,
    List.head?_cons, if_pos rfl, hbehind]

/-- Another character than the next one is not eaten. -/
theorem eat_eq_false {c : Char} (h : text <:+ input)
    (hnext : (TypeRef.skipBlanks text).head? ≠ some c) :
    eat input c (position input text) = pure (false, position input (TypeRef.skipBlanks text)) := by
  rw [eat, skipBlanks_position h, pure_bind, rest_position ((skipBlanks_suffix text).trans h),
    pure_bind, if_neg hnext]

theorem expect_position {c : Char} (h : text <:+ input) :
    expect input c (position input text) =
      answer ((TypeRef.expect (byteLength input) c text).map (position input)) := by
  unfold expect TypeRef.expect
  cases hnext : TypeRef.skipBlanks text with
  | nil =>
    rw [eat_eq_false h (by simp [hnext]), hnext, pure_bind]
    rfl
  | cons d behind =>
    dsimp only
    split
    · next hsame =>
      subst hsame
      rw [eat_eq_true h hnext, pure_bind]
      rfl
    · next hother =>
      rw [eat_eq_false h (by simpa [hnext] using hother), hnext, pure_bind]
      rfl

/-- A value and what is left of the text, with the position instead of the suffix. -/
def atPosition (input : List Char) (read : α × List Char) : α × Nat :=
  (read.1, position input read.2)

theorem takeName_position (h : text <:+ input) :
    takeName input (position input text) =
      answer ((TypeRef.takeName (byteLength input) text).map (atPosition input)) := by
  have hsuffix := (skipBlanks_suffix text).trans h
  have hsplit := (List.takeWhile_append_dropWhile (p := isIdentChar)
    (l := TypeRef.skipBlanks text)).symm
  have hbehind := position_behind (hsplit ▸ hsuffix)
  have hslice := sliceTo_append ((TypeRef.skipBlanks text).takeWhile isIdentChar)
    ((TypeRef.skipBlanks text).dropWhile isIdentChar)
  rw [← hsplit] at hbehind hslice
  rw [takeName, skipBlanks_position h, pure_bind, rest_position hsuffix, pure_bind]
  dsimp only
  rw [hslice, hbehind, lift_some, pure_bind]
  unfold TypeRef.takeName
  dsimp only
  cases hname : (TypeRef.skipBlanks text).takeWhile isIdentChar with
  | nil => rfl
  | cons c name =>
    rw [List.head?_cons, Option.any_some]
    dsimp only
    cases isIdentStart c with
    | false => rfl
    | true => rfl

/-- What is left behind white space goes on with none. -/
theorem isBlank_of_skipBlanks {c : Char} (h : TypeRef.skipBlanks text = c :: behind) :
    Text.isBlank c = false := by
  have hhead := List.head?_dropWhile_not Text.isBlank text
  rw [TypeRef.skipBlanks] at h
  simpa [h] using hhead

/-- Question marks are taken where they stand, within as many steps as there are characters. -/
theorem takeMarks_position {fuel : Nat} {type : TypeRef} (h : text <:+ input)
    (hfuel : text.length < fuel) :
    takeMarks input fuel type (position input text) =
      pure (atPosition input (TypeRef.takeMarks text type)) := by
  induction fuel generalizing text type with
  | zero => omega
  | succ fuel ih =>
    obtain ⟨blanks, hblanks, htext⟩ := TypeRef.exists_blanks text
    have hmarks :
        TypeRef.takeMarks text type = TypeRef.takeMarks (TypeRef.skipBlanks text) type := by
      conv_lhs => rw [htext, TypeRef.takeMarks_append hblanks]
    have hsuffix := (skipBlanks_suffix text).trans h
    have hlength := (skipBlanks_suffix text).length_le
    rw [takeMarks, hmarks]
    cases hnext : TypeRef.skipBlanks text with
    | nil =>
      rw [eat_eq_false h (by simp [hnext]), hnext, pure_bind]
      rfl
    | cons c behind =>
      rw [hnext] at hsuffix hlength
      by_cases hmark : c = '?'
      · subst hmark
        rw [eat_eq_true h hnext, pure_bind, TypeRef.takeMarks_mark]
        exact ih ((List.suffix_cons _ _).trans hsuffix) (by simp at hlength; omega)
      · have hstop : TypeRef.takeMarks (c :: behind) type = (type, c :: behind) :=
          TypeRef.takeMarks_cons (isBlank_of_skipBlanks hnext) hmark blank_nil
        rw [eat_eq_false h (by simpa [hnext] using hmark), hnext, pure_bind, hstop]
        rfl

/-- One type is read as from the suffix itself, within as many steps as the suffix has characters. -/
theorem parseType_position {fuel : Nat} (h : text <:+ input) (hfuel : text.length < fuel) :
    parseType input fuel (position input text) =
      answer ((TypeRef.parseType (byteLength input) fuel text).map (atPosition input)) := by
  induction fuel generalizing text with
  | zero => omega
  | succ fuel ih =>
    rw [parseType, TypeRef.parseType, takeName_position h]
    refine answer_bind ?_
    rintro ⟨name, left⟩ hname
    obtain ⟨hleft, hshort⟩ := TypeRef.length_lt_of_takeName hname
    have hwithin : ∀ {behind : List Char}, behind <:+ left →
        behind <:+ input ∧ behind.length < fuel := by
      intro behind hbehind
      have hlength := hbehind.length_le
      exact ⟨(hbehind.trans hleft).trans h, by omega⟩
    have hmarks : ∀ {type : TypeRef} {behind : List Char}, behind <:+ left →
        takeMarks input (fuel + 1) type (position input behind) =
          answer (Except.map (atPosition input) (pure (TypeRef.takeMarks behind type))) :=
      fun hbehind => takeMarks_position (hwithin hbehind).1 (Nat.lt_succ_of_lt (hwithin hbehind).2)
    dsimp only [atPosition]
    by_cases hcollection : name = "list" ∨ name = "array"
    · rw [if_pos hcollection, if_pos hcollection, expect_position (hwithin (List.suffix_refl _)).1]
      refine answer_bind fun opened hopen => ?_
      have hopened := TypeRef.suffix_of_expect hopen
      rw [ih (hwithin hopened).1 (hwithin hopened).2]
      refine answer_bind ?_
      rintro ⟨element, closed⟩ helement
      have hclosed := (TypeRef.length_lt_of_parseType helement).1.trans hopened
      dsimp only [atPosition]
      rw [expect_position (hwithin hclosed).1]
      refine answer_bind fun behind hclose => ?_
      exact hmarks ((TypeRef.suffix_of_expect hclose).trans hclosed)
    · rw [if_neg hcollection, if_neg hcollection]
      by_cases hmap : name = "map"
      · rw [if_pos hmap, if_pos hmap, expect_position (hwithin (List.suffix_refl _)).1]
        refine answer_bind fun opened hopen => ?_
        have hopened := TypeRef.suffix_of_expect hopen
        rw [ih (hwithin hopened).1 (hwithin hopened).2]
        refine answer_bind ?_
        rintro ⟨key, middle⟩ hkey
        have hmiddle := (TypeRef.length_lt_of_parseType hkey).1.trans hopened
        dsimp only [atPosition]
        rw [expect_position (hwithin hmiddle).1]
        refine answer_bind fun second hcomma => ?_
        have hsecond := (TypeRef.suffix_of_expect hcomma).trans hmiddle
        rw [ih (hwithin hsecond).1 (hwithin hsecond).2]
        refine answer_bind ?_
        rintro ⟨value, closed⟩ hvalue
        have hclosed := (TypeRef.length_lt_of_parseType hvalue).1.trans hsecond
        dsimp only [atPosition]
        rw [expect_position (hwithin hclosed).1]
        refine answer_bind fun behind hclose => ?_
        exact hmarks ((TypeRef.suffix_of_expect hclose).trans hclosed)
      · rw [if_neg hmap, if_neg hmap]
        cases Primitive.ofName? name with
        | some p => exact hmarks (List.suffix_refl _)
        | none => exact hmarks (List.suffix_refl _)

/-! ## 3. Whole texts -/

/-- **The reader by positions answers every text**, as the one by characters does. -/
theorem parse_eq_answer (text : String) :
    parse text.toList (text.toList.length + 1) = answer (TypeRef.parse text) := by
  have hread := parseType_position (List.suffix_refl text.toList) (Nat.lt_succ_self _)
  have hstart : position text.toList text.toList = 0 := Nat.sub_self _
  rw [hstart] at hread
  have hid : answer (TypeRef.parse text) = answer ((TypeRef.parse text).map id) := by
    cases TypeRef.parse text <;> rfl
  rw [hid, parse, TypeRef.parse, hread]
  refine answer_bind ?_
  rintro ⟨type, left⟩ hresult
  have hleft := (TypeRef.length_lt_of_parseType hresult).1
  have hend := (skipBlanks_suffix left).trans hleft
  dsimp only [atPosition]
  rw [skipBlanks_position hleft, pure_bind]
  cases hnext : TypeRef.skipBlanks left with
  | nil =>
    rw [hnext] at hend
    rw [if_pos ((position_eq_byteLength_iff hend).mpr rfl)]
    rfl
  | cons c behind =>
    rw [hnext] at hend
    rw [if_neg (mt (position_eq_byteLength_iff hend).mp (List.cons_ne_nil c behind)),
      rest_position hend, pure_bind]
    rfl

end ByteReader

theorem ofText?_eq (text : String) :
    TypeRef.ofText? text = some ((TypeRef.parse text).mapError (.invalidTypeRef text)) := by
  rw [TypeRef.ofText?, ← String.length_toList, ByteReader.parse_eq_answer]
  rfl

/-- **The reader accepts exactly the grammar.**  It gives a reference for a text exactly if the text
is made of the tokens of the reference, with white space before, between and after them, and the
reference means declared types by identifiers that are neither primitives nor lead a collection.
So it reads the written form of each such reference.  Every other text is an invalid type reference;
none leaves the reader without a result. -/
theorem reads_exactly_references (text : String) :
    (∀ ref : TypeRef, TypeRef.ofText? text = some (.ok ref) ↔
      ref.WellNamed ∧ Spaced ref.tokens text.toList) ∧
    (∀ ref : TypeRef, ref.WellNamed → text = ref.text → TypeRef.ofText? text = some (.ok ref)) ∧
    ((∀ ref : TypeRef, ref.WellNamed → ¬ Spaced ref.tokens text.toList) →
      ∃ fault, TypeRef.ofText? text = some (.error (.invalidTypeRef text fault))) := by
  have hread : ∀ ref : TypeRef, TypeRef.ofText? text = some (.ok ref) ↔
      ref.WellNamed ∧ Spaced ref.tokens text.toList := by
    intro ref
    rw [ofText?_eq, Option.some_inj, ← TypeRef.parse_eq_ok_iff]
    cases TypeRef.parse text <;> simp [Except.mapError]
  refine ⟨hread, ?_, ?_⟩
  · rintro ref hnames rfl
    exact (hread ref).mpr ⟨hnames, TypeRef.spaced_text ref⟩
  · intro hnone
    cases hresult : TypeRef.parse text with
    | ok ref =>
      obtain ⟨hnames, hspaced⟩ := TypeRef.parse_eq_ok_iff.mp hresult
      exact absurd hspaced (hnone ref hnames)
    | error fault => exact ⟨fault, by rw [ofText?_eq, hresult]; rfl⟩

/-- A nullable map, with an ideographic space, no space and a tabulator between tokens; the map as it
is written; and a text with a character of two bytes where a mark is missing. -/
theorem reads_exactly_references_map :
    (TypeRef.WellNamed (.optional (.map (.primitive .string) (.list (.optional (.named "Point"))))) ∧
      Spaced (TypeRef.tokens (.optional (.map (.primitive .string) (.list (.optional (.named "Point"))))))
        "map<\u3000string,list <Point?\t>>?".toList) ∧
    TypeRef.ofText? "map<string, list<Point?>>?" =
      some (.ok (.optional (.map (.primitive .string) (.list (.optional (.named "Point")))))) ∧
    ∃ fault, TypeRef.ofText? "list<uéx>" = some (.error (.invalidTypeRef "list<uéx>" fault)) := by
  have hspaced := ((reads_exactly_references "map<\u3000string,list <Point?\t>>?").1
    (.optional (.map (.primitive .string) (.list (.optional (.named "Point")))))).mp rfl
  refine ⟨hspaced, (reads_exactly_references _).2.1 _ hspaced.1 rfl,
    (reads_exactly_references _).2.2 fun ref hnames hspelled => ?_⟩
  have hread := ((reads_exactly_references "list<uéx>").1 ref).mpr ⟨hnames, hspelled⟩
  cases hread

end Wireform.Schema
