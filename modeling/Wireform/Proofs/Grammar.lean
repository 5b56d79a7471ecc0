import Mathlib.Data.List.TakeWhile
import Wireform.Proofs.Known
import Wireform.Schema.Error

/-!
# The grammar of type references

A type reference is written as a sequence of tokens, `TypeRef.tokens`: names and the marks `<`, `>`,
`,` and `?`, of which a nullable type has one at its end for each layer.  White space may stand
before, between and after them (`Spaced`).  `TypeRef.parse` accepts exactly these texts, and gives
back the reference whose tokens they are (`parse_eq_ok_iff`).

Names are never neighbours among the tokens of a reference, so what a name goes on with tells where
it ends.  Soundness follows the parser, nesting by nesting: what it takes from a text is spelled out
in front of what it leaves (`spells_of_parseType`).  Completeness follows the reference.  A nullable
type ends in a mark that belongs to no part of it, so what is read of a text is said up to the marks
that come after (`readsPart`): they are taken by `takeMarks` in either case.
-/
namespace Wireform.Schema

/-! ## 1. Tokens -/

/-- A token of a type reference. -/
inductive RefToken where
  | name (text : String)
  | mark (c : Char)
  deriving DecidableEq, Repr

/-- The characters of a token. -/
def RefToken.chars : RefToken → List Char
  | .name text => text.toList
  | .mark c => [c]

/-- The tokens of a type reference. -/
def TypeRef.tokens : TypeRef → List RefToken
  | .primitive p => [.name p.name]
  | .named name => [.name name]
  | .list element => .name "list" :: .mark '<' :: (element.tokens ++ [.mark '>'])
  | .array element => .name "array" :: .mark '<' :: (element.tokens ++ [.mark '>'])
  | .map key value =>
    .name "map" :: .mark '<' :: (key.tokens ++ .mark ',' :: (value.tokens ++ [.mark '>']))
  | .optional inner => inner.tokens ++ [.mark '?']

/-- A text of white space only. -/
def Blank (text : List Char) : Prop := ∀ c ∈ text, Text.isBlank c = true

/-- A text is a sequence of tokens with white space before, between and after them. -/
inductive Spaced : List RefToken → List Char → Prop where
  | nil {blanks : List Char} (hblanks : Blank blanks) : Spaced [] blanks
  | cons {blanks text : List Char} {token : RefToken} {tokens : List RefToken}
    (hblanks : Blank blanks) (hrest : Spaced tokens text) :
    Spaced (token :: tokens) (blanks ++ (token.chars ++ text))

/-- The names that lead a collection. -/
def collectionNames : List String := ["list", "array", "map"]

/-- A name by which a reference can mean a declared type. -/
structure IsLeafName (name : String) : Prop where
  identifier : isIdentifier name = true
  notPrimitive : ∀ p : Primitive, p.name ≠ name
  notCollection : name ∉ collectionNames

/-- All declared types are meant by names that can mean them. -/
def TypeRef.WellNamed : TypeRef → Prop
  | .primitive _ => True
  | .named name => IsLeafName name
  | .list element => element.WellNamed
  | .array element => element.WellNamed
  | .map key value => key.WellNamed ∧ value.WellNamed
  | .optional inner => inner.WellNamed

/-! ## 2. White space -/

theorem Blank.append {text rest : List Char} (h : Blank text) (hrest : Blank rest) :
    Blank (text ++ rest) :=
  List.forall_mem_append.mpr ⟨h, hrest⟩

theorem blank_nil : Blank [] := fun _ h => absurd h List.not_mem_nil

/-- White space is no part of a name. -/
theorem isIdentChar_of_isBlank {c : Char} (h : Text.isBlank c = true) : isIdentChar c = false := by
  refine Bool.eq_false_iff.mpr fun hident => ?_
  have hrange := toNat_of_isIdentChar hident
  simp [Text.isBlank] at h
  omega

namespace Spaced

variable {tokens more : List RefToken} {text rest : List Char}

/-- White space in front belongs to what follows. -/
theorem blank_append {blanks : List Char} (hblanks : Blank blanks) (h : Spaced tokens text) :
    Spaced tokens (blanks ++ text) := by
  cases h with
  | nil htext => exact .nil (hblanks.append htext)
  | cons hfront hrest =>
    rw [← List.append_assoc]
    exact .cons (hblanks.append hfront) hrest

/-- Sequences of tokens one behind the other. -/
theorem append (h : Spaced tokens text) (hmore : Spaced more rest) :
    Spaced (tokens ++ more) (text ++ rest) := by
  induction h with
  | nil hblanks => exact hmore.blank_append hblanks
  | cons hblanks _ ih =>
    rw [List.append_assoc, List.append_assoc]
    exact .cons hblanks ih

/-- A token by itself. -/
theorem token (token : RefToken) : Spaced [token] token.chars := by
  have h : Spaced [token] ([] ++ (token.chars ++ [])) := .cons blank_nil (.nil blank_nil)
  rwa [List.nil_append, List.append_nil] at h

/-- A mark behind white space. -/
theorem mark {blanks : List Char} (hblanks : Blank blanks) (c : Char) :
    Spaced [.mark c] (blanks ++ [c]) :=
  (token (.mark c)).blank_append hblanks

/-- What is split into two sequences of tokens is split into two texts. -/
theorem exists_append (h : Spaced (tokens ++ more) text) :
    ∃ front behind, text = front ++ behind ∧ Spaced tokens front ∧ Spaced more behind := by
  induction tokens generalizing text with
  | nil => exact ⟨[], text, rfl, .nil blank_nil, h⟩
  | cons token tokens ih =>
    cases h with
    | cons hblanks hrest =>
      obtain ⟨front, behind, rfl, hfront, hbehind⟩ := ih hrest
      exact ⟨_, behind, by simp, .cons hblanks hfront, hbehind⟩

/-- A mark with white space around it. -/
theorem exists_mark {c : Char} (h : Spaced (.mark c :: tokens) text) :
    ∃ blanks behind, text = blanks ++ c :: behind ∧ Blank blanks ∧ Spaced tokens behind := by
  cases h with
  | cons hblanks hrest => exact ⟨_, _, rfl, hblanks, hrest⟩

/-- A name with white space in front of it. -/
theorem exists_name {name : String} (h : Spaced (.name name :: tokens) text) :
    ∃ blanks behind, text = blanks ++ (name.toList ++ behind) ∧ Blank blanks ∧
      Spaced tokens behind := by
  cases h with
  | cons hblanks hrest => exact ⟨_, _, rfl, hblanks, hrest⟩

/-- Only tokens without characters are spelled by nothing. -/
theorem chars_eq_nil (h : Spaced tokens text) (htext : text = []) {token : RefToken}
    (htoken : token ∈ tokens) : token.chars = [] := by
  induction h with
  | nil => cases htoken
  | cons _ _ ih =>
    simp only [List.append_eq_nil_iff] at htext
    rcases List.mem_cons.mp htoken with rfl | hmem
    · exact htext.2.1
    · exact ih htext.2.2 hmem

/-- A name in front of what stands between angle brackets. -/
theorem exists_applied {blanks gap gap' : List Char} (hblanks : Blank blanks) (name : String)
    (hgap : Blank gap) (h : Spaced tokens text) (hgap' : Blank gap') (rest : List Char) :
    ∃ front, blanks ++ (name.toList ++ (gap ++ '<' :: (text ++ (gap' ++ '>' :: rest)))) =
        front ++ rest ∧
      Spaced (.name name :: .mark '<' :: (tokens ++ [.mark '>'])) front := by
  have hmarks : Spaced (.mark '<' :: (tokens ++ [.mark '>']))
      (gap ++ ['<'] ++ (text ++ (gap' ++ ['>']))) :=
    (mark hgap '<').append (h.append (mark hgap' '>'))
  exact ⟨_, by simp [RefToken.chars], .cons hblanks hmarks⟩

/-- What stands between angle brackets behind a name, found in a text. -/
theorem of_applied {name : String}
    (h : Spaced (.name name :: .mark '<' :: (tokens ++ [.mark '>'])) text) :
    ∃ blanks gap inner gap' tail,
      text = blanks ++ (name.toList ++ (gap ++ '<' :: (inner ++ (gap' ++ '>' :: tail)))) ∧
        Blank blanks ∧ Blank gap ∧ Spaced tokens inner ∧ Blank gap' ∧ Blank tail := by
  obtain ⟨blanks, opened, rfl, hblanks, hopened⟩ := exists_name h
  obtain ⟨gap, enclosed, rfl, hgap, henclosed⟩ := exists_mark hopened
  obtain ⟨inner, closed, rfl, hinner, hclosed⟩ := exists_append henclosed
  obtain ⟨gap', tail, rfl, hgap', htail⟩ := exists_mark hclosed
  cases htail with
  | nil htail => exact ⟨blanks, gap, inner, gap', tail, rfl, hblanks, hgap, hinner, hgap', htail⟩

end Spaced

theorem Primitive.name_of_ofName? {name : String} {p : Primitive}
    (h : Primitive.ofName? name = some p) : p.name = name :=
  beq_iff_eq.mp (List.find?_some h :)

theorem Primitive.ofName?_eq_none_iff {name : String} :
    Primitive.ofName? name = none ↔ ∀ p : Primitive, p.name ≠ name := by
  have hall : ∀ p : Primitive, p ∈ Primitive.all := by
    intro p
    cases p <;> decide
  simp [ofName?, hall]

namespace TypeRef

theorem skipBlanks_append {blanks : List Char} (hblanks : Blank blanks) (text : List Char) :
    skipBlanks (blanks ++ text) = skipBlanks text :=
  List.dropWhile_append_of_pos hblanks

theorem skipBlanks_cons {c : Char} (hc : Text.isBlank c = false) (text : List Char) :
    skipBlanks (c :: text) = c :: text := by
  simp [skipBlanks, hc]

/-- White space stands in front of what is left. -/
theorem exists_blanks (text : List Char) :
    ∃ blanks, Blank blanks ∧ text = blanks ++ skipBlanks text :=
  ⟨text.takeWhile Text.isBlank, fun _ hc => List.mem_takeWhile_imp hc,
    List.takeWhile_append_dropWhile.symm⟩

/-! ## 3. What the parts of a reading take -/

variable {total nesting : Nat} {text rest : List Char} {name : String} {ref type : TypeRef}

/-- A text goes on with no character of the name in front of it. -/
def EndsName (text : List Char) : Prop := ∀ c ∈ text.head?, isIdentChar c = false

theorem expect_eq_ok {c : Char} (h : expect total c text = .ok rest) :
    ∃ blanks, Blank blanks ∧ text = blanks ++ c :: rest := by
  obtain ⟨blanks, hblanks, htext⟩ := exists_blanks text
  unfold expect at h
  split at h
  · cases h
  · next d tail hskip =>
    split at h
    · next hsame =>
      cases h
      rw [hskip, hsame] at htext
      exact ⟨blanks, hblanks, htext⟩
    · cases h

theorem expect_append {c : Char} (hc : Text.isBlank c = false) {blanks : List Char}
    (hblanks : Blank blanks) : expect total c (blanks ++ c :: rest) = .ok rest := by
  simp [expect, skipBlanks_append hblanks, skipBlanks_cons hc]

theorem takeName_eq_ok (h : takeName total text = .ok (name, rest)) :
    ∃ blanks, Blank blanks ∧ text = blanks ++ (name.toList ++ rest) ∧ isIdentifier name = true := by
  obtain ⟨blanks, hblanks, htext⟩ := exists_blanks text
  unfold takeName at h
  dsimp only at h
  split at h
  · cases h
  · next c tail htake =>
    split at h
    · next hstart =>
      cases h
      have hchars : ∀ d ∈ c :: tail, isIdentChar d = true := fun d hd =>
        List.mem_takeWhile_imp (htake ▸ hd)
      refine ⟨blanks, hblanks, ?_, isIdentifier_of_toList String.toList_ofList hstart
        (List.forall_mem_cons.mp hchars).2⟩
      rw [String.toList_ofList, ← htake, List.takeWhile_append_dropWhile]
      exact htext
    · cases h

theorem suffix_of_expect {c : Char} (h : expect total c text = .ok rest) : rest <:+ text := by
  obtain ⟨blanks, -, rfl⟩ := expect_eq_ok h
  exact ⟨blanks ++ [c], by simp⟩

theorem takeName_append {blanks : List Char} (hblanks : Blank blanks)
    (hname : isIdentifier name = true) (hrest : EndsName rest) :
    takeName total (blanks ++ (name.toList ++ rest)) = .ok (name, rest) := by
  obtain ⟨c, tail, htoList, hstart, htail⟩ := exists_of_isIdentifier hname
  have hc := (isIdentChar_of_isIdentStart hstart).1
  have hblank : Text.isBlank c = false := by
    refine Bool.eq_false_iff.mpr fun hblank => ?_
    rw [isIdentChar_of_isBlank hblank] at hc
    cases hc
  have hchars : ∀ d ∈ c :: tail, isIdentChar d = true := List.forall_mem_cons.mpr ⟨hc, htail⟩
  have htake : rest.takeWhile isIdentChar = [] := by
    cases rest with
    | nil => rfl
    | cons d rest => simp [hrest d rfl]
  have hdrop : rest.dropWhile isIdentChar = rest := by
    cases rest with
    | nil => rfl
    | cons d rest => simp [hrest d rfl]
  have hskip : skipBlanks (blanks ++ (name.toList ++ rest)) = (c :: tail) ++ rest := by
    rw [skipBlanks_append hblanks, htoList, List.cons_append, skipBlanks_cons hblank]
  unfold takeName
  simp only [hskip, List.takeWhile_append_of_pos hchars, List.dropWhile_append_of_pos hchars, htake,
    hdrop, List.append_nil, hstart, if_true]
  rw [← htoList, String.ofList_toList]

theorem takeMarks_append {blanks : List Char} (hblanks : Blank blanks) :
    takeMarks (blanks ++ rest) type = takeMarks rest type := by
  induction blanks with
  | nil => rfl
  | cons c blanks ih =>
    rw [Blank, List.forall_mem_cons] at hblanks
    rw [List.cons_append, takeMarks, if_pos hblanks.1, ih hblanks.2]

theorem takeMarks_mark (text : List Char) (type : TypeRef) :
    takeMarks ('?' :: text) type = takeMarks text (.optional type) := by
  rw [takeMarks, if_neg (by decide), if_pos rfl]

/-- No question mark is taken from behind another mark. -/
theorem takeMarks_cons {c : Char} (hblank : Text.isBlank c = false) (hc : c ≠ '?')
    {blanks : List Char} (hblanks : Blank blanks) :
    takeMarks (blanks ++ c :: rest) type = (type, c :: rest) := by
  simp [takeMarks_append hblanks, takeMarks, hblank, hc]

/-- A reference is spelled out in front of what is left of a text. -/
def Spells (text : List Char) (ref : TypeRef) (rest : List Char) : Prop :=
  ∃ front, text = front ++ rest ∧ Spaced ref.tokens front ∧ ref.WellNamed

/-- Question marks go with what is spelled out in front of them. -/
theorem Spells.takeMarks (h : Spells text type rest) :
    Spells text (takeMarks rest type).1 (takeMarks rest type).2 := by
  induction rest generalizing type with
  | nil => exact h
  | cons c rest ih =>
    obtain ⟨front, rfl, hfront, hnames⟩ := h
    rw [TypeRef.takeMarks]
    split
    · next hblank =>
      have hspaced : Spaced type.tokens (front ++ [c]) := by
        have happend := hfront.append (.nil (List.forall_mem_singleton.mpr hblank))
        rwa [List.append_nil] at happend
      exact ih ⟨front ++ [c], by simp, hspaced, hnames⟩
    · split
      · next hmark =>
        subst hmark
        exact ih ⟨front ++ ['?'], by simp, hfront.append (.token (.mark '?')), hnames⟩
      · exact ⟨front, rfl, hfront, hnames⟩

/-! ## 4. Readings and spellings -/

/-- **What is read of a text is spelled out in front of what is left of it.** -/
theorem spells_of_parseType (hread : parseType total nesting text = .ok (ref, rest)) :
    Spells text ref rest := by
  induction nesting generalizing text ref rest with
  | zero => cases hread
  | succ nesting ih =>
    rw [parseType] at hread
    obtain ⟨⟨name, behind⟩, hname, hbody⟩ := bind_eq_ok hread
    obtain ⟨blanks, hblanks, htext, hidentifier⟩ := takeName_eq_ok hname
    -- the marks behind a type go with what is spelled out so far
    have hmarks : ∀ (type : TypeRef) (left : List Char),
        takeMarks left type = (ref, rest) → Spells text type left → Spells text ref rest := by
      intro type left htaken hspells
      have htakes := hspells.takeMarks
      rwa [htaken] at htakes
    dsimp only at hbody
    split at hbody
    · next hcollection =>
      obtain ⟨opened, hopen, hinner⟩ := bind_eq_ok hbody
      obtain ⟨⟨element, closed⟩, helement, hend⟩ := bind_eq_ok hinner
      obtain ⟨left, hclose, htaken⟩ := bind_eq_ok hend
      obtain ⟨gap, hgap, rfl⟩ := expect_eq_ok hopen
      obtain ⟨front, rfl, hfront, hnames⟩ := ih helement
      obtain ⟨gap', hgap', rfl⟩ := expect_eq_ok hclose
      obtain ⟨applied, happlied, hspaced⟩ :=
        Spaced.exists_applied hblanks name hgap hfront hgap' left
      rcases hcollection with rfl | rfl
      · exact hmarks _ _ (Except.ok.inj htaken) ⟨applied, htext.trans happlied, hspaced, hnames⟩
      · exact hmarks _ _ (Except.ok.inj htaken) ⟨applied, htext.trans happlied, hspaced, hnames⟩
    · next hneither =>
      split at hbody
      · next hmap =>
        subst hmap
        obtain ⟨opened, hopen, hinner⟩ := bind_eq_ok hbody
        obtain ⟨⟨key, middle⟩, hkey, hsecond⟩ := bind_eq_ok hinner
        obtain ⟨second, hcomma, hafter⟩ := bind_eq_ok hsecond
        obtain ⟨⟨value, closed⟩, hvalue, hend⟩ := bind_eq_ok hafter
        obtain ⟨left, hclose, htaken⟩ := bind_eq_ok hend
        obtain ⟨gap, hgap, rfl⟩ := expect_eq_ok hopen
        obtain ⟨front, rfl, hfront, hkeyNames⟩ := ih hkey
        obtain ⟨comma, hcommaGap, rfl⟩ := expect_eq_ok hcomma
        obtain ⟨front', rfl, hfront', hvalueNames⟩ := ih hvalue
        obtain ⟨gap', hgap', rfl⟩ := expect_eq_ok hclose
        have hpair := hfront.append ((Spaced.mark hcommaGap ',').append hfront')
        obtain ⟨applied, happlied, hspaced⟩ :=
          Spaced.exists_applied hblanks "map" hgap hpair hgap' left
        refine hmarks (.map key value) left (Except.ok.inj htaken)
          ⟨applied, htext.trans (Eq.trans (by simp) happlied), ?_, hkeyNames, hvalueNames⟩
        simpa [tokens] using hspaced
      · next hnotMap =>
        have hword : Spaced [.name name] (blanks ++ name.toList) :=
          (Spaced.token (.name name)).blank_append hblanks
        have hfront : text = (blanks ++ name.toList) ++ behind := by simp [htext]
        split at hbody
        · next p hp =>
          have hsame : p.name = name := Primitive.name_of_ofName? hp
          exact hmarks _ _ (Except.ok.inj hbody)
            ⟨_, hfront, by simpa [tokens, hsame] using hword, trivial⟩
        · next hnone =>
          refine hmarks _ _ (Except.ok.inj hbody)
            ⟨_, hfront, hword, hidentifier, Primitive.ofName?_eq_none_iff.mp hnone, ?_⟩
          simp [collectionNames, hnotMap, not_or.mp hneither]

/-! ## 5. What is spelled out is read -/

theorem EndsName.blanks {blanks : List Char} (hblanks : Blank blanks) (h : EndsName rest) :
    EndsName (blanks ++ rest) := by
  cases blanks with
  | nil => exact h
  | cons c blanks => simpa [EndsName] using isIdentChar_of_isBlank (hblanks c List.mem_cons_self)

theorem endsName_cons {c : Char} (hc : isIdentChar c = false) (rest : List Char) :
    EndsName (c :: rest) := by
  simpa [EndsName] using hc

/-- A name that leads no collection is read as a leaf. -/
theorem parseType_leaf {front : List Char} (h : Spaced [.name name] front)
    (hname : isIdentifier name = true) (hnot : name ∉ collectionNames) (hrest : EndsName rest) :
    parseType total (nesting + 1) (front ++ rest) =
      .ok (takeMarks rest (match Primitive.ofName? name with
        | some p => .primitive p
        | none => .named name)) := by
  obtain ⟨blanks, tail, rfl, hblanks, htail⟩ := h.exists_name
  cases htail with
  | nil htail =>
    simp only [collectionNames, List.mem_cons, List.not_mem_nil, or_false, not_or] at hnot
    rw [List.append_assoc, List.append_assoc, parseType,
      takeName_append hblanks hname (.blanks htail hrest)]
    simp only [bind, Except.bind, hnot, or_self, if_false]
    cases Primitive.ofName? name <;> simp [takeMarks_append htail, pure, Except.pure]

/-- A part of a text is read up to the question marks that follow it. -/
def ReadsPart (total nesting bound : Nat) (ref : TypeRef) : Prop :=
  ∀ front rest, Spaced ref.tokens front → EndsName rest → front.length < bound →
    parseType total nesting (front ++ rest) = .ok (takeMarks rest ref)

/-- A list or an array is read around its element. -/
theorem parseType_collection {front : List Char} {element : TypeRef}
    (h : Spaced (.name name :: .mark '<' :: (element.tokens ++ [.mark '>'])) front)
    (hname : name = "list" ∨ name = "array")
    (hread : ReadsPart total nesting front.length element) :
    parseType total (nesting + 1) (front ++ rest) =
      .ok (takeMarks rest (if name = "list" then .list element else .array element)) := by
  obtain ⟨blanks, gap, inner, gap', tail, rfl, hblanks, hgap, hinner, hgap', htail⟩ := h.of_applied
  have hidentifier : isIdentifier name = true := by
    rcases hname with rfl | rfl <;> decide
  have hopen : EndsName (gap ++ '<' :: (inner ++ (gap' ++ '>' :: (tail ++ rest)))) :=
    .blanks hgap (endsName_cons (by decide) _)
  have hclose : EndsName (gap' ++ '>' :: (tail ++ rest)) :=
    .blanks hgap' (endsName_cons (by decide) _)
  have helement := hread inner _ hinner hclose (by simp; omega)
  rw [takeMarks_cons (by decide) (by decide) hgap'] at helement
  have hexpect : expect total '>' ('>' :: (tail ++ rest)) = .ok (tail ++ rest) :=
    expect_append (by decide) blank_nil
  simp only [List.append_assoc, List.cons_append]
  rw [parseType, takeName_append hblanks hidentifier hopen]
  simp only [bind, Except.bind, hname, if_true, expect_append (rfl : Text.isBlank '<' = false) hgap,
    helement, hexpect]
  rw [takeMarks_append htail]
  rfl

/-- A map is read around its key and its value. -/
theorem parseType_map {front : List Char} {key value : TypeRef}
    (h : Spaced (TypeRef.map key value).tokens front)
    (hkey : ReadsPart total nesting front.length key)
    (hvalue : ReadsPart total nesting front.length value) :
    parseType total (nesting + 1) (front ++ rest) = .ok (takeMarks rest (.map key value)) := by
  have happlied : (TypeRef.map key value).tokens =
      .name "map" :: .mark '<' :: ((key.tokens ++ .mark ',' :: value.tokens) ++ [.mark '>']) := by
    simp [tokens]
  rw [happlied] at h
  obtain ⟨blanks, gap, inner, gap', tail, rfl, hblanks, hgap, hinner, hgap', htail⟩ := h.of_applied
  obtain ⟨first, behind, rfl, hfirst, hbehind⟩ := hinner.exists_append
  obtain ⟨comma, second, rfl, hcomma, hsecond⟩ := hbehind.exists_mark
  have hopen : EndsName (gap ++ '<' ::
      (first ++ (comma ++ ',' :: (second ++ (gap' ++ '>' :: (tail ++ rest)))))) :=
    .blanks hgap (endsName_cons (by decide) _)
  have hmiddle : EndsName (comma ++ ',' :: (second ++ (gap' ++ '>' :: (tail ++ rest)))) :=
    .blanks hcomma (endsName_cons (by decide) _)
  have hclose : EndsName (gap' ++ '>' :: (tail ++ rest)) :=
    .blanks hgap' (endsName_cons (by decide) _)
  have hfirstRead := hkey first _ hfirst hmiddle (by simp; omega)
  have hsecondRead := hvalue second _ hsecond hclose (by simp; omega)
  rw [takeMarks_cons (by decide) (by decide) hcomma] at hfirstRead
  rw [takeMarks_cons (by decide) (by decide) hgap'] at hsecondRead
  have hexpect : ∀ {c : Char} {left : List Char}, Text.isBlank c = false →
      expect total c (c :: left) = .ok left := fun hc => expect_append hc blank_nil
  have hnot : ¬("map" = "list" ∨ "map" = "array") := by decide
  simp only [List.append_assoc, List.cons_append]
  rw [parseType, takeName_append hblanks (by decide) hopen]
  simp only [bind, Except.bind, hnot, if_false, if_true,
    expect_append (rfl : Text.isBlank '<' = false) hgap, hfirstRead,
    hsecondRead, hexpect (rfl : Text.isBlank ',' = false),
    hexpect (rfl : Text.isBlank '>' = false)]
  rw [takeMarks_append htail]
  rfl

/-- **What is spelled out is read**, up to the question marks that follow it. -/
theorem readsPart (hnames : ref.WellNamed) (nesting : Nat) :
    ReadsPart total nesting nesting ref := by
  induction ref generalizing nesting with
  | primitive p =>
    intro front rest hfront hrest hnesting
    obtain ⟨nesting, rfl⟩ := Nat.exists_eq_add_one.mpr (Nat.zero_lt_of_lt hnesting)
    have hp : isIdentifier p.name = true ∧ p.name ∉ collectionNames ∧
        Primitive.ofName? p.name = some p := by
      cases p <;> decide
    rw [parseType_leaf hfront hp.1 hp.2.1 hrest, hp.2.2]
  | named name =>
    intro front rest hfront hrest hnesting
    obtain ⟨nesting, rfl⟩ := Nat.exists_eq_add_one.mpr (Nat.zero_lt_of_lt hnesting)
    rw [parseType_leaf hfront hnames.identifier hnames.notCollection hrest,
      Primitive.ofName?_eq_none_iff.mpr hnames.notPrimitive]
  | list element ih =>
    intro front rest hfront hrest hnesting
    obtain ⟨nesting, rfl⟩ := Nat.exists_eq_add_one.mpr (Nat.zero_lt_of_lt hnesting)
    refine parseType_collection hfront (.inl rfl) fun inner behind hinner hbehind hshort => ?_
    exact ih hnames nesting inner behind hinner hbehind (by omega)
  | array element ih =>
    intro front rest hfront hrest hnesting
    obtain ⟨nesting, rfl⟩ := Nat.exists_eq_add_one.mpr (Nat.zero_lt_of_lt hnesting)
    refine parseType_collection hfront (.inr rfl) fun inner behind hinner hbehind hshort => ?_
    exact ih hnames nesting inner behind hinner hbehind (by omega)
  | map key value ihkey ihvalue =>
    intro front rest hfront hrest hnesting
    obtain ⟨nesting, rfl⟩ := Nat.exists_eq_add_one.mpr (Nat.zero_lt_of_lt hnesting)
    refine parseType_map hfront (fun inner behind hinner hbehind hshort => ?_)
      fun inner behind hinner hbehind hshort => ?_
    · exact ihkey hnames.1 nesting inner behind hinner hbehind (by omega)
    · exact ihvalue hnames.2 nesting inner behind hinner hbehind (by omega)
  | optional inner ih =>
    intro front rest hfront hrest hnesting
    obtain ⟨text, marked, rfl, htext, hmarked⟩ := hfront.exists_append
    obtain ⟨gap, tail, rfl, hgap, htail⟩ := hmarked.exists_mark
    have hends : EndsName (gap ++ '?' :: (tail ++ rest)) :=
      .blanks hgap (endsName_cons (by decide) _)
    have hread := ih hnames nesting text _ htext hends (by simp at hnesting; omega)
    cases htail with
    | nil htail =>
      rw [takeMarks_append hgap, takeMarks_mark, takeMarks_append htail] at hread
      simpa using hread

/-- **A text is read as a reference exactly if it spells the reference**, with white space before,
between and after the tokens. -/
theorem parse_eq_ok_iff {text : String} :
    parse text = .ok ref ↔ ref.WellNamed ∧ Spaced ref.tokens text.toList := by
  constructor
  · intro h
    obtain ⟨⟨type, behind⟩, hread, hend⟩ := bind_eq_ok h
    obtain ⟨front, htext, hfront, hnames⟩ := spells_of_parseType hread
    obtain ⟨blanks, hblanks, hbehind⟩ := exists_blanks behind
    dsimp only at hend
    split at hend
    · next hnothing =>
      cases hend
      rw [hnothing, List.append_nil] at hbehind
      have hspaced := hfront.append (.nil (hbehind ▸ hblanks))
      rw [List.append_nil] at hspaced
      exact ⟨hnames, htext ▸ hspaced⟩
    · cases hend
  · rintro ⟨hnames, hspaced⟩
    have hwhole : ReadsPart (byteLength text.toList) _ _ ref :=
      readsPart hnames (text.toList.length + 1)
    have hread := hwhole text.toList [] hspaced (by simp [EndsName]) (Nat.lt_succ_self _)
    rw [List.append_nil] at hread
    simp [parse, hread, takeMarks, skipBlanks, bind, Except.bind, pure, Except.pure]

/-- The written form spells the reference. -/
theorem spaced_text (ref : TypeRef) : Spaced ref.tokens ref.text.toList := by
  have happlied : ∀ (name : String) {tokens : List RefToken} {inner : List Char},
      Spaced tokens inner →
        Spaced (.name name :: .mark '<' :: (tokens ++ [.mark '>']))
          (name.toList ++ '<' :: (inner ++ ['>'])) := by
    intro name tokens inner hinner
    obtain ⟨front, hfront, hspaced⟩ :=
      Spaced.exists_applied blank_nil name blank_nil hinner blank_nil []
    simp only [List.nil_append, List.append_nil] at hfront
    rwa [hfront]
  induction ref with
  | primitive p => exact .token (.name p.name)
  | named name => exact .token (.name name)
  | list element ih => simpa [text, tokens] using happlied "list" ih
  | array element ih => simpa [text, tokens] using happlied "array" ih
  | map key value ihkey ihvalue =>
    have hcomma : Spaced [.mark ','] [',', ' '] :=
      (Spaced.mark blank_nil ',').append (.nil (by simp [Blank, Text.isBlank]))
    simpa [text, tokens] using happlied "map" (ihkey.append (hcomma.append ihvalue))
  | optional inner ih => simpa [text, tokens, RefToken.chars] using ih.append (.token (.mark '?'))

/-- Some token of a reference has a character. -/
theorem exists_chars (hnames : ref.WellNamed) : ∃ token ∈ ref.tokens, token.chars ≠ [] := by
  cases ref with
  | primitive p =>
    refine ⟨.name p.name, by simp [tokens], ?_⟩
    cases p <;> decide
  | named name =>
    obtain ⟨c, rest, htoList, -⟩ := exists_of_isIdentifier hnames.identifier
    exact ⟨.name name, by simp [tokens], by simp [RefToken.chars, htoList]⟩
  | list element => exact ⟨.mark '<', by simp [tokens], List.cons_ne_nil _ _⟩
  | array element => exact ⟨.mark '<', by simp [tokens], List.cons_ne_nil _ _⟩
  | map key value => exact ⟨.mark '<', by simp [tokens], List.cons_ne_nil _ _⟩
  | optional inner => exact ⟨.mark '?', by simp [tokens], List.cons_ne_nil _ _⟩

/-- A name has a character. -/
theorem length_lt_of_takeName (h : takeName total text = .ok (name, rest)) :
    rest <:+ text ∧ rest.length < text.length := by
  obtain ⟨blanks, -, rfl, hname⟩ := takeName_eq_ok h
  obtain ⟨c, tail, htoList, -⟩ := exists_of_isIdentifier hname
  refine ⟨⟨blanks ++ name.toList, by simp⟩, ?_⟩
  simp [htoList]
  omega

/-- A type is read from a part of the text that is not empty. -/
theorem length_lt_of_parseType (hread : parseType total nesting text = .ok (ref, rest)) :
    rest <:+ text ∧ rest.length < text.length := by
  obtain ⟨front, rfl, hfront, hnames⟩ := spells_of_parseType hread
  refine ⟨List.suffix_append front rest, ?_⟩
  have hne : front ≠ [] := by
    rintro rfl
    obtain ⟨token, htoken, hchars⟩ := exists_chars hnames
    exact hchars (hfront.chars_eq_nil rfl htoken)
  have hpos := List.length_pos_iff.mpr hne
  rw [List.length_append]
  omega

end TypeRef

end Wireform.Schema
