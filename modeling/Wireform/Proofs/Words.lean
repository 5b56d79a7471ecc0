import Wireform.Proofs.Identifiers

/-!
# The names that generated sources use

The fixed text of a source refers to types, crates, traits and functions that no declaration has
named.  This file finds these names: the lines of a source are cut into words and marks
(`tokensOf`), in which an identifier that stands for a declared name counts as one token of its own,
and a word is *used* unless it stands behind `::` or `.`, in the braces of an import, in quotes or
in a comment, where it is looked up in something else or not at all (`Place`).

Both steps go from part to part: the tokens of a line are those of its parts (`tokensOf_append`), if
no word runs from one part into the other, and the words of a line are those of its parts
(`lineWords_append`), if the first part leads nowhere else.  So the words of a line with a type, a
number or a quoted name in it are told from those of the fixed text around it.
-/
namespace Wireform.Emit

open Schema (isIdentChar)

/-! ## 1. Tokens -/

/-- A part of a line in which names are looked for. -/
inductive Token where
  /-- A run of letters, digits and underscores. -/
  | word (text : List Char)
  /-- Any other character that is no space. -/
  | mark (c : Char)
  | gap
  /-- An identifier that stands for a declared name. -/
  | declared
  deriving DecidableEq, Repr

/-- Puts a character in front of tokens: lines are read from their ends, so that a word grows at its
front. -/
def Token.read (c : Char) (tokens : List Token) : List Token :=
  if isIdentChar c then
    match tokens with
    | .word text :: rest => .word (c :: text) :: rest
    | tokens => .word [c] :: tokens
  else if Text.isBlank c then .gap :: tokens
  else .mark c :: tokens

/-- Puts a piece in front of tokens. -/
def Piece.read : Piece → List Token → List Token
  | .ident _, tokens => .declared :: tokens
  | .text s, tokens => s.toList.foldr Token.read tokens

/-- The tokens of a line. -/
def tokensOf (pieces : List Piece) : List Token := pieces.foldr Piece.read []

/-- Whether the first token is a word. -/
def beginsInWord : List Token → Bool
  | .word _ :: _ => true
  | _ => false

/-- Whether the last token is a word. -/
def endsInWord : List Token → Bool
  | [] => false
  | [last] => beginsInWord [last]
  | _ :: rest => endsInWord rest

section

variable {pieces a b : List Piece} {s : String} {tokens rest : List Token} {c : Char}

theorem tokensOf_nil : tokensOf [] = [] := by rw [tokensOf, List.foldr]

theorem tokensOf_cons (piece : Piece) :
    tokensOf (piece :: pieces) = piece.read (tokensOf pieces) := by
  rw [tokensOf, List.foldr, ← tokensOf]

theorem tokensOf_ident : tokensOf (.ident s :: pieces) = .declared :: tokensOf pieces := by
  rw [tokensOf_cons, Piece.read]

/-- The characters of a text, given apart, so that no proof has to take a text to pieces. -/
theorem toList_of_eq {text : List Char} (h : s = String.ofList text) : s.toList = text := by
  rw [h, String.toList_ofList]

theorem tokensOf_text {text : List Char} (h : s = String.ofList text) :
    tokensOf (.text s :: pieces) = text.foldr Token.read (tokensOf pieces) := by
  rw [tokensOf_cons, Piece.read, toList_of_eq h]

theorem endsInWord_cons {token : Token} (h : tokens ≠ []) :
    endsInWord (token :: tokens) = endsInWord tokens := by
  cases tokens with
  | nil => exact absurd rfl h
  | cons next rest => rfl

theorem endsInWord_read (h : tokens ≠ []) :
    endsInWord (Token.read c tokens) = endsInWord tokens := by
  unfold Token.read
  split
  · split
    · next text rest =>
      cases rest with
      | nil => rfl
      | cons next rest => rfl
    · exact endsInWord_cons h
  · split <;> exact endsInWord_cons h

theorem endsInWord_of_read (h : endsInWord (Token.read c tokens) = false) :
    endsInWord tokens = false := by
  by_cases hnil : tokens = []
  · rw [hnil]
    rfl
  · rwa [endsInWord_read hnil] at h

theorem endsInWord_of_foldr_read {text : List Char}
    (h : endsInWord (text.foldr Token.read tokens) = false) : endsInWord tokens = false := by
  induction text with
  | nil => exact h
  | cons c text ih => exact ih (endsInWord_of_read h)

/-- A letter, digit or underscore begins a word in front of anything else. -/
theorem read_of_isIdentChar (hc : isIdentChar c = true) (h : beginsInWord tokens = false) :
    Token.read c tokens = .word [c] :: tokens := by
  unfold Token.read
  rw [if_pos hc]
  cases tokens with
  | nil => rfl
  | cons token tokens =>
    cases token with
    | word text => cases h
    | mark c => rfl
    | gap => rfl
    | declared => rfl

theorem read_append (h : tokens = [] → isIdentChar c = false ∨ beginsInWord rest = false) :
    Token.read c (tokens ++ rest) = Token.read c tokens ++ rest := by
  cases tokens with
  | nil =>
    cases hc : isIdentChar c with
    | true =>
      have hrest := (h rfl).resolve_left (by simp [hc])
      rw [List.nil_append, read_of_isIdentChar hc hrest, read_of_isIdentChar hc rfl]
      rfl
    | false =>
      unfold Token.read
      simp only [hc, Bool.false_eq_true, if_false, List.nil_append]
      split <;> rfl
  | cons token tokens =>
    unfold Token.read
    split
    · cases token <;> rfl
    · split <;> rfl

theorem foldr_read_append {text : List Char}
    (h : endsInWord (text.foldr Token.read tokens) = false ∨ beginsInWord rest = false) :
    text.foldr Token.read (tokens ++ rest) = text.foldr Token.read tokens ++ rest := by
  induction text with
  | nil => rfl
  | cons c text ih =>
    have hbehind := h.imp_left endsInWord_of_read
    rw [List.foldr_cons, ih hbehind, List.foldr_cons]
    refine read_append fun hnil => h.imp_left fun hends => ?_
    -- with nothing behind it, the character is all that the front can end in
    rw [List.foldr_cons, hnil] at hends
    refine Bool.eq_false_iff.mpr fun hc => ?_
    simp [Token.read, hc, endsInWord, beginsInWord] at hends

/-- Letters, digits and underscores in a row make one word. -/
theorem foldr_read_word {text : List Char} (htext : text ≠ [])
    (hall : ∀ c ∈ text, isIdentChar c = true) (h : beginsInWord tokens = false) :
    text.foldr Token.read tokens = .word text :: tokens := by
  induction text with
  | nil => exact absurd rfl htext
  | cons c text ih =>
    obtain ⟨hc, hall⟩ := List.forall_mem_cons.mp hall
    rw [List.foldr_cons]
    cases text with
    | nil => rw [List.foldr_nil, read_of_isIdentChar hc h]
    | cons d text => rw [ih (List.cons_ne_nil _ _) hall, Token.read, if_pos hc]

/-- **The tokens of a line are those of its parts**, if no word runs from one into the other. -/
theorem tokensOf_append (h : endsInWord (tokensOf a) = false ∨ beginsInWord (tokensOf b) = false) :
    tokensOf (a ++ b) = tokensOf a ++ tokensOf b := by
  induction a with
  | nil => rw [tokensOf_nil, List.nil_append, List.nil_append]
  | cons piece a ih =>
    rw [tokensOf_cons] at h
    rw [List.cons_append, tokensOf_cons, tokensOf_cons]
    cases piece with
    | ident s =>
      have hbehind : endsInWord (tokensOf a) = false ∨ beginsInWord (tokensOf b) = false := by
        refine h.imp_left fun hends => ?_
        cases htokens : tokensOf a with
        | nil => rfl
        | cons token tokens =>
          rw [htokens] at hends
          exact hends
      rw [ih hbehind]
      rfl
    | text s =>
      rw [ih (h.imp_left endsInWord_of_foldr_read)]
      exact foldr_read_append h

end

/-! ## 2. Words -/

/-- Where a token stands, as far as names are concerned. -/
inductive Place where
  /-- Where a word is looked up among the names in scope. -/
  | plain
  /-- Behind a slash, of which a second one begins a comment. -/
  | slash
  | comment
  /-- Behind a colon, of which a second one makes a path. -/
  | colon
  /-- Behind the mark of a path, a member or a lifetime. -/
  | behind
  /-- In the braces of an import. -/
  | group
  | quoted
  deriving DecidableEq, Repr

/-- Where the next token stands. -/
def Place.next : Place → Token → Place
  | .comment, _ => .comment
  | .quoted, token => if token = .mark '"' then .plain else .quoted
  | .group, token => if token = .mark '\x7d' then .plain else .group
  | place, .mark c =>
    if c = '/' then if place = .slash then .comment else .slash
    else if c = ':' then if place = .colon then .behind else .colon
    else if c = '\x7b' then if place = .behind then .group else .plain
    else if c = '.' ∨ c = '\x27' then .behind
    else if c = '"' then .quoted
    else .plain
  | _, _ => .plain

/-- The word that a token uses at a place. -/
def Place.word? : Place → Token → Option (List Char)
  | .plain, .word text | .slash, .word text | .colon, .word text => some text
  | _, _ => none

/-- The words that tokens use, of which the first stands at `place`. -/
def wordsFrom (place : Place) : List Token → List (List Char)
  | [] => []
  | token :: rest => (place.word? token).toList ++ wordsFrom (place.next token) rest

/-- The words that a line uses. -/
def lineWords (pieces : List Piece) : List (List Char) := wordsFrom .plain (tokensOf pieces)

/-- Where a token stands that follows a line. -/
def endPlace (pieces : List Piece) : Place := (tokensOf pieces).foldl Place.next .plain

section

variable {pieces a b : List Piece} {place : Place} {tokens rest : List Token}

theorem lineWords_eq : lineWords pieces = wordsFrom .plain (tokensOf pieces) := by rw [lineWords]

theorem wordsFrom_append :
    wordsFrom place (tokens ++ rest) =
      wordsFrom place tokens ++ wordsFrom (tokens.foldl Place.next place) rest := by
  induction tokens generalizing place with
  | nil => rfl
  | cons token tokens ih => simp [wordsFrom, ih]

theorem wordsFrom_comment : wordsFrom .comment tokens = [] := by
  induction tokens with
  | nil => rfl
  | cons token tokens ih => cases token <;> simpa [wordsFrom, Place.word?, Place.next] using ih

/-- **The words of a line are those of its parts**, if the second stands where a line may begin. -/
theorem lineWords_append (hplace : endPlace a = .plain)
    (h : endsInWord (tokensOf a) = false ∨ beginsInWord (tokensOf b) = false) :
    lineWords (a ++ b) = lineWords a ++ lineWords b := by
  unfold endPlace at hplace
  simp only [lineWords_eq, tokensOf_append h, wordsFrom_append, hplace]

theorem endPlace_append (hplace : endPlace a = .plain)
    (h : endsInWord (tokensOf a) = false ∨ beginsInWord (tokensOf b) = false) :
    endPlace (a ++ b) = endPlace b := by
  unfold endPlace at hplace ⊢
  rw [tokensOf_append h, List.foldl_append, hplace]

end

/-! ## 3. The words of a source -/

mutual

/-- The lines of code, without the braces around blocks. -/
def Code.lines : Code → List (List Piece)
  | .line pieces => [pieces]
  | .block header suffix body => header :: linesAll body ++ [[.text suffix]]
  | .blockElse header body otherwise => header :: linesAll body ++ linesAll otherwise

/-- The lines of a list of code. -/
def Code.linesAll : List Code → List (List Piece)
  | [] => []
  | code :: rest => lines code ++ linesAll rest

end

/-- The words that a source uses. -/
def wordsOf (file : List Code) : List (List Char) := (Code.linesAll file).flatMap lineWords

/-- **The names that a source uses**: its words, without keywords and numbers. -/
def usedNames (file : List Code) : List String :=
  ((wordsOf file).map String.ofList).filter isRustIdent

section

variable {file rest body otherwise : List Code} {header pieces : List Piece} {suffix text : String}
  {name : String} {α : Type}

theorem mem_usedNames :
    name ∈ usedNames file ↔ name.toList ∈ wordsOf file ∧ isRustIdent name = true := by
  unfold usedNames
  rw [List.mem_filter, List.mem_map]
  refine and_congr_left fun _ => ⟨?_, fun h => ⟨_, h, String.ofList_toList⟩⟩
  rintro ⟨word, hword, rfl⟩
  rwa [String.toList_ofList]

example : usedNames [.line ["let n = bitwire::read_u8(buf, ", .ident "from", ")?; // usize"]] =
    ["n", "bitwire", "buf"] := by decide

theorem wordsOf_nil : wordsOf [] = [] := by simp [wordsOf, Code.linesAll]

theorem wordsOf_cons (code : Code) : wordsOf (code :: rest) = wordsOf [code] ++ wordsOf rest := by
  simp [wordsOf, Code.linesAll]

theorem wordsOf_append : wordsOf (file ++ rest) = wordsOf file ++ wordsOf rest := by
  induction file with
  | nil => rw [wordsOf_nil, List.nil_append, List.nil_append]
  | cons code file ih =>
    rw [List.cons_append, wordsOf_cons, ih, ← List.append_assoc, ← wordsOf_cons]

theorem wordsOf_map {f : α → Code} {l : List α} :
    wordsOf (l.map f) = l.flatMap fun a => wordsOf [f a] := by
  induction l with
  | nil => exact wordsOf_nil
  | cons a l ih => rw [List.map_cons, wordsOf_cons, ih, List.flatMap_cons]

theorem wordsOf_flatMap {f : α → List Code} {l : List α} :
    wordsOf (l.flatMap f) = l.flatMap fun a => wordsOf (f a) := by
  induction l with
  | nil => exact wordsOf_nil
  | cons a l ih => rw [List.flatMap_cons, wordsOf_append, ih, List.flatMap_cons]

theorem mem_wordsOf {word : List Char} :
    word ∈ wordsOf file ↔ ∃ code ∈ file, word ∈ wordsOf [code] := by
  induction file with
  | nil => simp [wordsOf_nil]
  | cons code file ih =>
    rw [wordsOf_cons, List.mem_append, ih]
    simp only [List.mem_cons, exists_eq_or_imp]

theorem wordsOf_subset (h : file ⊆ rest) : wordsOf file ⊆ wordsOf rest := by
  intro word hword
  obtain ⟨code, hcode, hword⟩ := mem_wordsOf.mp hword
  exact mem_wordsOf.mpr ⟨code, h hcode, hword⟩

theorem wordsOf_line : wordsOf (.line pieces :: rest) = lineWords pieces ++ wordsOf rest := by
  simp [wordsOf, Code.linesAll, Code.lines]

theorem wordsOf_block :
    wordsOf (.block header suffix body :: rest) =
      lineWords header ++ wordsOf body ++ lineWords [.text suffix] ++ wordsOf rest := by
  simp [wordsOf, Code.linesAll, Code.lines]

theorem wordsOf_plainBlock :
    wordsOf (.plainBlock header body :: rest) =
      lineWords header ++ wordsOf body ++ wordsOf rest := by
  have hsuffix : lineWords [.text ""] = [] := by decide
  rw [Code.plainBlock, wordsOf_block, hsuffix, List.append_nil]

theorem wordsOf_blockElse :
    wordsOf (.blockElse header body otherwise :: rest) =
      lineWords header ++ wordsOf body ++ wordsOf otherwise ++ wordsOf rest := by
  simp [wordsOf, Code.linesAll, Code.lines]

theorem wordsOf_blank : wordsOf (.blank :: rest) = wordsOf rest := by
  have hblank : lineWords [] = [] := by decide
  rw [Code.blank, wordsOf_line, hblank, List.nil_append]

/-- A line of documentation uses nothing. -/
theorem wordsOf_doc : wordsOf (.doc text :: rest) = wordsOf rest := by
  have hempty : lineWords [.text "///"] = [] := by decide
  have hcomment : ∀ pieces : List Piece, lineWords (.text "/// " :: pieces) = [] := by
    intro pieces
    rw [lineWords_eq, tokensOf_text rfl]
    exact wordsFrom_comment
  unfold Code.doc
  rw [wordsOf_line]
  split
  · rw [hempty, List.nil_append]
  · rw [hcomment, List.nil_append]

end

end Wireform.Emit
