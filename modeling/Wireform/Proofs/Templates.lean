import Wireform.Proofs.Words

/-!
# The names of the templates

What generated sources refer to beside the declared names is fixed by the templates, and
`templateNames` lists it.  A line is *listed* if each of its words is in the list, a keyword or a
number; a part of a line is *neat* if moreover names are looked for behind it, so that neat parts can
be put together (`Neat.append`).

A line of fixed text is checked word by word.  The others have a number, a name in quotes or the type
of a field in them, and these are neat: so every template writes listed lines only, whatever the
schema (`listed_structModule`, `listed_enumModule`, `listed_dispatchModule`,
`listed_listingModule`).
-/
namespace Wireform.Emit

open Schema (Kind Primitive Step StructCode isIdentChar isIdentifier)

/-! ## 1. The names -/

/-- Built-in types and crates that leaf types of a schema are called after. -/
def leafNames : List String :=
  ["bool", "u8", "i8", "u16", "i16", "u32", "i32", "u64", "i64", "u128", "i128", "f32", "f64",
    "char", "uuid", "ulid"]

/-- The other built-in types and crates. -/
def rootNames : List String := ["bitwire", "std", "rust_decimal", "chrono", "usize", "str"]

/-- Types that no declaration may be called after. -/
def reservedNames : List String :=
  ["Option", "Box", "Vec", "String", "Result", "AnyValue", "Registered"]

/-- Types and traits that declarations may be called after. -/
def openNames : List String := ["Sized", "From", "NullBitset"]

/-- Names with capitals that are no types: traits that are derived, variants, constants and a type
parameter. -/
def capitalNames : List String :=
  ["Debug", "Clone", "Copy", "PartialEq", "Eq", "Hash", "PartialOrd", "Ord", "Default", "Some",
    "None", "Ok", "Err", "FIXED_SIZE", "TAG", "NAME", "NULL_TAG", "REGISTERED_TYPES", "T"]

/-- Names without capitals that are no types: attributes, functions, fields and variables. -/
def smallNames : List String :=
  ["derive", "allow", "unused_imports", "unreachable_patterns", "default", "repr", "size",
    "serialize", "deserialize", "deserialize_in_place", "tag", "type_name", "into_any", "from_any",
    "from", "tag_of", "tag_of_name", "type_name_of", "size_of", "serialize_typed",
    "deserialize_by_tag", "deserialize_as", "buf", "cursor", "value", "bitset", "name", "other",
    "actual", "expected", "enum_name"]

/-- All names that sources use. -/
def templateNames : List String :=
  leafNames ++ rootNames ++ reservedNames ++ openNames ++ ["dispatch"] ++ capitalNames ++ smallNames

/-- The names and the keywords, taken to characters once and for all: lines are compared with them
character by character. -/
def templateWords :
    {words : List (List Char) //
      (templateNames ++ "_" :: rustKeywords).map String.toList = words} := by
  apply Subtype.mk
  simp (disch := rfl) only [templateNames, leafNames, rootNames, reservedNames, openNames,
    capitalNames, smallNames, rustKeywords, List.cons_append, List.nil_append, List.map,
    toList_of_eq]
  rfl

/-- Whether a word is a name of the templates, a keyword or a number. -/
def isListed (word : List Char) : Bool :=
  word.head?.any Char.isDigit || templateWords.1.contains word

theorem isIdentifier_rustKeywords : ∀ keyword ∈ rustKeywords, isIdentifier keyword = true := by
  decide

/-- A number is no identifier. -/
theorem isDigit_of_isRustIdent {name : String} (hname : isRustIdent name = true) {c : Char}
    (hc : name.toList.head? = some c) : c.isDigit = false := by
  unfold isRustIdent at hname
  split at hname
  · next htext =>
    rw [htext] at hc
    cases hc
    decide
  · have hidentifier : isIdentifier name = true := by
      rw [Bool.and_eq_true, Bool.and_eq_true] at hname
      exact hname.1.1
    obtain ⟨d, rest, htext, hstart, -⟩ := Schema.exists_of_isIdentifier hidentifier
    rw [htext] at hc
    cases hc
    exact (Schema.isIdentChar_of_isIdentStart hstart).2

/-- **A listed word that is an identifier is a name of the templates.** -/
theorem mem_templateNames {name : String} (h : isListed name.toList = true)
    (hname : isRustIdent name = true) : name ∈ templateNames := by
  rw [isListed, Bool.or_eq_true] at h
  rcases h with hdigit | hmem
  · obtain ⟨c, hc, hdigit⟩ := (Option.any_eq_true _ _).mp hdigit
    rw [isDigit_of_isRustIdent hname hc] at hdigit
    cases hdigit
  · rw [List.contains_iff_mem, ← templateWords.2, List.mem_map] at hmem
    obtain ⟨other, hother, heq⟩ := hmem
    rw [String.toList_injective heq] at hother
    refine (List.mem_append.mp hother).resolve_right fun hkeyword => ?_
    rcases List.mem_cons.mp hkeyword with rfl | hkeyword
    · exact absurd hname (by decide)
    · exact ((isRustIdent_iff (isIdentifier_rustKeywords name hkeyword)).mp hname).1 hkeyword

/-! ## 2. Lines that use nothing else -/

/-- Whether tokens use listed words only. -/
def listedTokens (tokens : List Token) : Bool := (wordsFrom .plain tokens).all isListed

/-- A line that uses listed words only. -/
def ListedLine (pieces : List Piece) : Prop := ∀ word ∈ lineWords pieces, isListed word = true

/-- A source that uses listed words only. -/
def Listed (file : List Code) : Prop := ∀ word ∈ wordsOf file, isListed word = true

/-- A part of a line that uses listed words only, and behind which names are looked for again. -/
structure Neat (pieces : List Piece) : Prop where
  place : endPlace pieces = .plain
  listed : ListedLine pieces

section

variable {pieces header a b : List Piece} {file rest body otherwise : List Code}
  {suffix text : String} {α : Type} {before behind separator s name : String} {c : Char}

theorem listedLine_iff : ListedLine pieces ↔ listedTokens (tokensOf pieces) = true := by
  simp [ListedLine, listedTokens, lineWords_eq]

theorem listed_nil : Listed [] := by simp [Listed, wordsOf_nil]

theorem listed_append : Listed (file ++ rest) ↔ Listed file ∧ Listed rest := by
  simp only [Listed, wordsOf_append, List.forall_mem_append]

theorem listed_cons {code : Code} : Listed (code :: rest) ↔ Listed [code] ∧ Listed rest :=
  (listed_append : Listed ([code] ++ rest) ↔ Listed [code] ∧ Listed rest)

theorem listed_map {f : α → Code} {l : List α} : Listed (l.map f) ↔ ∀ a ∈ l, Listed [f a] := by
  simp only [Listed, wordsOf_map, List.mem_flatMap]
  exact ⟨fun h a ha word hword => h word ⟨a, ha, hword⟩,
    fun h word ⟨a, ha, hword⟩ => h a ha word hword⟩

theorem listed_flatMap {f : α → List Code} {l : List α} :
    Listed (l.flatMap f) ↔ ∀ a ∈ l, Listed (f a) := by
  simp only [Listed, wordsOf_flatMap, List.mem_flatMap]
  exact ⟨fun h a ha word hword => h word ⟨a, ha, hword⟩,
    fun h word ⟨a, ha, hword⟩ => h a ha word hword⟩

theorem listed_line : Listed (.line pieces :: rest) ↔ ListedLine pieces ∧ Listed rest := by
  simp only [Listed, ListedLine, wordsOf_line, List.forall_mem_append]

theorem listed_block : Listed (.block header suffix body :: rest) ↔
    ListedLine header ∧ Listed body ∧ ListedLine [.text suffix] ∧ Listed rest := by
  simp only [Listed, ListedLine, wordsOf_block, List.forall_mem_append, and_assoc]

theorem listed_plainBlock : Listed (.plainBlock header body :: rest) ↔
    ListedLine header ∧ Listed body ∧ Listed rest := by
  simp only [Listed, ListedLine, wordsOf_plainBlock, List.forall_mem_append, and_assoc]

theorem listed_blockElse : Listed (.blockElse header body otherwise :: rest) ↔
    ListedLine header ∧ Listed body ∧ Listed otherwise ∧ Listed rest := by
  simp only [Listed, ListedLine, wordsOf_blockElse, List.forall_mem_append, and_assoc]

theorem listed_blank : Listed (.blank :: rest) ↔ Listed rest := by
  simp only [Listed, wordsOf_blank]

theorem listed_doc : Listed (.doc text :: rest) ↔ Listed rest := by
  simp only [Listed, wordsOf_doc]

/-- **Neat parts make a neat line**, if no word runs from one into the other. -/
theorem Neat.append (ha : Neat a) (hb : Neat b)
    (h : endsInWord (tokensOf a) = false ∨ beginsInWord (tokensOf b) = false) : Neat (a ++ b) where
  place := (endPlace_append ha.place h).trans hb.place
  listed := by
    rw [ListedLine, lineWords_append ha.place h]
    exact List.forall_mem_append.mpr ⟨ha.listed, hb.listed⟩

theorem Neat.append_listed (ha : Neat a) (hb : ListedLine b)
    (h : endsInWord (tokensOf a) = false ∨ beginsInWord (tokensOf b) = false) :
    ListedLine (a ++ b) := by
  rw [ListedLine, lineWords_append ha.place h]
  exact List.forall_mem_append.mpr ⟨ha.listed, hb⟩

/-! ### Numbers, names in quotes and texts -/

/-- Whether tokens use listed words only, and names are looked for behind them. -/
def neatTokens (tokens : List Token) : Bool :=
  decide (tokens.foldl Place.next .plain = .plain) && listedTokens tokens

theorem neat_iff : Neat pieces ↔ neatTokens (tokensOf pieces) = true := by
  rw [neatTokens, Bool.and_eq_true, decide_eq_true_iff, ← listedLine_iff]
  exact ⟨fun h => ⟨h.place, h.listed⟩, fun h => ⟨h.1, h.2⟩⟩

/-- A text behind which another word may begin. -/
structure Opens (s : String) : Prop where
  neat : Neat [.text s]
  apart : endsInWord (tokensOf [.text s]) = false

/-- A text that ends the word in front of it. -/
structure Closes (s : String) : Prop where
  neat : Neat [.text s]
  apart : beginsInWord (tokensOf [.text s]) = false

theorem opens_of {text : List Char} (h : s = String.ofList text)
    (hcheck : (neatTokens (text.foldr Token.read []) &&
      !endsInWord (text.foldr Token.read [])) = true) : Opens s := by
  rw [Bool.and_eq_true, Bool.not_eq_true', ← tokensOf_nil, ← tokensOf_text h, ← neat_iff] at hcheck
  exact ⟨hcheck.1, hcheck.2⟩

theorem closes_of {text : List Char} (h : s = String.ofList text)
    (hcheck : (neatTokens (text.foldr Token.read []) &&
      !beginsInWord (text.foldr Token.read [])) = true) : Closes s := by
  rw [Bool.and_eq_true, Bool.not_eq_true', ← tokensOf_nil, ← tokensOf_text h, ← neat_iff] at hcheck
  exact ⟨hcheck.1, hcheck.2⟩

theorem beginsInWord_text {text : List Char} (h : s = String.ofList (c :: text))
    (hc : isIdentChar c = false) : beginsInWord (tokensOf (.text s :: pieces)) = false := by
  rw [tokensOf_text h, List.foldr_cons]
  unfold Token.read
  simp only [hc, Bool.false_eq_true, if_false]
  split <;> rfl

/-- A number is a word that nothing has for a name. -/
theorem neat_digits {text : List Char} (h : s = String.ofList text) (htext : text ≠ [])
    (hdigits : ∀ c ∈ text, c.isDigit = true) : Neat [.text s] := by
  have htokens : tokensOf [.text s] = [.word text] := by
    rw [tokensOf_text h, tokensOf_nil]
    refine foldr_read_word htext (fun c hc => ?_) rfl
    simp [isIdentChar, Char.isAlphanum, hdigits c hc]
  rw [neat_iff, htokens]
  obtain ⟨c, rest, rfl⟩ := List.exists_cons_of_ne_nil htext
  have hc := hdigits c List.mem_cons_self
  simp [neatTokens, listedTokens, wordsFrom, Place.next, Place.word?, isListed, hc]

theorem neat_number (n : Nat) : Neat [.text (toString n)] :=
  neat_digits rfl Nat.toDigits_ne_nil fun _ hc =>
    Nat.isDigit_of_mem_toDigits (by decide) (by decide) hc

theorem Opens.neat_append (hbefore : Opens s) (h : Neat pieces) : Neat (.text s :: pieces) :=
  hbefore.neat.append h (.inl hbefore.apart)

theorem Opens.listed_append (hbefore : Opens s) (h : ListedLine pieces) :
    ListedLine (.text s :: pieces) :=
  hbefore.neat.append_listed h (.inl hbefore.apart)

theorem Neat.append_closes (h : Neat pieces) (hbehind : Closes s) : Neat (pieces ++ [.text s]) :=
  h.append hbehind.neat (.inr hbehind.apart)

/-- An integer is a number, with or without a sign. -/
theorem neat_integer (i : Int) : Neat [.text (toString i)] := by
  cases i with
  | ofNat n => exact neat_number n
  | negSucc n =>
    have htokens : tokensOf [.text (toString (Int.negSucc n))] =
        tokensOf [.text "-", .text (toString (n + 1))] := by
      have htext : toString (Int.negSucc n) = "-" ++ toString (n + 1) := rfl
      rw [htext, tokensOf_cons, tokensOf_cons, tokensOf_cons, Piece.read, Piece.read, Piece.read,
        String.toList_append, List.foldr_append]
    have hsign : Opens "-" := opens_of rfl (by decide)
    rw [neat_iff, htokens, ← neat_iff]
    exact hsign.neat_append (neat_number (n + 1))

theorem tokensOf_quoted (h : isIdentifier name = true) :
    tokensOf (.text ("\"" ++ name ++ "\"") :: pieces) =
      .mark '"' :: .word name.toList :: .mark '"' :: tokensOf pieces := by
  obtain ⟨c, rest, htext, -, -⟩ := Schema.exists_of_isIdentifier h
  have hname : name.toList ≠ [] := by simp [htext]
  have hquote : ∀ tokens, "\"".toList.foldr Token.read tokens = .mark '"' :: tokens := fun _ => rfl
  rw [tokensOf_cons, Piece.read, String.toList_append, String.toList_append, List.foldr_append,
    List.foldr_append, hquote, foldr_read_word hname (forall_isIdentChar h) rfl, hquote]

/-- A name in quotes uses nothing. -/
theorem neat_quoted (h : isIdentifier name = true) : Neat [.text ("\"" ++ name ++ "\"")] := by
  rw [neat_iff, tokensOf_quoted h]
  rfl

/-! ### Types -/

theorem Neat.enclose (htype : Neat pieces) (hbefore : Opens before) (hbehind : Closes behind) :
    Neat (enclose before pieces behind) :=
  hbefore.neat_append (htype.append_closes hbehind)

theorem listedLine_number (n : Nat) (hbefore : Opens before) (hbehind : Closes behind) :
    ListedLine [.text before, .text (toString n), .text behind] :=
  ((neat_number n).enclose hbefore hbehind).listed

theorem neat_ident : Neat [.ident name] := by
  rw [neat_iff, tokensOf_ident, tokensOf_nil]
  decide

theorem neat_primitiveType (p : Primitive) : Neat [.text (primitiveType p)] := by
  rw [neat_iff]
  cases p <;>
    · simp (disch := rfl) only [primitiveType, tokensOf_text, tokensOf_nil]
      decide

theorem Neat.optionType (h : Neat pieces) (nullable : Bool) :
    Neat (optionType nullable pieces) := by
  have hopens : Opens "Option<" := opens_of rfl (by decide)
  have hcloses : Closes ">" := closes_of rfl (by decide)
  cases nullable with
  | false => exact h
  | true => exact h.enclose hopens hcloses

/-- **The type of a field** uses names of the templates beside the declared ones. -/
theorem neat_kindType (kind : Kind) : Neat (kindType kind) := by
  have hbox : Opens "Box<" := opens_of rfl (by decide)
  have hlist : Opens "Vec<" := opens_of rfl (by decide)
  have harray : Opens "Box<[" := opens_of rfl (by decide)
  have hmap : Opens "std::collections::HashMap<" := opens_of rfl (by decide)
  have hclose : Closes ">" := closes_of rfl (by decide)
  have hcloseArray : Closes "]>" := closes_of rfl (by decide)
  have hcomma : Opens ", " := opens_of rfl (by decide)
  induction kind with
  | primitive p => exact neat_primitiveType p
  | «enum» name repr => exact neat_ident
  | nested name recursive =>
    cases recursive with
    | false => exact neat_ident
    | true => exact neat_ident.enclose hbox hclose
  | list element nullable ih => exact (ih.optionType nullable).enclose hlist hclose
  | array element nullable ih => exact (ih.optionType nullable).enclose harray hcloseArray
  | map key value nullable ihkey ihvalue =>
    have hvalue := hcomma.neat_append (ihvalue.optionType nullable)
    exact (ihkey.append hvalue (.inr (beginsInWord_text rfl rfl))).enclose hmap hclose

theorem neat_joinPieces {lists : List (List Piece)} (h : ∀ list ∈ lists, Neat list)
    (hopens : Opens separator)
    (hcloses : ∀ rest, beginsInWord (tokensOf (.text separator :: rest)) = false) :
    Neat (joinPieces separator lists) := by
  induction lists with
  | nil =>
    rw [neat_iff, joinPieces, tokensOf_nil]
    decide
  | cons head rest ih =>
    rw [List.forall_mem_cons] at h
    cases rest with
    | nil => exact h.1
    | cons next rest =>
      rw [joinPieces, List.append_assoc]
      · exact h.1.append (hopens.neat_append (ih h.2)) (.inr (hcloses _))
      · simp

end

/-! ## 3. The templates

In each template, the lines with something in them that is not fixed come first; what remains is
fixed text, whose words are looked up in the list.
-/

section

variable {table : Table}

theorem listed_fileHeader : Listed fileHeader := by
  simp only [fileHeader, listed_line, listed_nil, and_true]
  simp (disch := rfl) only [listedLine_iff, tokensOf_text, tokensOf_nil]
  decide

theorem listed_modulePrelude : Listed modulePrelude := by
  simp only [modulePrelude, listed_append, listed_fileHeader, listed_blank, listed_line, listed_nil,
    and_true, true_and]
  simp (disch := rfl) only [listedLine_iff, tokensOf_text, tokensOf_nil]
  decide

/-! ### The file of a structure -/

theorem listed_structType (code : StructCode) : Listed [structType code] := by
  rw [structType, listed_plainBlock, listed_map]
  refine ⟨?_, ?_, listed_nil⟩
  · simp (disch := rfl) only [listedLine_iff, tokensOf_text, tokensOf_ident, tokensOf_nil]
    decide
  · rintro ⟨name, kind, slot⟩ -
    refine listed_line.mpr ⟨?_, listed_nil⟩
    have hpub : Opens "pub " := opens_of rfl (by decide)
    have hcolon : Opens ": " := opens_of rfl (by decide)
    have hcomma : Closes "," := closes_of rfl (by decide)
    have htype := ((neat_kindType kind).optionType slot.isSome).enclose hcolon hcomma
    exact hpub.listed_append (neat_ident.append_listed htype.listed (.inl rfl))

theorem listed_fixedSizeConst (code : StructCode) : Listed (fixedSizeConst code) := by
  have hopens : Opens "const FIXED_SIZE: Option<usize> = bitwire::sum_fixed_sizes(&[" :=
    opens_of rfl (by decide)
  have hcloses : Closes "]);" := closes_of rfl (by decide)
  have hopen : Opens "<" := opens_of rfl (by decide)
  have hclose : Closes " as bitwire::Encoder>::FIXED_SIZE" := closes_of rfl (by decide)
  have hcomma : Opens ", " := opens_of rfl (by decide)
  have hsizes := neat_joinPieces
    (List.forall_mem_map.mpr fun (field : String × Kind × Option Nat) (_ : field ∈ code.fields) =>
      (neat_kindType field.2.1).enclose hopen hclose)
    hcomma fun rest => beginsInWord_text rfl rfl
  exact listed_line.mpr ⟨(hsizes.enclose hopens hcloses).listed, listed_blank.mpr listed_nil⟩

theorem listed_plainSizeBody (code : StructCode) : Listed (plainSizeBody code) := by
  have hplus : Opens " + " := opens_of rfl (by decide)
  have hterm : ∀ name : String, Neat ["self.", .ident name, ".size()"] := by
    intro name
    simp (disch := rfl) only [neat_iff, tokensOf_text, tokensOf_ident, tokensOf_nil]
    decide
  have hterms := neat_joinPieces
    (List.forall_mem_map.mpr fun (field : String × Kind × Option Nat) (_ : field ∈ code.fields) =>
      hterm (identOf field.1))
    hplus fun rest => beginsInWord_text rfl rfl
  have hzero : Neat [.text "0"] := neat_number 0
  simp only [plainSizeBody, listed_plainBlock, listed_line, listed_nil, and_true]
  refine ⟨?_, ?_, ?_⟩
  · simp (disch := rfl) only [listedLine_iff, tokensOf_text, tokensOf_nil]
    decide
  · simp (disch := rfl) only [listedLine_iff, tokensOf_text, tokensOf_nil]
    decide
  · split
    · exact hzero.listed
    · exact hterms.listed

theorem listed_nullableSizeBody (code : StructCode) : Listed (nullableSizeBody code) := by
  have hbytes : ListedLine ["let mut size = ", .text (toString code.bitsetBytes), ";"] :=
    listedLine_number _ (opens_of rfl (by decide)) (closes_of rfl (by decide))
  simp only [nullableSizeBody, listed_append, listed_line, listed_map, listed_nil, and_true]
  refine ⟨⟨hbytes, ?_⟩, ?_⟩
  · rintro ⟨name, kind, slot⟩ -
    cases slot with
    | none =>
      simp only [Option.isSome_none, Bool.false_eq_true, if_false, listed_line, listed_nil,
        and_true]
      simp (disch := rfl) only [listedLine_iff, tokensOf_text, tokensOf_ident, tokensOf_nil]
      decide
    | some slot =>
      simp only [Option.isSome_some, if_true, listed_plainBlock, listed_line, listed_nil, and_true]
      simp (disch := rfl) only [listedLine_iff, tokensOf_text, tokensOf_ident, tokensOf_nil]
      decide
  · simp (disch := rfl) only [listedLine_iff, tokensOf_text, tokensOf_nil]
    decide

theorem listed_writeStep (step : Step) : Listed (writeStep step) := by
  cases step with
  | bitset bytes slots =>
    have hbytes : ListedLine
        ["let mut bitset = NullBitset::<", .text (toString bytes), ">::new();"] :=
      listedLine_number _ (opens_of rfl (by decide)) (closes_of rfl (by decide))
    simp only [writeStep, listed_append, listed_line, listed_map, listed_nil, and_true]
    refine ⟨⟨hbytes, ?_⟩, ?_⟩
    · rintro ⟨name, slot⟩ -
      have hset : Opens "bitset.set(" := opens_of rfl (by decide)
      refine hset.listed_append
        ((neat_number slot).append_listed ?_ (.inr (beginsInWord_text rfl rfl)))
      simp (disch := rfl) only [listedLine_iff, tokensOf_text, tokensOf_ident, tokensOf_nil]
      decide
    · simp (disch := rfl) only [listedLine_iff, tokensOf_text, tokensOf_nil]
      decide
  | field name kind slot =>
    cases slot with
    | none =>
      simp only [writeStep, listed_line, listed_nil, and_true]
      simp (disch := rfl) only [listedLine_iff, tokensOf_text, tokensOf_ident, tokensOf_nil]
      decide
    | some slot =>
      simp only [writeStep, listed_plainBlock, listed_line, listed_nil, and_true]
      simp (disch := rfl) only [listedLine_iff, tokensOf_text, tokensOf_ident, tokensOf_nil]
      decide

theorem listed_readStep (step : Step) : Listed (readStep step) := by
  cases step with
  | bitset bytes slots =>
    have hbytes : ListedLine
        ["let bitset = NullBitset::<", .text (toString bytes), ">::read(buf, cursor)?;"] :=
      listedLine_number _ (opens_of rfl (by decide)) (closes_of rfl (by decide))
    exact listed_line.mpr ⟨hbytes, listed_nil⟩
  | field name kind slot =>
    cases slot with
    | none =>
      simp only [readStep, listed_line, listed_nil, and_true]
      simp (disch := rfl) only [listedLine_iff, tokensOf_text, tokensOf_ident, tokensOf_nil]
      decide
    | some slot =>
      have hnull : ListedLine ["if bitset.is_null(", .text (toString slot), ")"] :=
        listedLine_number _ (opens_of rfl (by decide)) (closes_of rfl (by decide))
      simp only [readStep, listed_blockElse, listed_line, listed_nil, hnull, and_true, true_and]
      simp (disch := rfl) only [listedLine_iff, tokensOf_text, tokensOf_ident, tokensOf_nil]
      decide

theorem listed_stepsBody {statements : Step → List Code} (h : ∀ step, Listed (statements step))
    (code : StructCode) : Listed (stepsBody statements code) := by
  have hsteps : Listed (code.steps.flatMap statements) := listed_flatMap.mpr fun step _ => h step
  have hunused :
      Listed (if code.steps.isEmpty then [.line ["let _ = (buf, cursor);"]] else []) := by
    split
    · simp only [listed_line, listed_nil, and_true]
      simp (disch := rfl) only [listedLine_iff, tokensOf_text, tokensOf_nil]
      decide
    · exact listed_nil
  simp only [stepsBody, listed_append, listed_line, listed_nil, hsteps, hunused, and_true, true_and]
  simp (disch := rfl) only [listedLine_iff, tokensOf_text, tokensOf_nil]
  decide

theorem listed_serializeHead : ListedLine serializeHead := by
  simp (disch := rfl) only [serializeHead, listedLine_iff, tokensOf_text, tokensOf_nil]
  decide

theorem listed_deserializeHead : ListedLine deserializeHead := by
  simp (disch := rfl) only [deserializeHead, listedLine_iff, tokensOf_text, tokensOf_nil]
  decide

theorem listed_structEncoder (code : StructCode) : Listed [structEncoder code] := by
  have hsizes : Listed (if code.bitsetBytes = 0 then fixedSizeConst code else []) := by
    split
    · exact listed_fixedSizeConst code
    · exact listed_nil
  have hsize :
      Listed (if code.bitsetBytes = 0 then plainSizeBody code else nullableSizeBody code) := by
    split
    · exact listed_plainSizeBody code
    · exact listed_nullableSizeBody code
  simp only [structEncoder, listed_plainBlock, listed_append, listed_blank, listed_nil, hsizes,
    hsize, listed_serializeHead, listed_stepsBody listed_writeStep, and_true, true_and]
  simp (disch := rfl) only [listedLine_iff, tokensOf_text, tokensOf_ident, tokensOf_nil]
  decide

theorem listed_structDecoder (code : StructCode) : Listed [structDecoder code] := by
  simp only [structDecoder, overwriteHead, listed_plainBlock, listed_line, listed_blank, listed_nil,
    listed_deserializeHead, listed_stepsBody listed_readStep, and_true, true_and]
  simp (disch := rfl) only [listedLine_iff, tokensOf_text, tokensOf_ident, tokensOf_nil]
  decide

/-- **The file of a structure uses names of the templates only.** -/
theorem listed_structModule (code : StructCode) : Listed (structModule code) := by
  have hparts : Listed
      [structType code, .blank, structEncoder code, .blank, structDecoder code] :=
    listed_cons.mpr ⟨listed_structType code, listed_blank.mpr <|
      listed_cons.mpr ⟨listed_structEncoder code, listed_blank.mpr (listed_structDecoder code)⟩⟩
  simp only [structModule, listed_append, listed_line, listed_blank, listed_doc,
    listed_modulePrelude, hparts, and_true, true_and]
  simp (disch := rfl) only [listedLine_iff, tokensOf_text, tokensOf_nil]
  decide

/-! ### The file of an enumeration -/

theorem listed_variantLines (variants : List Variant) : Listed (variantLines variants) := by
  cases variants with
  | nil => exact listed_nil
  | cons first rest =>
    have hvariants : Listed ((first :: rest).map fun v : Variant =>
        .line [.ident (identOf v.name), " = ", toString v.discriminant, ","]) := by
      refine listed_map.mpr fun v _ => listed_line.mpr ⟨?_, listed_nil⟩
      have hequals : Opens " = " := opens_of rfl (by decide)
      have hcomma : Closes "," := closes_of rfl (by decide)
      have hvalue := (neat_integer v.discriminant).enclose hequals hcomma
      exact neat_ident.append_listed hvalue.listed (.inl rfl)
    simp only [variantLines, listed_line, hvariants, and_true]
    simp (disch := rfl) only [listedLine_iff, tokensOf_text, tokensOf_nil]
    decide

theorem listed_variantArms {e : Enumeration} (h : isIdentifier e.name = true) :
    Listed (variantArms e) := by
  have hvariants : Listed (e.variants.map fun v : Variant =>
      .line [toString v.discriminant, " => Ok(Self::", .ident (identOf v.name), "),"]) := by
    refine listed_map.mpr fun v _ => listed_line.mpr ⟨?_, listed_nil⟩
    refine (neat_integer v.discriminant).append_listed ?_ (.inr (beginsInWord_text rfl rfl))
    simp (disch := rfl) only [listedLine_iff, tokensOf_text, tokensOf_ident, tokensOf_nil]
    decide
  have hname : ListedLine ["    enum_name: \"", e.name, "\","] := by
    obtain ⟨c, rest, htext, -, -⟩ := Schema.exists_of_isIdentifier h
    -- the quotes are parts of the pieces around the name
    rw [listedLine_iff, tokensOf_text rfl, tokensOf_cons (.text e.name), Piece.read,
      tokensOf_text rfl, foldr_read_word (by simp [htext]) (forall_isIdentChar h) rfl]
    rfl
  simp only [variantArms, listed_append, listed_line, listed_nil, hvariants, hname, and_true,
    true_and]
  simp (disch := rfl) only [listedLine_iff, tokensOf_text, tokensOf_nil]
  decide

/-- **So does the file of an enumeration.** -/
theorem listed_enumModule {e : Enumeration} (h : isIdentifier e.name = true) :
    Listed (enumModule e) := by
  have hrepr : ListedLine ["#[repr(", e.repr.name, ")]"] ∧
      ListedLine ["bitwire::write_", e.repr.name, "(buf, cursor, *self as ", e.repr.name, ")"] ∧
      ListedLine ["match bitwire::read_", e.repr.name, "(buf, cursor)?"] := by
    cases e.repr <;>
      · simp (disch := rfl) only [Schema.IntRepr.name, listedLine_iff, tokensOf_text, tokensOf_nil]
        decide
  have hsize : ListedLine ["const FIXED_SIZE: Option<usize> = Some(", toString e.repr.size, ");"] :=
    listedLine_number _ (opens_of rfl (by decide)) (closes_of rfl (by decide))
  simp only [enumModule, listed_append, listed_plainBlock, listed_line, listed_blank, listed_nil,
    listed_modulePrelude, listed_variantLines, listed_variantArms h, listed_serializeHead,
    listed_deserializeHead, hrepr, hsize, (neat_number _).listed, and_true, true_and]
  simp (disch := rfl) only [listedLine_iff, tokensOf_text, tokensOf_ident, tokensOf_nil]
  decide

/-! ### The shared files -/

variable {entry : TableEntry} {pieces rest : List Piece}

theorem tokensOf_literal (h : isIdentifier entry.name = true) :
    tokensOf (entry.literal :: rest) =
      .mark '"' :: .word entry.name.toList :: .mark '"' :: tokensOf rest :=
  tokensOf_quoted h

/-- A name in quotes uses nothing, and runs into nothing on either side. -/
theorem Neat.append_literal (hpieces : Neat pieces) (h : isIdentifier entry.name = true)
    (hrest : ListedLine rest) : ListedLine (pieces ++ entry.literal :: rest) := by
  have hliteral : ListedLine ([entry.literal] ++ rest) := by
    refine (neat_quoted h).append_listed hrest (.inl ?_)
    rw [tokensOf_quoted h]
    rfl
  refine hpieces.append_listed hliteral (.inr ?_)
  rw [tokensOf_literal h]
  rfl

theorem listed_matchAny {arm : TableEntry → List Piece}
    (h : ∀ entry ∈ table.entries, ListedLine (arm entry)) : Listed (matchAny table arm) := by
  have harms : Listed (table.entries.map fun entry => .line (arm entry)) :=
    listed_map.mpr fun entry hentry => listed_line.mpr ⟨h entry hentry, listed_nil⟩
  unfold matchAny
  split
  · simp only [listed_line, listed_nil, and_true]
    simp (disch := rfl) only [listedLine_iff, tokensOf_text, tokensOf_nil]
    decide
  · simp only [listed_plainBlock, harms, listed_nil, and_true]
    simp (disch := rfl) only [listedLine_iff, tokensOf_text, tokensOf_nil]
    decide

theorem listed_anyValueType (h : ∀ entry ∈ table.entries, isIdentifier entry.name = true) :
    Listed (anyValueType table) := by
  have hvariants : Listed (table.entries.map fun entry =>
      .line [entry.ident, "(", entry.ident, "),"]) := by
    refine listed_map.mpr fun entry _ => listed_line.mpr ⟨?_, listed_nil⟩
    simp (disch := rfl) only [TableEntry.ident, listedLine_iff, tokensOf_text, tokensOf_ident,
      tokensOf_nil]
    decide
  have htags : Listed (matchAny table fun entry =>
      ["AnyValue::", entry.ident, "(_) => ", entry.const, ","]) := by
    refine listed_matchAny fun entry _ => ?_
    simp (disch := rfl) only [TableEntry.ident, TableEntry.const, listedLine_iff, tokensOf_text,
      tokensOf_ident, tokensOf_nil]
    decide
  have hnames : Listed (matchAny table fun entry =>
      ["AnyValue::", entry.ident, "(_) => ", entry.literal, ","]) := by
    refine listed_matchAny fun entry hentry => ?_
    have hvariant : Neat ["AnyValue::", entry.ident, "(_) => "] := by
      simp (disch := rfl) only [TableEntry.ident, neat_iff, tokensOf_text, tokensOf_ident,
        tokensOf_nil]
      decide
    have hcomma : Closes "," := closes_of rfl (by decide)
    exact hvariant.append_literal (h entry hentry) hcomma.neat.listed
  simp only [anyValueType, listed_doc, listed_plainBlock, listed_line, listed_blank, listed_nil,
    hvariants, htags, hnames, and_true, true_and]
  simp (disch := rfl) only [listedLine_iff, tokensOf_text, tokensOf_nil]
  decide

theorem listed_registeredTrait : Listed registeredTrait := by
  simp only [registeredTrait, listed_doc, listed_plainBlock, listed_line, listed_nil, listed_blank,
    and_true]
  simp (disch := rfl) only [listedLine_iff, tokensOf_text, tokensOf_nil]
  decide

theorem listed_registeredImpl (h : isIdentifier entry.name = true) :
    Listed (registeredImpl entry) := by
  have hname : ListedLine ["const NAME: &'static str = ", entry.literal, ";"] := by
    have hconst : Opens "const NAME: &'static str = " := opens_of rfl (by decide)
    have hend : Closes ";" := closes_of rfl (by decide)
    exact hconst.neat.append_literal h hend.neat.listed
  simp only [registeredImpl, listed_plainBlock, listed_line, listed_blank, listed_nil, hname,
    and_true, true_and]
  simp (disch := rfl) only [TableEntry.ident, TableEntry.const, listedLine_iff, tokensOf_text,
    tokensOf_ident, tokensOf_nil]
  decide

theorem listed_tagFunctions (h : ∀ entry ∈ table.entries, isIdentifier entry.name = true) :
    Listed (tagFunctions table) := by
  have htags : Listed (table.entries.map fun entry =>
      .line [entry.literal, " => Some(", entry.const, "),"]) := by
    refine listed_map.mpr fun entry hentry => listed_line.mpr ⟨?_, listed_nil⟩
    have hempty : Neat [] := neat_iff.mpr (by decide)
    refine hempty.append_literal (h entry hentry) ?_
    simp (disch := rfl) only [TableEntry.const, listedLine_iff, tokensOf_text, tokensOf_ident,
      tokensOf_nil]
    decide
  have hnames : Listed (table.entries.map fun entry =>
      .line [entry.const, " => Some(", entry.literal, "),"]) := by
    refine listed_map.mpr fun entry hentry => listed_line.mpr ⟨?_, listed_nil⟩
    have hconst : Neat [entry.const, " => Some("] := by
      simp (disch := rfl) only [TableEntry.const, neat_iff, tokensOf_text, tokensOf_ident,
        tokensOf_nil]
      decide
    have hclose : Closes ")," := closes_of rfl (by decide)
    exact hconst.append_literal (h entry hentry) hclose.neat.listed
  simp only [tagFunctions, listed_doc, listed_plainBlock, listed_append, listed_line, listed_blank,
    listed_nil, htags, hnames, and_true, true_and]
  simp (disch := rfl) only [listedLine_iff, tokensOf_text, tokensOf_nil]
  decide

theorem listed_writeFunctions : Listed (writeFunctions table) := by
  have himpossible : Listed (impossibleArm table) := by
    unfold impossibleArm
    split
    · simp only [listed_line, listed_nil, and_true]
      simp (disch := rfl) only [listedLine_iff, tokensOf_text, tokensOf_nil]
      decide
    · exact listed_nil
  have hsizes : Listed (table.entries.map fun entry =>
      .line ["Some(AnyValue::", entry.ident, "(value)) => 1 + value.size(),"]) := by
    refine listed_map.mpr fun entry _ => listed_line.mpr ⟨?_, listed_nil⟩
    simp (disch := rfl) only [TableEntry.ident, listedLine_iff, tokensOf_text, tokensOf_ident,
      tokensOf_nil]
    decide
  have hwrites : Listed (table.entries.map fun entry =>
      .plainBlock ["Some(AnyValue::", entry.ident, "(value)) =>"]
        [.line ["bitwire::write_u8(buf, cursor, ", entry.const, ")?;"],
          .line ["value.serialize(buf, cursor)"]]) := by
    refine listed_map.mpr fun entry _ => ?_
    simp only [listed_plainBlock, listed_line, listed_nil, and_true]
    simp (disch := rfl) only [TableEntry.ident, TableEntry.const, listedLine_iff, tokensOf_text,
      tokensOf_ident, tokensOf_nil]
    decide
  simp only [writeFunctions, listed_doc, listed_plainBlock, listed_append, listed_line, listed_blank,
    listed_nil, himpossible, hsizes, hwrites, and_true]
  simp (disch := rfl) only [listedLine_iff, tokensOf_text, tokensOf_nil]
  decide

theorem listed_readFunctions : Listed (readFunctions table) := by
  have hreads : Listed (table.entries.map fun entry =>
      .line [entry.const, " => Ok(AnyValue::", entry.ident, "(", entry.ident,
        "::deserialize(buf, cursor)?)),"]) := by
    refine listed_map.mpr fun entry _ => listed_line.mpr ⟨?_, listed_nil⟩
    simp (disch := rfl) only [TableEntry.ident, TableEntry.const, listedLine_iff, tokensOf_text,
      tokensOf_ident, tokensOf_nil]
    decide
  simp only [readFunctions, listed_doc, listed_block, listed_plainBlock, listed_append, listed_line,
    listed_blank, listed_nil, hreads, and_true, true_and]
  simp (disch := rfl) only [listedLine_iff, tokensOf_text, tokensOf_nil]
  decide

/-- **So does the dispatch table.** -/
theorem listed_dispatchModule (h : ∀ entry ∈ table.entries, isIdentifier entry.name = true) :
    Listed (dispatchModule table) := by
  have hconsts : Listed (table.entries.map fun entry =>
      .line ["pub const ", entry.const, ": u8 = ", toString entry.tag, ";"]) := by
    refine listed_map.mpr fun entry _ => listed_line.mpr ⟨?_, listed_nil⟩
    have hopens : Opens "pub const " := opens_of rfl (by decide)
    have htype : Opens ": u8 = " := opens_of rfl (by decide)
    have hend : Closes ";" := closes_of rfl (by decide)
    have htag := listedLine_number entry.tag htype hend
    exact hopens.listed_append (neat_ident.append_listed htag (.inl rfl))
  have himpls : Listed (table.entries.flatMap registeredImpl) :=
    listed_flatMap.mpr fun entry hentry => listed_registeredImpl (h entry hentry)
  simp only [dispatchModule, listed_append, listed_line, listed_blank, listed_doc, listed_nil,
    listed_modulePrelude, hconsts, listed_anyValueType h, listed_registeredTrait, himpls,
    listed_tagFunctions h, listed_writeFunctions, listed_readFunctions, and_true, true_and]
  simp (disch := rfl) only [listedLine_iff, tokensOf_text, tokensOf_nil]
  decide

/-- **So does the listing.** -/
theorem listed_listingModule (h : ∀ entry ∈ table.entries, isIdentifier entry.name = true) :
    Listed (listingModule table) := by
  have hmodule : ∀ module : String × String,
      ListedLine ["pub mod ", .ident (identOf module.1), ";"] := by
    intro module
    simp (disch := rfl) only [listedLine_iff, tokensOf_text, tokensOf_ident, tokensOf_nil]
    decide
  have himport : ∀ module : String × String,
      ListedLine ["pub use ", .ident (identOf module.1), "::", .ident module.2, ";"] := by
    intro module
    simp (disch := rfl) only [listedLine_iff, tokensOf_text, tokensOf_ident, tokensOf_nil]
    decide
  have hentry : ∀ entry ∈ table.entries,
      ListedLine ["    (", toString entry.tag, ", ", entry.literal, "),"] := by
    intro entry hentry
    have hopens : Opens "    (" := opens_of rfl (by decide)
    have hcomma : Closes ", " := closes_of rfl (by decide)
    refine ((neat_number entry.tag).enclose hopens hcomma).append_literal (h entry hentry) ?_
    simp (disch := rfl) only [listedLine_iff, tokensOf_text, tokensOf_nil]
    decide
  simp only [listingModule, listed_append, listed_line, listed_blank, listed_doc, listed_map,
    listed_nil, listed_fileHeader, hmodule, himport, implies_true, and_true, true_and]
  refine ⟨⟨?_, hentry⟩, ?_⟩
  all_goals
    simp (disch := rfl) only [listedLine_iff, tokensOf_text, tokensOf_nil]
    decide

end

end Wireform.Emit
