import Mathlib.Data.List.TakeWhile
import Wireform.Derive.Lexeme
import Wireform.Proofs.Known

/-!
# Cutting source text

What a text is cut into is found from its parts.  A text is *closed* if it is cut into the same tokens
whatever stands behind it (`Closed`): its last token is a mark, or a blank stands behind that.  It
*spells* its tokens (`Spells`) if so it is in front of what cannot go on with a word.

Fixed text is *plain* if it has only names, marks and blanks.  Then a much simpler reading gives its
tokens (`plain?`), which is evaluated where the tokens of such a text are needed.  Numbers, raw
identifiers and comments are no plain text, and have lemmas of their own.
-/
namespace Wireform.Derive.Lexeme

/-! ## 1. What is in front -/

/-- Nothing goes on with a word, nor makes it the start of a literal. -/
def EndsWord (rest : List Char) : Prop :=
  ∀ c ∈ rest.head?, isWordChar c = false ∧ c ∉ ['#', '"', '\x27']

theorem EndsWord.append {text rest : List Char} (h : EndsWord text) (hrest : EndsWord rest) :
    EndsWord (text ++ rest) := by
  cases text with
  | nil => exact hrest
  | cons c text => exact h

theorem isWordChar_of_isIdentChar {c : Char} (h : Schema.isIdentChar c = true) :
    isWordChar c = true := by
  unfold Schema.isIdentChar at h
  unfold isWordChar
  rw [h]
  rfl

theorem isGap_of_isIdentChar {c : Char} (h : Schema.isIdentChar c = true) : isGap c = false := by
  have hrange := Schema.toNat_of_isIdentChar h
  unfold isGap Text.isBlank
  simp
  omega

theorem ne_of_isIdentChar {c other : Char} (h : Schema.isIdentChar c = true)
    (hother : Schema.isIdentChar other = false) : c ≠ other := by
  rintro rfl
  rw [h] at hother
  cases hother

/-- A word part ends where the word does. -/
theorem wordPart_append {word rest : List Char} (hword : ∀ c ∈ word, isWordChar c = true)
    (hrest : EndsWord rest) : wordPart (word ++ rest) = (word, rest) := by
  unfold wordPart
  rw [List.span_eq_takeWhile_dropWhile, List.takeWhile_append_of_pos hword,
    List.dropWhile_append_of_pos hword]
  cases rest with
  | nil => simp
  | cons c rest =>
    have hc := (hrest c rfl).1
    simp [hc]

theorem comment?_eq_none {c : Char} {rest : List Char} (h : c ≠ '/') :
    comment? (c :: rest) = none := by
  unfold comment?
  split <;> simp_all

theorem rawText?_eq_none {text : List Char} (h : ∀ c ∈ text.head?, c ∉ ['#', '"']) :
    rawText? text = none := by
  cases text with
  | nil => rfl
  | cons c rest =>
    have hc := h c rfl
    simp only [List.mem_cons, List.not_mem_nil, or_false, not_or] at hc
    simp [rawText?, List.span, List.span.loop, hc]

/-- What is in front of a word, or of nothing, does not begin with a quote or a hash mark. -/
theorem head_of_endsWord {word rest : List Char} (hword : ∀ c ∈ word, Schema.isIdentChar c = true)
    (hrest : EndsWord rest) : ∀ c ∈ (word ++ rest).head?, c ∉ ['#', '"', '\x27'] := by
  intro c hc
  cases word with
  | nil => exact (hrest c hc).2
  | cons d word =>
    cases hc
    have hident := hword c List.mem_cons_self
    have hhash := ne_of_isIdentChar hident (show Schema.isIdentChar '#' = false by decide)
    have hquote := ne_of_isIdentChar hident (show Schema.isIdentChar '"' = false by decide)
    have hsingle := ne_of_isIdentChar hident (show Schema.isIdentChar '\x27' = false by decide)
    simp [hhash, hquote, hsingle]

/-- No literal with quotes begins where a word does. -/
theorem quotedLiteral?_word {word rest : List Char} (hne : word ≠ [])
    (hword : ∀ c ∈ word, Schema.isIdentChar c = true) (hrest : EndsWord rest) :
    quotedLiteral? (word ++ rest) = none := by
  obtain ⟨c, tail, rfl⟩ := List.exists_cons_of_ne_nil hne
  have hfirst := head_of_endsWord hword hrest c rfl
  have htail : ∀ d ∈ tail, Schema.isIdentChar d = true :=
    fun d hd => hword d (List.mem_cons_of_mem _ hd)
  have hsecond := head_of_endsWord htail hrest
  have hraw : rawText? (tail ++ rest) = none :=
    rawText?_eq_none fun d hd hmem => hsecond d hd (by simp_all)
  have hthird : ∀ d more, tail ++ rest = d :: more → d = 'r' → rawText? more = none := by
    rintro d more heq rfl
    cases tail with
    | nil =>
      rw [List.nil_append] at heq
      subst heq
      exact absurd (hrest 'r' rfl).1 (by decide)
    | cons e tail =>
      cases heq
      have hmore := head_of_endsWord (fun d hd => htail d (List.mem_cons_of_mem _ hd)) hrest
      exact rawText?_eq_none fun d hd hmem => hmore d hd (by simp_all)
  simp only [List.mem_cons, List.not_mem_nil, or_false, not_or] at hfirst
  unfold quotedLiteral?
  split
  · next heq => exact absurd (List.cons.inj heq).1 hfirst.2.1
  · next heq => exact absurd (by simp) (hsecond '"' (by simp_all))
  · next heq => exact absurd (by simp) (hsecond '"' (by simp_all))
  · next heq =>
    obtain ⟨-, rfl⟩ := List.cons.inj heq
    exact congrArg (withFront ['r']) hraw
  · next heq =>
    rw [hthird 'r' _ (List.cons.inj heq).2 rfl]
    rfl
  · next heq =>
    rw [hthird 'r' _ (List.cons.inj heq).2 rfl]
    rfl
  · next heq => exact absurd (by simp) (hsecond '\x27' (by simp_all))
  · unfold character?
    split
    · next heq => exact absurd (List.cons.inj heq).1 hfirst.2.2
    · next heq => exact absurd (List.cons.inj heq).1 hfirst.2.2
    · rfl

/-- A word is cut off where no digit is in front. -/
theorem cut_word {c : Char} {tail rest : List Char} (hstart : Schema.isIdentStart c = true)
    (htail : ∀ d ∈ tail, Schema.isIdentChar d = true) (hrest : EndsWord rest) (bound : Nat) :
    cut (bound + 1) (c :: (tail ++ rest)) =
      ⟨.word (String.ofList (c :: tail)), false⟩ :: cut bound rest := by
  obtain ⟨hident, hdigit⟩ := Schema.isIdentChar_of_isIdentStart hstart
  have hall : ∀ d ∈ c :: tail, Schema.isIdentChar d = true :=
    List.forall_mem_cons.mpr ⟨hident, htail⟩
  have hpart : wordPart (c :: (tail ++ rest)) = (c :: tail, rest) :=
    wordPart_append (fun d hd => isWordChar_of_isIdentChar (hall d hd)) hrest
  have hwordStart : isWordStart c = true := by
    unfold isWordStart
    rw [isWordChar_of_isIdentChar hident, hdigit]
    rfl
  have hliteral : literal? (c :: (tail ++ rest)) = none := by
    have hquoted : quotedLiteral? (c :: (tail ++ rest)) = none :=
      quotedLiteral?_word (List.cons_ne_nil c tail) hall hrest
    have hnumeral : numeral? (c :: (tail ++ rest)) = none := by simp [numeral?, hdigit]
    unfold literal?
    rw [hquoted, hnumeral]
    rfl
  have hfound : word? (c :: (tail ++ rest)) = some (c :: tail, rest) := by
    unfold word?
    split
    · next heq =>
      -- no raw identifier: there is no hash mark in a word, nor behind it
      have hhash := head_of_endsWord htail hrest '#' (by simp_all)
      exact absurd List.mem_cons_self hhash
    · next heq =>
      cases heq
      rw [if_pos hwordStart, hpart]
    · next heq => cases heq
  have hstep : step c (tail ++ rest) = ([⟨.word (String.ofList (c :: tail)), false⟩], rest) := by
    unfold step
    rw [comment?_eq_none (ne_of_isIdentChar hident (by decide)), hliteral, hfound]
  rw [cut, isGap_of_isIdentChar hident, if_neg Bool.false_ne_true, hstep]
  rfl

/-- The marks of plain text. -/
def plainMarks : List Char :=
  ['(', ')', '\x7b', '\x7d', '[', ']', '<', '>', ':', ';', ',', '.', '&', '?', '=', '+', '-', '!',
    '#', '*']

/-- A mark is no blank, starts no comment or literal, and is not part of a word. -/
theorem class_of_mem_plainMarks {c : Char} (hc : c ∈ plainMarks) :
    isGap c = false ∧ c ≠ '/' ∧ c.isDigit = false ∧ isWordChar c = false ∧
      c ∉ ['"', '\x27', 'b', 'c', 'r'] := by
  simp only [plainMarks, List.mem_cons, List.not_mem_nil, or_false] at hc
  rcases hc with rfl | rfl | rfl | rfl | rfl | rfl | rfl | rfl | rfl | rfl | rfl | rfl | rfl | rfl |
    rfl | rfl | rfl | rfl | rfl | rfl <;> decide

/-- A mark in front is cut off by itself. -/
theorem cut_mark {c : Char} (hc : c ∈ plainMarks) (rest : List Char) (bound : Nat) :
    (cut (bound + 1) (c :: rest)).map token = .mark c :: (cut bound rest).map token := by
  obtain ⟨hgap, hslash, hdigit, hchar, hletters⟩ := class_of_mem_plainMarks hc
  simp only [List.mem_cons, List.not_mem_nil, or_false, not_or] at hletters
  have hstart : isWordStart c = false := by
    unfold isWordStart
    rw [hchar]
    rfl
  have hquoted : quotedLiteral? (c :: rest) = none := by
    unfold quotedLiteral? character?
    split <;> simp_all
  have hliteral : literal? (c :: rest) = none := by
    have hnumeral : numeral? (c :: rest) = none := by simp [numeral?, hdigit]
    unfold literal?
    rw [hquoted, hnumeral]
    rfl
  have hword : word? (c :: rest) = none := by
    unfold word?
    split
    · next heq =>
      cases heq
      exact absurd rfl hletters.2.2.2.2
    · next heq =>
      cases heq
      rw [hstart]
      rfl
    · rfl
  have hstep : step c rest =
      ([⟨.mark c, isPunctuation c && (c == '\x27' || startsWithMark rest)⟩], rest) := by
    unfold step
    rw [comment?_eq_none hslash, hliteral, hword]
  rw [cut, hgap, if_neg Bool.false_ne_true, hstep]
  rfl

/-- A blank in front is passed over. -/
theorem cut_gap {c : Char} (hc : isGap c = true) (rest : List Char) (bound : Nat) :
    cut (bound + 1) (c :: rest) = cut bound rest := by
  rw [cut, if_pos hc]

/-! ## 2. Texts and their tokens -/

/-- A text is cut into the tokens, in front of some others. -/
def CutsInto (text : List Char) (tokens : List Token) (rest : List Char) : Prop :=
  ∃ turns ≤ text.length, ∀ bound,
    (cut (bound + turns) (text ++ rest)).map token = tokens ++ (cut bound rest).map token

/-- A text is cut into the tokens, whatever is behind it. -/
def Closed (text : List Char) (tokens : List Token) : Prop := ∀ rest, CutsInto text tokens rest

/-- A text is cut into the tokens in front of what does not go on with a word. -/
def Spells (text : List Char) (tokens : List Token) : Prop :=
  ∀ rest, EndsWord rest → CutsInto text tokens rest

theorem CutsInto.append {text more rest : List Char} {tokens others : List Token}
    (h : CutsInto text tokens (more ++ rest)) (h' : CutsInto more others rest) :
    CutsInto (text ++ more) (tokens ++ others) rest := by
  obtain ⟨turns, hturns, hcuts⟩ := h
  obtain ⟨later, hlater, hcuts'⟩ := h'
  refine ⟨later + turns, ?_, fun bound => ?_⟩
  · rw [List.length_append]
    omega
  · rw [List.append_assoc, ← Nat.add_assoc, hcuts, hcuts', List.append_assoc]

theorem endsWord_nil : EndsWord [] := fun _ hc => nomatch hc

theorem endsWord_mark {c : Char} (hc : c ∈ plainMarks) (hhash : c ≠ '#') (rest : List Char) :
    EndsWord (c :: rest) := by
  rintro d ⟨⟩
  obtain ⟨-, -, -, hchar, hletters⟩ := class_of_mem_plainMarks hc
  simp only [List.mem_cons, List.not_mem_nil, or_false, not_or] at hletters
  exact ⟨hchar, by simp [hhash, hletters]⟩

theorem endsWord_blank (rest : List Char) : EndsWord (' ' :: rest) := by
  rintro d ⟨⟩
  decide

theorem endsWord_newline (rest : List Char) : EndsWord ('\n' :: rest) := by
  rintro d ⟨⟩
  decide

variable {text more : List Char} {tokens others : List Token} {c : Char}

namespace Closed

theorem spells (h : Closed text tokens) : Spells text tokens := fun rest _ => h rest

theorem nil : Closed [] [] := fun _ => ⟨0, Nat.le_refl 0, fun _ => rfl⟩

theorem append (h : Closed text tokens) (h' : Closed more others) :
    Closed (text ++ more) (tokens ++ others) := fun rest => (h _).append (h' rest)

theorem before (h : Closed text tokens) (h' : Spells more others) :
    Spells (text ++ more) (tokens ++ others) := fun rest hrest => (h _).append (h' rest hrest)

theorem mark (hc : c ∈ plainMarks) : Closed [c] [.mark c] :=
  fun rest => ⟨1, Nat.le_refl 1, fun bound => cut_mark hc rest bound⟩

theorem gap (hc : isGap c = true) : Closed [c] [] := fun rest =>
  ⟨1, Nat.le_refl 1, fun bound => by rw [List.singleton_append, cut_gap hc]; rfl⟩

end Closed

namespace Spells

theorem word (hstart : Schema.isIdentStart c = true)
    (htail : ∀ d ∈ text, Schema.isIdentChar d = true) :
    Spells (c :: text) [.word (String.ofList (c :: text))] := by
  intro rest hrest
  refine ⟨1, Nat.le_add_left 1 _, fun bound => ?_⟩
  rw [List.cons_append, cut_word hstart htail hrest]
  rfl

theorem ident {name : String} (hname : Schema.isIdentifier name = true) :
    Spells name.toList [.word name] := by
  obtain ⟨c, tail, htoList, hstart, htail⟩ := Schema.exists_of_isIdentifier hname
  have hspells := word hstart htail
  rwa [← htoList, String.ofList_toList] at hspells

/-- Two texts, of which the second does not go on with a word. -/
theorem append (h : Spells text tokens) (hends : EndsWord more) (h' : Spells more others) :
    Spells (text ++ more) (tokens ++ others) :=
  fun rest hrest => (h _ (hends.append hrest)).append (h' rest hrest)

/-- A text in front of a closed one that does not go on with a word. -/
theorem close (h : Spells text tokens) (hends : ∀ rest, EndsWord (more ++ rest))
    (h' : Closed more others) : Closed (text ++ more) (tokens ++ others) :=
  fun rest => (h _ (hends rest)).append (h' rest)

/-- A whole text is cut into its tokens. -/
theorem src_eq {source : String} (h : Spells source.toList tokens) : src source = tokens := by
  obtain ⟨turns, hturns, hcuts⟩ := h [] endsWord_nil
  have hcut := hcuts (source.toList.length - turns)
  have hnil : ∀ bound, cut bound [] = [] := by
    intro bound
    cases bound <;> rfl
  rw [Nat.sub_add_cancel hturns, List.append_nil, hnil, List.map_nil, List.append_nil] at hcut
  unfold src ofText
  rw [← String.length_toList]
  exact hcut

end Spells

/-! ## 3. Numbers, raw identifiers and comments -/

theorem isWordChar_of_isDigit {c : Char} (h : c.isDigit = true) : isWordChar c = true := by
  unfold isWordChar Char.isAlphanum
  rw [h]
  simp

/-- No exponent is in front of what does not go on with a word. -/
theorem exponent?_eq_none {rest : List Char} (h : EndsWord rest) : exponent? rest = none := by
  cases rest with
  | nil => rfl
  | cons c rest =>
    have hc := (h c rfl).1
    have hlower : (c == 'e') = false := by
      rw [beq_eq_false_iff_ne]
      rintro rfl
      exact absurd hc (by decide)
    have hupper : (c == 'E') = false := by
      rw [beq_eq_false_iff_ne]
      rintro rfl
      exact absurd hc (by decide)
    simp [exponent?, hlower, hupper]

/-- Digits in front of what goes on neither with a word nor with a fraction are a number. -/
theorem numeral?_digits {c : Char} {tail rest : List Char}
    (hdigits : ∀ d ∈ c :: tail, d.isDigit = true) (hrest : EndsWord rest)
    (hpoint : rest.head? ≠ some '.') : numeral? (c :: (tail ++ rest)) = some (c :: tail, rest) := by
  have hpart : digitPart (c :: (tail ++ rest)) = (c :: tail, rest) := by
    have hall : ∀ d ∈ c :: tail, isDigitPart d = true := fun d hd => by
      unfold isDigitPart
      rw [hdigits d hd]
      rfl
    unfold digitPart
    rw [← List.cons_append, List.span_eq_takeWhile_dropWhile, List.takeWhile_append_of_pos hall,
      List.dropWhile_append_of_pos hall]
    cases rest with
    | nil => simp
    | cons d rest =>
      have hd : isDigitPart d = false := by
        have hword := (hrest d rfl).1
        refine Bool.eq_false_iff.mpr fun hdigit => ?_
        rcases Bool.or_eq_true _ _ ▸ hdigit with hdigit | hline
        · rw [isWordChar_of_isDigit hdigit] at hword
          cases hword
        · rw [beq_iff_eq] at hline
          subst hline
          exact absurd hword (by decide)
      simp [hd]
  have hword : wordPart (c :: (tail ++ rest)) = (c :: tail, rest) :=
    wordPart_append (fun d hd => isWordChar_of_isDigit (hdigits d hd)) hrest
  have hfraction : fractional? (c :: (tail ++ rest)) = none := by
    unfold fractional?
    rw [hpart]
    dsimp only
    split
    · exact absurd rfl hpoint
    · rw [exponent?_eq_none hrest]
      rfl
  rw [numeral?, if_pos (hdigits c List.mem_cons_self), hfraction, hword]

/-- A number is cut off. -/
theorem cutsInto_digits {digits rest : List Char} (hne : digits ≠ [])
    (hdigits : ∀ d ∈ digits, d.isDigit = true) (hrest : EndsWord rest)
    (hpoint : rest.head? ≠ some '.') :
    CutsInto digits [.literal (String.ofList digits)] rest := by
  obtain ⟨c, tail, rfl⟩ := List.exists_cons_of_ne_nil hne
  have hdigit := hdigits c List.mem_cons_self
  have hrange : 48 ≤ c.toNat ∧ c.toNat ≤ 57 := by
    unfold Char.isDigit at hdigit
    simp only [ge_iff_le, Bool.and_eq_true, decide_eq_true_eq] at hdigit
    exact hdigit
  have hother : ∀ d : Char, (d.toNat < 48 ∨ 57 < d.toNat) → c ≠ d := by
    rintro d hd rfl
    omega
  have hgap : isGap c = false := by
    unfold isGap Text.isBlank
    simp
    omega
  have hquoted : quotedLiteral? (c :: (tail ++ rest)) = none := by
    have hquotes := hother '"' (by decide)
    have hb := hother 'b' (by decide)
    have hc := hother 'c' (by decide)
    have hr := hother 'r' (by decide)
    have hsingle := hother '\x27' (by decide)
    unfold quotedLiteral? character?
    split <;> simp_all
  have hends : rest.head?.any isWordStart = false := by
    cases rest with
    | nil => rfl
    | cons d rest =>
      have hd := (hrest d rfl).1
      simp [isWordStart, hd]
  have hliteral : literal? (c :: (tail ++ rest)) = some (c :: tail, rest) := by
    unfold literal?
    rw [hquoted, numeral?_digits hdigits hrest hpoint]
    simp [hends]
  refine ⟨1, Nat.le_add_left 1 _, fun bound => ?_⟩
  have hstep : step c (tail ++ rest) = ([⟨.literal (String.ofList (c :: tail)), false⟩], rest) := by
    unfold step
    rw [comment?_eq_none (hother '/' (by decide)), hliteral]
  rw [List.cons_append, cut, hgap, if_neg Bool.false_ne_true, hstep]
  rfl

/-- A raw identifier. -/
theorem Spells.rawIdent {name : String} (hname : Schema.isIdentifier name = true) :
    Spells ("r#" ++ name).toList [.word ("r#" ++ name)] := by
  obtain ⟨c, tail, htoList, hstart, htail⟩ := Schema.exists_of_isIdentifier hname
  obtain ⟨hident, hdigit⟩ := Schema.isIdentChar_of_isIdentStart hstart
  have hchars : ("r#" ++ name).toList = 'r' :: '#' :: c :: tail := by
    rw [String.toList_append, htoList]
    rfl
  intro rest hrest
  have hidents : ∀ d ∈ c :: tail, Schema.isIdentChar d = true :=
    List.forall_mem_cons.mpr ⟨hident, htail⟩
  have hall : ∀ d ∈ c :: tail, isWordChar d = true := fun d hd =>
    isWordChar_of_isIdentChar (hidents d hd)
  have hraw : rawText? ('#' :: c :: (tail ++ rest)) = none := by
    have hhash := ne_of_isIdentChar hident (show Schema.isIdentChar '#' = false by decide)
    have hquote := ne_of_isIdentChar hident (show Schema.isIdentChar '"' = false by decide)
    simp [rawText?, List.span, List.span.loop, hhash, hquote]
  have hliteral : literal? ('r' :: '#' :: c :: (tail ++ rest)) = none := by
    have hquoted : quotedLiteral? ('r' :: '#' :: c :: (tail ++ rest)) = none :=
      congrArg (withFront ['r']) hraw
    have hnumeral : numeral? ('r' :: '#' :: c :: (tail ++ rest)) = none := rfl
    unfold literal?
    rw [hquoted, hnumeral]
    rfl
  have hwordStart : isWordStart c = true := by
    unfold isWordStart
    rw [isWordChar_of_isIdentChar hident, hdigit]
    rfl
  have hpart : wordPart (c :: (tail ++ rest)) = (c :: tail, rest) := wordPart_append hall hrest
  have hword : word? ('r' :: '#' :: c :: (tail ++ rest)) =
      some ('r' :: '#' :: c :: tail, rest) := by
    rw [word?, if_pos hwordStart, hpart]
    rfl
  have hstep : step 'r' ('#' :: c :: (tail ++ rest)) =
      ([⟨.word (String.ofList ('r' :: '#' :: c :: tail)), false⟩], rest) := by
    unfold step
    rw [comment?_eq_none (by decide), hliteral, hword]
  refine ⟨1, by rw [hchars]; exact Nat.le_add_left 1 _, fun bound => ?_⟩
  rw [hchars, ← String.ofList_toList (s := "r#" ++ name), hchars]
  show (cut (bound + 1) ('r' :: '#' :: c :: (tail ++ rest))).map token = _
  rw [cut, show isGap 'r' = false by decide, if_neg Bool.false_ne_true, hstep]
  rfl

/-- A line comment goes on to the end of its line. -/
theorem lineComment_append {text : List Char} (hline : '\n' ∉ text) (rest : List Char) :
    lineComment (text ++ '\n' :: rest) =
      (if text.getLast? = some '\r' then text.dropLast else text, '\n' :: rest) := by
  have hall : ∀ c ∈ text, decide (c ≠ '\n') = true := fun c hc =>
    decide_eq_true fun heq => hline (heq ▸ hc)
  unfold lineComment
  rw [List.span_eq_takeWhile_dropWhile, List.takeWhile_append_of_pos hall,
    List.dropWhile_append_of_pos hall]
  simp

/-- A line that begins otherwise, with its end. -/
theorem head_append_ne {text : List Char} {c : Char} (h : ∀ d ∈ text.head?, d ≠ c) (hc : '\n' ≠ c)
    {rest : List Char} (other : List Char) : text ++ '\n' :: rest ≠ c :: other := by
  cases text with
  | nil => exact fun heq => hc (List.cons.inj heq).1
  | cons d text => exact fun heq => h d rfl (List.cons.inj heq).1

namespace Closed

/-- White space. -/
theorem gaps {text : List Char} (h : ∀ c ∈ text, isGap c = true) : Closed text [] := by
  induction text with
  | nil => exact nil
  | cons c text ih =>
    rw [List.forall_mem_cons] at h
    exact (gap h.1).append (ih h.2)

/-- A line with a comment. -/
theorem comment {text : List Char} (hfirst : ∀ c ∈ text.head?, c ≠ '/' ∧ c ≠ '!')
    (hline : '\n' ∉ text) : Closed ('/' :: '/' :: (text ++ ['\n'])) [] := by
  intro rest
  have hcomment : comment? ('/' :: '/' :: (text ++ '\n' :: rest)) = some ([], '\n' :: rest) := by
    rw [comment?, lineComment_append hline]
    · exact fun other => head_append_ne (fun c hc => (hfirst c hc).1) (by decide) ('/' :: other)
    · exact fun other => head_append_ne (fun c hc => (hfirst c hc).1) (by decide) other
    · exact fun other => head_append_ne (fun c hc => (hfirst c hc).2) (by decide) other
  refine ⟨2, by simp, fun bound => ?_⟩
  have hstep : step '/' ('/' :: (text ++ '\n' :: rest)) = ([], '\n' :: rest) := by
    unfold step
    rw [hcomment]
  have happend : '/' :: '/' :: (text ++ ['\n']) ++ rest = '/' :: '/' :: (text ++ '\n' :: rest) := by
    simp
  rw [happend, cut, show isGap '/' = false by decide, if_neg Bool.false_ne_true, hstep]
  dsimp only
  rw [List.nil_append, cut_gap (by decide)]
  rfl

/-- A line with documentation is an attribute. -/
theorem documentation {text : List Char} (hfirst : ∀ c ∈ text.head?, c ≠ '/')
    (hline : '\n' ∉ text) (hlast : text.getLast? ≠ some '\r') :
    Closed ('/' :: '/' :: '/' :: (text ++ ['\n']))
      (.mark '#' :: bracketed [.word "doc", .mark '=', literalOf (String.ofList text)]) := by
  intro rest
  have hcomment : comment? ('/' :: '/' :: '/' :: (text ++ '\n' :: rest)) =
      some (Lexeme.documentation false text, '\n' :: rest) := by
    rw [comment?, lineComment_append hline, if_neg hlast]
    · rfl
    · exact fun other => head_append_ne hfirst (by decide) other
  refine ⟨2, by simp, fun bound => ?_⟩
  have hstep : step '/' ('/' :: '/' :: (text ++ '\n' :: rest)) =
      (Lexeme.documentation false text, '\n' :: rest) := by
    unfold step
    rw [hcomment]
  have happend : '/' :: '/' :: '/' :: (text ++ ['\n']) ++ rest =
      '/' :: '/' :: '/' :: (text ++ '\n' :: rest) := by simp
  rw [happend, cut, show isGap '/' = false by decide, if_neg Bool.false_ne_true, hstep]
  dsimp only
  rw [cut_gap (by decide), List.map_append]
  rfl

end Closed

/-! ## 4. Plain text -/

/-- Whether a word may end in front of a text; a closed one may not end in a word. -/
def wordMayEnd (isClosed : Bool) : List Char → Bool
  | [] => !isClosed
  | c :: _ => !(isWordChar c || ['#', '"', '\x27'].contains c)

/-- The tokens of plain text: names, marks and blanks. -/
def plain? (isClosed : Bool) : (bound : Nat) → List Char → Option (List Token)
  | _, [] => some []
  | 0, _ :: _ => none
  | bound + 1, c :: rest =>
    if isGap c then plain? isClosed bound rest
    else if Schema.isIdentStart c then
      let (tail, rest) := rest.span Schema.isIdentChar
      if wordMayEnd isClosed rest then
        (plain? isClosed bound rest).map (.word (String.ofList (c :: tail)) :: ·)
      else none
    else if plainMarks.contains c then (plain? isClosed bound rest).map (.mark c :: ·)
    else none

/-- Plain text is cut into its tokens, whatever is behind it, if it is closed. -/
theorem cutsInto_plain {isClosed : Bool} {bound : Nat} (h : plain? isClosed bound text = some tokens)
    {rest : List Char} (hrest : isClosed = false → EndsWord rest) : CutsInto text tokens rest := by
  induction bound generalizing text tokens with
  | zero =>
    cases text with
    | nil =>
      cases h
      exact ⟨0, Nat.le_refl 0, fun _ => rfl⟩
    | cons c text => cases h
  | succ bound ih =>
    cases text with
    | nil =>
      cases h
      exact ⟨0, Nat.le_refl 0, fun _ => rfl⟩
    | cons c text =>
      rw [plain?] at h
      split at h
      · next hgap => exact (Closed.gap hgap _).append (ih h)
      · split at h
        · next hstart =>
          rw [List.span_eq_takeWhile_dropWhile] at h
          dsimp only at h
          split at h
          · next hmay =>
            obtain ⟨others, hothers, rfl⟩ := Option.map_eq_some_iff.mp h
            have hends : EndsWord (text.dropWhile Schema.isIdentChar ++ rest) := by
              cases hdrop : text.dropWhile Schema.isIdentChar with
              | nil =>
                rw [hdrop] at hmay
                exact hrest (by simpa [wordMayEnd] using hmay)
              | cons d more =>
                rw [hdrop] at hmay
                rintro e ⟨⟩
                simpa [wordMayEnd] using hmay
            have htail : ∀ d ∈ text.takeWhile Schema.isIdentChar, Schema.isIdentChar d = true :=
              fun d hd => List.mem_takeWhile_imp hd
            have hword := (Spells.word hstart htail _ hends).append (ih hothers)
            rwa [List.cons_append, List.takeWhile_append_dropWhile] at hword
          · cases h
        · split at h
          · next hmark =>
            obtain ⟨others, hothers, rfl⟩ := Option.map_eq_some_iff.mp h
            exact (Closed.mark (List.contains_iff_mem.mp hmark) _).append (ih hothers)
          · cases h

/-- Closed plain text; its characters are those of a literal. -/
theorem Closed.plain (h : plain? true text.length text = some tokens) :
    Closed (String.ofList text).toList tokens := by
  rw [String.toList_ofList]
  exact fun _ => cutsInto_plain h fun hopen => nomatch hopen

/-- Plain text. -/
theorem Spells.plain (h : plain? false text.length text = some tokens) :
    Spells (String.ofList text).toList tokens := by
  rw [String.toList_ofList]
  exact fun _ hrest => cutsInto_plain h fun _ => hrest

/-- The tokens of plain text, by the simpler reading. -/
theorem src_plain (h : (plain? false text.length text).isSome = true) :
    src (String.ofList text) = (plain? false text.length text).get h :=
  (Spells.plain (Option.some_get h).symm).src_eq

end Wireform.Derive.Lexeme
