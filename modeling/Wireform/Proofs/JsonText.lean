import Mathlib.Data.List.TakeWhile
import Mathlib.Tactic.IntervalCases
import Wireform.Json.Scanner

/-!
# Written JSON is read back

`Json.scan` gives back the value whose written form it meets, if the numbers of the value are
integers of 64 bits and its arrays and objects are nested no deeper than the scanner goes (`Fits`,
`reads_compact`).

What a scanner does with a piece of text is said for every rest behind it (`Reads`), as long as the
rest cannot go on with a number: a number has no end of its own.  The loops over elements and members
are followed once, for any reader of an element (`elements_items`) and of a member
(`foldMembers_members`), failing readers among them.  So a caller with a reader of its own only has to
say what that reader makes of each part.
-/
namespace Wireform.Json

variable {α β σ : Type}

/-! ## 1. Steps of a scanner -/

@[simp] theorem bind_apply (scanner : Scanner α) (next : α → Scanner β) (input : List Char) :
    (scanner >>= next) input = (scanner input).bind fun found => next found.1 found.2 := rfl

@[simp] theorem pure_apply (a : α) (input : List Char) :
    (pure a : Scanner α) input = .ok (a, input) := rfl

@[simp] theorem get_apply (input : List Char) :
    (get : Scanner (List Char)) input = .ok (input, input) := rfl

@[simp] theorem set_apply (input input' : List Char) :
    (set input' : Scanner PUnit) input = .ok (⟨⟩, input') := rfl

@[simp] theorem throw_apply (fault : Fault) (input : List Char) :
    (throw fault : Scanner α) input = .error fault := rfl

@[simp] theorem map_apply (f : α → β) (scanner : Scanner α) (input : List Char) :
    (f <$> scanner) input = (scanner input).map fun found => (f found.1, found.2) := rfl

@[simp] theorem lift_apply (found : Except Fault α) (input : List Char) :
    (liftM found : Scanner α) input = found.map fun a => (a, input) := by
  cases found <;> rfl

@[simp] theorem advance_cons (c : Char) (input : List Char) :
    advance (c :: input) = .ok (⟨⟩, input) := rfl

theorem skipBlanks_cons {c : Char} (hc : isBlank c = false) (input : List Char) :
    skipBlanks (c :: input) = .ok (⟨⟩, c :: input) := by
  change Except.ok ((⟨⟩ : PUnit), (c :: input).dropWhile isBlank) = _
  rw [List.dropWhile_cons_of_neg (by simp [hc])]

@[simp] theorem next?_cons {c : Char} (hc : isBlank c = false) (input : List Char) :
    next? (c :: input) = .ok (some c, c :: input) := by
  simp [next?, skipBlanks_cons hc, Except.bind, Except.map]

theorem word_append (letters input : List Char) :
    word letters (letters ++ input) = .ok (⟨⟩, input) := by
  induction letters with
  | nil => rfl
  | cons c letters ih => simp [word, ih, Except.bind]

/-- The characters do not go on with a number. -/
def EndsNumber (rest : List Char) : Prop :=
  ∀ c ∈ rest.head?, c.isDigit = false ∧ c ≠ '.' ∧ c ≠ 'e' ∧ c ≠ 'E'

theorem endsNumber_nil : EndsNumber [] := by
  intro c hc
  cases hc

theorem endsNumber_of_mark {c : Char} (hc : c ∈ [',', ']', '\x7d']) (input : List Char) :
    EndsNumber (c :: input) := by
  rintro _ ⟨⟩
  simp only [List.mem_cons, List.not_mem_nil, or_false] at hc
  rcases hc with rfl | rfl | rfl <;> decide

/-- A scanner that meets the characters answers with the result, and stops behind them. -/
def Reads (scanner : Scanner α) (chars : List Char) (result : Except Fault α) : Prop :=
  ∀ rest, EndsNumber rest → scanner (chars ++ rest) = result.map fun value => (value, rest)

theorem Reads.map {scanner : Scanner α} {chars : List Char} {result : Except Fault α}
    (h : Reads scanner chars result) (f : α → β) :
    Reads (f <$> scanner) chars (result.map f) := by
  intro rest hrest
  rw [map_apply, h rest hrest]
  cases result <;> rfl

/-! ## 2. Text -/

theorem control_digits : ∀ n < 32,
    List.replicate (4 - (Text.hexDigits n).length) '0' ++ Text.hexDigits n
        = ['0', '0', Nat.digitChar (n / 16), Nat.digitChar (n % 16)]
      ∧ hexUnit? '0' '0' (Nat.digitChar (n / 16)) (Nat.digitChar (n % 16)) = some n := by
  decide

theorem textBody_control {c : Char} (hc : c < ' ') (input : List Char) :
    textBody .keep (['\\', 'u'] ++ List.replicate (4 - (Text.hexDigits c.toNat).length) '0'
        ++ Text.hexDigits c.toNat ++ input)
      = andChar c (textBody .keep input) := by
  have hlt : c.toNat < 32 := hc
  obtain ⟨hdigits, hunit⟩ := control_digits c.toNat hlt
  have hlow : isLowSurrogate c.toNat = false := by simp [isLowSurrogate]; omega
  have hhigh : isHighSurrogate c.toNat = false := by simp [isHighSurrogate]; omega
  -- Below 32 the first two of the four digits are zeros, and no surrogate is that small.
  rw [List.append_assoc ['\\', 'u'], hdigits]
  simp [textBody, hunit, hlow, hhigh]

/-- The form of a character is read as that character. -/
theorem textBody_escapeChar (c : Char) (input : List Char) :
    textBody .keep (escapeChar c ++ input) = andChar c (textBody .keep input) := by
  unfold escapeChar
  split_ifs with _ _ _ _ _ _ _ hcontrol
  · subst c; simp [textBody, shortEscape?]
  · subst c; simp [textBody, shortEscape?]
  · subst c; simp [textBody, shortEscape?]
  · subst c; simp [textBody, shortEscape?]
  · subst c; simp [textBody, shortEscape?]
  · subst c; simp [textBody, shortEscape?]
  · subst c; simp [textBody, shortEscape?]
  · exact textBody_control hcontrol input
  · rw [List.singleton_append, textBody]
    · rw [if_neg hcontrol]
    all_goals grind

theorem textBody_escaped (text rest : List Char) :
    textBody .keep (text.flatMap escapeChar ++ '"' :: rest) = .ok (text, rest) := by
  induction text with
  | nil => simp [textBody]
  | cons c text ih =>
    rw [List.flatMap_cons, List.append_assoc, textBody_escapeChar, ih]
    rfl

theorem toList_quoted (text : String) :
    (quoted text).toList = '"' :: (text.toList.flatMap escapeChar ++ ['"']) := by
  simp [quoted]

theorem scanText_quoted (text : String) (rest : List Char) :
    scanText .keep ('"' :: (text.toList.flatMap escapeChar ++ '"' :: rest)) = .ok (text, rest) := by
  simp [scanText, textBody_escaped, Except.bind, Except.map]

theorem reads_wantText (text : String) : Reads wantText (quoted text).toList (.ok text) := by
  intro rest _
  have hquote : isBlank '"' = false := by decide
  simp [wantText, toList_quoted, scanText_quoted, hquote, Except.bind, Except.map]

/-! ## 3. Numbers -/

/-- A written number starts with a zero only if it is zero. -/
theorem head?_toDigits {n : Nat} (hn : 0 < n) : (Nat.toDigits 10 n).head? ≠ some '0' := by
  induction n using Nat.strongRecOn with
  | ind n ih =>
    rcases Nat.lt_or_ge n 10 with hlt | hge
    · rw [Nat.toDigits_of_lt_base hlt]
      interval_cases n <;> decide
    · have hsplit := Nat.toDigits_append_toDigits (b := 10) (n := n / 10) (d := n % 10)
        (by decide) (by omega) (by omega)
      have hfront := ih (n / 10) (by omega) (by omega)
      rw [Nat.div_add_mod] at hsplit
      rw [← hsplit, List.head?_append]
      cases hdigits : Nat.toDigits 10 (n / 10) with
      | nil => exact absurd hdigits Nat.toDigits_ne_nil
      | cons c rest => simpa [hdigits] using hfront

theorem isDigit_of_mem_numeral {n : Nat} : ∀ c ∈ Nat.toDigits 10 n, c.isDigit = true :=
  fun _ hc => Nat.isDigit_of_mem_toDigits (by decide) (by decide) hc

theorem exists_digit_cons (n : Nat) :
    ∃ c front, Nat.toDigits 10 n = c :: front ∧ c.isDigit = true := by
  obtain ⟨c, front, hfront⟩ := List.exists_cons_of_ne_nil (Nat.toDigits_ne_nil (n := n) (b := 10))
  exact ⟨c, front, hfront, isDigit_of_mem_numeral c (hfront ▸ List.mem_cons_self)⟩

theorem digits_numeral (n : Nat) {rest : List Char} (hrest : EndsNumber rest) :
    digits (Nat.toDigits 10 n ++ rest) = .ok (Nat.toDigits 10 n, rest) := by
  have hnone : rest.takeWhile Char.isDigit = [] ∧ rest.dropWhile Char.isDigit = rest := by
    cases rest with
    | nil => exact ⟨rfl, rfl⟩
    | cons c rest => simp [(hrest c rfl).1]
  simp [digits, Except.bind, Except.map, List.takeWhile_append_of_pos isDigit_of_mem_numeral,
    List.dropWhile_append_of_pos isDigit_of_mem_numeral, hnone]

theorem wholeDigits_numeral (n : Nat) {rest : List Char} (hrest : EndsNumber rest) :
    wholeDigits .keep (Nat.toDigits 10 n ++ rest) = .ok (Nat.toDigits 10 n, rest) := by
  have hsome : someDigits .keep (Nat.toDigits 10 n ++ rest) = .ok (Nat.toDigits 10 n, rest) := by
    obtain ⟨c, front, hfront, hc⟩ := exists_digit_cons n
    rw [← digits_numeral n hrest]
    simp [someDigits, hfront, Except.bind, hc]
  have hzero : ¬((Nat.toDigits 10 n).head? = some '0' ∧ 1 < (Nat.toDigits 10 n).length) := by
    rintro ⟨hhead, hlength⟩
    rcases Nat.eq_zero_or_pos n with rfl | hn
    · exact absurd hlength (by decide)
    · exact head?_toDigits hn hhead
  simp [wholeDigits, hsome, Except.bind, hzero]

theorem fractionDigits_of_ends {rest : List Char} (hrest : EndsNumber rest) :
    fractionDigits .keep rest = .ok (none, rest) := by
  cases rest with
  | nil => rfl
  | cons c rest => simp [fractionDigits, Except.bind, (hrest c rfl).2.1]

theorem exponent_of_ends {rest : List Char} (hrest : EndsNumber rest) :
    exponent .keep rest = .ok (none, rest) := by
  cases rest with
  | nil => rfl
  | cons c rest => simp [exponent, Except.bind, (hrest c rfl).2.2]

theorem le_ofDigitChars (digits : List Char) (init : Nat) :
    init ≤ Nat.ofDigitChars 10 digits init := by
  induction digits generalizing init with
  | nil => exact Nat.le_refl _
  | cons c digits ih =>
    calc init ≤ 10 * init + (c.toNat - '0'.toNat) := by omega
      _ ≤ Nat.ofDigitChars 10 (c :: digits) init := ih _

/-- All digits of a number below the bound are collected. -/
theorem collect_of_lt {digits : List Char} {init : Nat}
    (h : Nat.ofDigitChars 10 digits init < Magnitude.significandBound) :
    Magnitude.collect init digits = (Nat.ofDigitChars 10 digits init, []) := by
  induction digits generalizing init with
  | nil => rfl
  | cons c digits ih =>
    have hnext : 10 * init + (c.toNat - '0'.toNat) < Magnitude.significandBound :=
      Nat.lt_of_le_of_lt (le_ofDigitChars digits _) h
    simp only [Magnitude.collect, if_pos hnext]
    exact ih h

theorem magnitude_numeral {n : Nat} (hn : n < Nat.pow 2 64) :
    Magnitude.ofDigits (Nat.toDigits 10 n) [] 0 = ⟨n, 0⟩ := by
  have hvalue : Nat.ofDigitChars 10 (Nat.toDigits 10 n) 0 = n :=
    Nat.ofDigitChars_toDigits (by decide) (by decide)
  have hcollect : Magnitude.collect 0 (Nat.toDigits 10 n) = (n, []) := by
    rw [collect_of_lt (by rw [hvalue]; exact hn), hvalue]
  simp [Magnitude.ofDigits, hcollect, Magnitude.collect]

theorem roundNearest_le (n : Nat) :
    Magnitude.roundNearest n ≤ n + Nat.pow 2 (n.log2 + 1 - Magnitude.precision) := by
  unfold Magnitude.roundNearest
  set unit := Nat.pow 2 (n.log2 + 1 - Magnitude.precision)
  have hbelow : n / unit * unit ≤ n := Nat.div_mul_le_self n unit
  simp only
  split
  · rw [Nat.add_mul, Nat.one_mul]
    exact Nat.add_le_add_right hbelow unit
  · exact Nat.le_add_right_of_le hbelow

theorem exceedsDouble_of_lt {n : Nat} (hn : n < Nat.pow 2 64) :
    (Magnitude.mk n 0).exceedsDouble = false := by
  have hone : Magnitude.roundNearest (Nat.pow 10 0) = 1 := by decide
  have hlog : n.log2 ≤ 63 := by
    rcases Nat.eq_zero_or_pos n with rfl | hpos
    · decide
    · exact Nat.lt_succ_iff.mp ((Nat.log2_lt (by omega)).mpr hn)
  have hround : Magnitude.roundNearest n < Magnitude.doubleBound := by
    calc Magnitude.roundNearest n
        ≤ n + Nat.pow 2 (n.log2 + 1 - Magnitude.precision) := roundNearest_le n
      _ ≤ Nat.pow 2 64 + Nat.pow 2 11 :=
          Nat.add_le_add (Nat.le_of_lt hn) (Nat.pow_le_pow_right (by decide) (by
            simp only [Magnitude.precision]; omega))
      _ < Magnitude.doubleBound := by decide +kernel
  simp only [Magnitude.exceedsDouble, Int.toNat_zero, hone, Nat.mul_one,
    decide_eq_false (Nat.not_le.mpr hround)]
  simp

/-- The characters in front of the digits of a number. -/
def signChars (negative : Bool) : List Char := if negative then ['-'] else []

theorem scanNumber_numeral (negative : Bool) {n : Nat} (hn : n < Nat.pow 2 64) :
    Reads (scanNumber .keep) (signChars negative ++ Nat.toDigits 10 n)
      (.ok (wholeNumber negative n)) := by
  intro rest hrest
  have hvalue : ofDigits (Nat.toDigits 10 n) = n :=
    Nat.ofDigitChars_toDigits (by decide) (by decide)
  have hexceeds : (Magnitude.ofDigits (Nat.toDigits 10 n) [] 0).exceedsDouble = false := by
    rw [magnitude_numeral hn, exceedsDouble_of_lt hn]
  rw [List.append_assoc]
  cases negative with
  | true =>
    simp [scanNumber, signChars, Except.bind, Except.map, wholeDigits_numeral n hrest,
      fractionDigits_of_ends hrest, exponent_of_ends hrest, hexceeds, hvalue]
  | false =>
    have hhead : (Nat.toDigits 10 n ++ rest).head? ≠ some '-' := by
      obtain ⟨c, front, hfront, hc⟩ := exists_digit_cons n
      rw [hfront]
      rintro ⟨⟩
      exact absurd hc (by decide)
    simp only [scanNumber, signChars, Bool.false_eq_true, if_false, List.nil_append, bind_apply,
      get_apply, Except.bind, hhead, decide_false]
    simp [wholeDigits_numeral n hrest, Except.map, fractionDigits_of_ends hrest,
      exponent_of_ends hrest, hexceeds, hvalue]

/-- Integers that a number with neither fraction nor exponent stands for. -/
def IsWord (n : Int) : Prop := -9223372036854775808 ≤ n ∧ n ≤ 18446744073709551615

theorem reads_integer {n : Int} (hword : IsWord n) :
    Reads (scanNumber .keep) (Number.integer n).compact.toList (.ok (.integer n)) := by
  obtain ⟨hlow, hhigh⟩ := hword
  have hhalf : Nat.pow 2 63 = 9223372036854775808 := rfl
  have hall : Nat.pow 2 64 = 18446744073709551616 := rfl
  cases n with
  | ofNat n =>
    have hn : n < Nat.pow 2 64 := by
      rw [hall]
      have hcast : (n : Int) ≤ 18446744073709551615 := hhigh
      omega
    have hread := scanNumber_numeral false hn
    rw [wholeNumber, if_neg Bool.false_ne_true, if_pos hn] at hread
    have hchars : (Number.integer (Int.ofNat n)).compact.toList
        = signChars false ++ Nat.toDigits 10 n := Nat.toList_repr
    rw [hchars]
    exact hread
  | negSucc n =>
    have hn : n + 1 < Nat.pow 2 64 := by rw [hall]; omega
    have hread := scanNumber_numeral true hn
    rw [wholeNumber, if_pos rfl, if_pos ⟨Nat.succ_pos n, by rw [hhalf]; omega⟩] at hread
    have hchars : (Number.integer (Int.negSucc n)).compact.toList
        = signChars true ++ Nat.toDigits 10 (n + 1) := by
      change ("-" ++ (n + 1).repr).toList = _
      rw [String.toList_append, Nat.toList_repr]
      rfl
    rw [hchars]
    exact hread

/-! ## 4. Sequences -/

/-- The characters start with one that is neither a blank nor the end of an array. -/
def Begins (chars : List Char) : Prop :=
  ∃ c rest, chars = c :: rest ∧ isBlank c = false ∧ c ≠ ']'

/-- The parts of a sequence with commas between them; one more stands in front unless the sequence
starts here. -/
def sequence (isFirst : Bool) : List (List Char) → List Char
  | [] => []
  | part :: parts => (if isFirst then [] else [',']) ++ part ++ sequence false parts

theorem intercalate_eq_sequence (parts : List (List Char)) :
    [','].intercalate parts = sequence true parts := by
  cases parts with
  | nil => rfl
  | cons part parts =>
    induction parts generalizing part with
    | nil => simp [sequence]
    | cons next parts ih =>
      rw [List.intercalate_cons_cons, ih]
      simp [sequence]

/-- Behind a part of a sequence stands a comma, or what ends the sequence. -/
theorem endsNumber_sequence (parts : List (List Char)) {c : Char} (hc : c ∈ [',', ']', '\x7d'])
    (rest : List Char) : EndsNumber (sequence false parts ++ c :: rest) := by
  cases parts with
  | nil => exact endsNumber_of_mark hc rest
  | cons part parts => exact endsNumber_of_mark (by decide) _

theorem moreElements_part (isFirst : Bool) {part : List Char} (hpart : Begins part)
    (rest : List Char) :
    moreElements isFirst ((if isFirst then [] else [',']) ++ part ++ rest)
      = .ok (true, part ++ rest) := by
  obtain ⟨c, chars, rfl, hblank, hmark⟩ := hpart
  have hcomma : isBlank ',' = false := by decide
  cases isFirst <;> simp [moreElements, hcomma, hblank, Except.bind]

/-- The elements of an array, up to its end, each as its reader has it. -/
theorem elements_items {element : Scanner α} (form : β → List Char) {result : β → Except Fault α}
    {items : List β} (hreads : ∀ item ∈ items, Reads element (form item) (result item))
    (hbegins : ∀ item ∈ items, Begins (form item)) {bound : Nat} (hbound : items.length < bound)
    (isFirst : Bool) (rest : List Char) :
    elements element bound isFirst (sequence isFirst (items.map form) ++ ']' :: rest)
      = (items.mapM result).map fun values => (values, ']' :: rest) := by
  induction items generalizing bound isFirst with
  | nil =>
    obtain ⟨bound, rfl⟩ := Nat.exists_eq_succ_of_ne_zero (Nat.ne_of_gt hbound)
    have hend : isBlank ']' = false := by decide
    simp [sequence, elements, moreElements, hend, Except.bind]
    rfl
  | cons item items ih =>
    obtain ⟨bound, rfl⟩ := Nat.exists_eq_succ_of_ne_zero (Nat.ne_of_gt (Nat.zero_lt_of_lt hbound))
    have hread := hreads item List.mem_cons_self _
      (endsNumber_sequence (items.map form) (by decide : ']' ∈ [',', ']', '\x7d']) rest)
    have hrest := ih (fun item hitem => hreads item (List.mem_cons_of_mem _ hitem))
      (fun item hitem => hbegins item (List.mem_cons_of_mem _ hitem))
      (Nat.lt_of_succ_lt_succ hbound) false
    rw [List.map_cons, sequence, List.append_assoc, elements, bind_apply,
      moreElements_part isFirst (hbegins item List.mem_cons_self)]
    simp only [Except.bind, if_true, bind_apply, hread, List.mapM_cons]
    cases result item with
    | error fault => rfl
    | ok value =>
      simp only [Except.map, hrest]
      cases items.mapM result <;> rfl

/-- A member of an object as it is written. -/
def memberChars (name : String) (value : List Char) : List Char :=
  (quoted name).toList ++ ':' :: value

theorem moreMembers_part (isFirst : Bool) (name : String) (rest : List Char) :
    moreMembers .keep isFirst
        ((if isFirst then [] else [',']) ++ (quoted name).toList ++ rest)
      = .ok (some name, rest) := by
  have hcomma : isBlank ',' = false := by decide
  have hquote : isBlank '"' = false := by decide
  rw [toList_quoted]
  cases isFirst <;> simp [moreMembers, scanText_quoted, hcomma, hquote, Except.bind, Except.map]

/-- The members of an object, up to its end; each changes the state as its reader has it. -/
theorem foldMembers_members (member : σ → String → Scanner σ) (name : β → String)
    (form : β → List Char) (step : σ → β → Except Fault σ) {entries : List β}
    (hreads : ∀ entry ∈ entries, ∀ state,
      Reads (member state (name entry)) (':' :: form entry) (step state entry))
    {bound : Nat} (hbound : entries.length < bound) (isFirst : Bool) (state : σ)
    (rest : List Char) :
    foldMembers .keep member bound isFirst state
        (sequence isFirst (entries.map fun entry => memberChars (name entry) (form entry))
          ++ '\x7d' :: rest)
      = (entries.foldlM step state).map fun state => (state, '\x7d' :: rest) := by
  induction entries generalizing bound isFirst state with
  | nil =>
    obtain ⟨bound, rfl⟩ := Nat.exists_eq_succ_of_ne_zero (Nat.ne_of_gt hbound)
    have hend : isBlank '\x7d' = false := by decide
    simp [sequence, foldMembers, moreMembers, hend, Except.bind]
    rfl
  | cons entry entries ih =>
    obtain ⟨bound, rfl⟩ := Nat.exists_eq_succ_of_ne_zero (Nat.ne_of_gt (Nat.zero_lt_of_lt hbound))
    have hread := hreads entry List.mem_cons_self state _ (endsNumber_sequence
      (entries.map fun entry => memberChars (name entry) (form entry))
      (by decide : '\x7d' ∈ [',', ']', '\x7d']) rest)
    have hrest := ih (fun entry hentry => hreads entry (List.mem_cons_of_mem _ hentry))
      (Nat.lt_of_succ_lt_succ hbound) false
    rw [List.map_cons, sequence, memberChars, ← List.append_assoc, List.append_assoc,
      List.append_assoc _ (':' :: form entry), foldMembers, bind_apply, moreMembers_part]
    simp only [Except.bind, bind_apply, hread, List.foldlM_cons]
    cases step state entry with
    | error fault => rfl
    | ok state => exact hrest state

/-- What stands behind the name of a member: a colon, and then its value. -/
theorem Reads.behindColon {scanner : Scanner α} {chars : List Char} {result : Except Fault α}
    (h : Reads scanner chars result) (next : α → β) :
    Reads (do colon; next <$> scanner) (':' :: chars) (result.map next) := by
  intro rest hrest
  have hcolon : colon (':' :: (chars ++ rest)) = .ok (⟨⟩, chars ++ rest) := by
    have hblank : isBlank ':' = false := by decide
    simp [colon, hblank, Except.bind]
  simp only [bind_apply, List.cons_append, hcolon, Except.bind]
  exact h.map next rest hrest

/-! ## 5. Values -/

/-- A value that is read back at a depth: its numbers are integers of 64 bits, and its arrays and
objects are nested at most `depth` deep. -/
inductive Fits : Nat → Json → Prop where
  | null {depth : Nat} : Fits depth .null
  | bool {depth : Nat} (b : Bool) : Fits depth (.bool b)
  | integer {depth : Nat} {n : Int} (hn : IsWord n) : Fits depth (.int n)
  | text {depth : Nat} (s : String) : Fits depth (.text s)
  | array {depth : Nat} {items : List Json} (hitems : ∀ item ∈ items, Fits depth item) :
    Fits (depth + 1) (.array items)
  | object {depth : Nat} {members : List (String × Json)}
    (hmembers : ∀ member ∈ members, Fits depth member.2) : Fits (depth + 1) (.object members)

theorem compactItems_eq_map (items : List Json) : compactItems items = items.map compact := by
  induction items with
  | nil => rfl
  | cons item items ih => rw [compactItems, ih, List.map_cons]

theorem compactMembers_eq_map (members : List (String × Json)) :
    compactMembers members
      = members.map fun member => quoted member.1 ++ ":" ++ compact member.2 := by
  induction members with
  | nil => rfl
  | cons member members ih => rw [compactMembers, ih, List.map_cons]

theorem toList_array (items : List Json) :
    (compact (.array items)).toList
      = '[' :: (sequence true (items.map fun item => item.compact.toList) ++ [']']) := by
  simp [compact, compactItems_eq_map, intercalate_eq_sequence, Function.comp_def]

theorem toList_object (members : List (String × Json)) :
    (compact (.object members)).toList
      = '\x7b' :: (sequence true (members.map fun member =>
          memberChars member.1 member.2.compact.toList) ++ ['\x7d']) := by
  simp [compact, compactMembers_eq_map, intercalate_eq_sequence, Function.comp_def, memberChars]

theorem length_le_of_mem_sequence (form : β → List Char) {item : β} {items : List β}
    (hitem : item ∈ items) (isFirst : Bool) :
    (form item).length ≤ (sequence isFirst (items.map form)).length := by
  induction items generalizing isFirst with
  | nil => cases hitem
  | cons head items ih =>
    simp only [List.map_cons, sequence, List.length_append]
    rcases List.mem_cons.mp hitem with rfl | hitem
    · omega
    · have := ih hitem false
      omega

/-- A sequence that goes on has a comma in front of each part. -/
theorem length_le_length_sequence (parts : List (List Char)) :
    parts.length ≤ (sequence false parts).length := by
  induction parts with
  | nil => exact Nat.le_refl 0
  | cons part parts ih =>
    simp [sequence]
    omega

theorem length_le_length_sequence_true (parts : List (List Char)) :
    parts.length ≤ (sequence true parts).length + 1 := by
  cases parts with
  | nil => exact Nat.zero_le _
  | cons part parts =>
    have := length_le_length_sequence parts
    simp [sequence]
    omega

/-- The text of an array is longer than it has elements, and not shorter than any of them. -/
theorem length_array (items : List Json) :
    items.length < (compact (.array items)).toList.length
      ∧ ∀ item ∈ items, item.compact.toList.length ≤ (compact (.array items)).toList.length := by
  rw [toList_array, List.length_cons, List.length_append]
  constructor
  · have hcount := length_le_length_sequence_true (items.map fun item => item.compact.toList)
    rw [List.length_map] at hcount
    exact Nat.lt_succ_of_le hcount
  · intro item hitem
    have hpart := length_le_of_mem_sequence (fun item => item.compact.toList) hitem true
    exact hpart.trans (Nat.le_add_right _ 2)

/-- The text of an object is longer than it has members, and not shorter than any of its values. -/
theorem length_object (members : List (String × Json)) :
    members.length < (compact (.object members)).toList.length
      ∧ ∀ member ∈ members,
        member.2.compact.toList.length ≤ (compact (.object members)).toList.length := by
  rw [toList_object, List.length_cons, List.length_append]
  constructor
  · have hcount := length_le_length_sequence_true
      (members.map fun member => memberChars member.1 member.2.compact.toList)
    rw [List.length_map] at hcount
    exact Nat.lt_succ_of_le hcount
  · intro member hmember
    have hvalue : member.2.compact.toList.length
        ≤ (memberChars member.1 member.2.compact.toList).length := by
      rw [memberChars, List.length_append, List.length_cons]
      omega
    have hpart := length_le_of_mem_sequence
      (fun member => memberChars member.1 member.2.compact.toList) hmember true
    exact (hvalue.trans hpart).trans (Nat.le_add_right _ 2)

/-- A number starts with its sign or a digit. -/
def StartsNumber (c : Char) : Prop := c = '-' ∨ c.isDigit = true

theorem StartsNumber.ne {c d : Char} (hc : StartsNumber c)
    (hd : d ∈ ['n', 't', 'f', '"', '[', '\x7b', ']', ' ', '\n', '\t', '\r']) : c ≠ d := by
  have hnone : (['n', 't', 'f', '"', '[', '\x7b', ']', ' ', '\n', '\t', '\r'].all
      fun d => d != '-' && !d.isDigit) = true := by decide
  have hmark := List.all_eq_true.mp hnone d hd
  rw [Bool.and_eq_true, bne_iff_ne, Bool.not_eq_true'] at hmark
  rintro rfl
  rcases hc with rfl | hc
  · exact hmark.1 rfl
  · exact absurd hc (by simp [hmark.2])

theorem StartsNumber.not_blank {c : Char} (hc : StartsNumber c) : isBlank c = false := by
  simp [isBlank, hc.ne]

theorem exists_integer_cons (n : Int) :
    ∃ c rest, (Number.integer n).compact.toList = c :: rest ∧ StartsNumber c := by
  cases n with
  | ofNat n =>
    obtain ⟨c, rest, hdigits, hc⟩ := exists_digit_cons n
    exact ⟨c, rest, Nat.toList_repr.trans hdigits, Or.inr hc⟩
  | negSucc n =>
    have hchars : (Number.integer (Int.negSucc n)).compact.toList = '-' :: (n + 1).repr.toList := by
      change ("-" ++ (n + 1).repr).toList = _
      rw [String.toList_append]
      rfl
    exact ⟨_, _, hchars, Or.inl rfl⟩

theorem Fits.begins {depth : Nat} {json : Json} (h : Fits depth json) :
    Begins json.compact.toList := by
  cases h with
  | null => exact ⟨_, _, rfl, by decide, by decide⟩
  | bool b => cases b <;> exact ⟨_, _, rfl, by decide, by decide⟩
  | integer hn =>
    obtain ⟨c, rest, hchars, hc⟩ := exists_integer_cons _
    exact ⟨c, rest, hchars, hc.not_blank, hc.ne (by decide)⟩
  | text s => exact ⟨_, _, toList_quoted s, by decide, by decide⟩
  | array _ => exact ⟨_, _, toList_array _, by decide, by decide⟩
  | object _ => exact ⟨_, _, toList_object _, by decide, by decide⟩

theorem scanWith_number {bound : Nat} {part? : Option (Scanner Json)} {c : Char}
    (hc : StartsNumber c) (input : List Char) :
    scanWith .keep bound part? (c :: input)
      = (Json.number <$> scanNumber .keep : Scanner Json) (c :: input) := by
  have hsign : c = '-' ∨ c.isDigit = true := hc
  cases part? <;> simp [scanWith, hc.not_blank, hc.ne, hsign, Except.bind]

theorem reads_scanWith_array {part : Scanner Json} {items : List Json} {bound : Nat}
    (hreads : ∀ item ∈ items, Reads part item.compact.toList (.ok item))
    (hbegins : ∀ item ∈ items, Begins item.compact.toList) (hbound : items.length < bound) :
    Reads (scanWith .keep bound (some part)) (compact (.array items)).toList
      (.ok (.array items)) := by
  intro rest _
  have hitems := elements_items (fun item => item.compact.toList) hreads hbegins hbound true rest
  have hall : items.mapM (fun item => (Except.ok item : Except Fault Json)) = .ok items := by
    change items.mapM (fun item => (pure item : Except Fault Json)) = pure items
    rw [List.mapM_pure, List.map_id']
  have hbracket : isBlank '[' = false := by decide
  simp [scanWith, toList_array, hbracket, hitems, Except.bind, Except.map, hall]

theorem reads_scanWith_object {part : Scanner Json} {members : List (String × Json)} {bound : Nat}
    (hreads : ∀ member ∈ members, Reads part member.2.compact.toList (.ok member.2))
    (hbound : members.length < bound) :
    Reads (scanWith .keep bound (some part)) (compact (.object members)).toList
      (.ok (.object members)) := by
  intro rest _
  have hmembers := foldMembers_members
    (fun members name => do colon; (fun value => (name, value) :: members) <$> part)
    Prod.fst (fun member => member.2.compact.toList) (fun found member => .ok (member :: found))
    (fun member hmember found =>
      (hreads member hmember).behindColon fun value => (member.1, value) :: found)
    hbound true [] rest
  have hall : members.foldlM (fun found member => (Except.ok (member :: found) : Except Fault _)) []
      = .ok members.reverse := by
    change members.foldlM (fun found member => (pure (member :: found) : Except Fault _)) []
      = pure members.reverse
    rw [List.foldlM_pure, List.foldl_flip_cons_eq_append]
    simp
  have hbracket : isBlank '\x7b' = false := by decide
  simp [scanWith, toList_object, hbracket, hmembers, hall, Except.bind, Except.map]

theorem reads_scanWith_word {bound : Nat} {part? : Option (Scanner Json)} :
    Reads (scanWith .keep bound part?) (compact .null).toList (.ok .null)
      ∧ ∀ b, Reads (scanWith .keep bound part?) (compact (.bool b)).toList (.ok (.bool b)) := by
  have hn : isBlank 'n' = false := by decide
  have ht : isBlank 't' = false := by decide
  have hf : isBlank 'f' = false := by decide
  constructor
  · intro rest _
    have hword := word_append ['n', 'u', 'l', 'l'] rest
    simp only [List.cons_append, List.nil_append] at hword
    cases part? <;> simp [scanWith, compact, hn, hword, Except.bind, Except.map]
  · rintro (_ | _) rest _
    · have hword := word_append ['f', 'a', 'l', 's', 'e'] rest
      simp only [List.cons_append, List.nil_append] at hword
      cases part? <;> simp [scanWith, compact, hf, hword, Except.bind, Except.map]
    · have hword := word_append ['t', 'r', 'u', 'e'] rest
      simp only [List.cons_append, List.nil_append] at hword
      cases part? <;> simp [scanWith, compact, ht, hword, Except.bind, Except.map]

theorem reads_scanWith_text {bound : Nat} {part? : Option (Scanner Json)} (s : String) :
    Reads (scanWith .keep bound part?) (compact (.text s)).toList (.ok (.text s)) := by
  intro rest _
  have hquote : isBlank '"' = false := by decide
  cases part? <;>
    simp [scanWith, compact, toList_quoted, scanText_quoted, hquote, Except.bind, Except.map]

theorem reads_scanWith_integer {bound : Nat} {part? : Option (Scanner Json)} {n : Int}
    (hn : IsWord n) :
    Reads (scanWith .keep bound part?) (compact (.int n)).toList (.ok (.int n)) := by
  intro rest hrest
  obtain ⟨c, front, hchars, hc⟩ := exists_integer_cons n
  have hread := (reads_integer hn).map Json.number rest hrest
  change scanWith .keep bound part? ((Number.integer n).compact.toList ++ rest) = _
  rw [hchars, List.cons_append] at hread ⊢
  rw [scanWith_number hc, hread]
  rfl

/-- A value is read back from its written form. -/
theorem reads_compact {depth : Nat} {json : Json} (hfits : Fits depth json) {bound : Nat}
    (hbound : json.compact.toList.length ≤ bound) :
    Reads (scan .keep bound depth) json.compact.toList (.ok json) := by
  have hscan : ∀ depth, ∃ part?, scan .keep bound depth = scanWith .keep bound part? := by
    intro depth
    cases depth with
    | zero => exact ⟨none, rfl⟩
    | succ depth => exact ⟨some (scan .keep bound depth), rfl⟩
  -- The induction is on the nesting; where no depth is left, only what has no parts can stand.
  induction hfits with
  | @null depth =>
    obtain ⟨part?, hpart⟩ := hscan depth
    rw [hpart]
    exact reads_scanWith_word.1
  | @bool depth b =>
    obtain ⟨part?, hpart⟩ := hscan depth
    rw [hpart]
    exact reads_scanWith_word.2 b
  | @integer depth n hn =>
    obtain ⟨part?, hpart⟩ := hscan depth
    rw [hpart]
    exact reads_scanWith_integer hn
  | @text depth s =>
    obtain ⟨part?, hpart⟩ := hscan depth
    rw [hpart]
    exact reads_scanWith_text s
  | array hitems ih =>
    obtain ⟨hcount, hlength⟩ := length_array _
    exact reads_scanWith_array
      (fun item hitem => ih item hitem ((hlength item hitem).trans hbound))
      (fun item hitem => (hitems item hitem).begins) (hcount.trans_le hbound)
  | object hmembers ih =>
    obtain ⟨hcount, hlength⟩ := length_object _
    exact reads_scanWith_object
      (fun member hmember => ih member hmember ((hlength member hmember).trans hbound))
      (hcount.trans_le hbound)

end Wireform.Json
