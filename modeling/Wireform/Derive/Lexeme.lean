import Wireform.Derive.Token
import Wireform.Text.Blank

/-!
# Cutting source text into tokens

`Lexeme.ofText` goes through a text from left to right.  Between tokens it passes over white space
and comments; a documentation comment is an attribute that holds its text.  Of the forms that a
token can take, a literal comes before a mark and a mark before a word, so that a letter in front of
a quote belongs to the literal, and a character between quotes is no lifetime.

A mark is *joint* when another mark follows without a gap; `::` and `->` are two joint marks.
Every character that is part of no other token is a mark of its own, so every text has tokens.
-/
namespace Wireform.Derive

/-- A token of source text; `joint` if it is a mark that goes on with the next one. -/
structure Lexeme where
  token : Token
  joint : Bool
  deriving DecidableEq, Repr

namespace Lexeme

/-! ## 1. Characters -/

/-- Whether a character separates tokens: white space, or a mark of writing direction. -/
def isGap (c : Char) : Bool := Text.isBlank c || c.toNat == 0x200E || c.toNat == 0x200F

/-- Whether a character can be part of a word. -/
def isWordChar (c : Char) : Bool := c.isAlphanum || c == '_' || (127 < c.toNat && !isGap c)

/-- Whether a character can begin a word. -/
def isWordStart (c : Char) : Bool := isWordChar c && !c.isDigit

/-- Whether a character is punctuation. -/
def isPunctuation (c : Char) : Bool := "~!@#$%^&*-=+|;:,<.>/?\x27".toList.contains c

/-- Whether punctuation is in front of a text; the start of a comment is none. -/
def startsWithMark : List Char → Bool
  | '/' :: '/' :: _ => false
  | '/' :: '*' :: _ => false
  | c :: _ => isPunctuation c
  | [] => false

/-- The characters in front that go into a word, and what is left. -/
def wordPart (characters : List Char) : List Char × List Char := characters.span isWordChar

/-! ## 2. Comments -/

/-- The attribute that a documentation comment stands for; `isInner` if it belongs to what is around
it, and not to what follows. -/
def documentation (isInner : Bool) (content : List Char) : List Lexeme :=
  let entry := bracketed [.word "doc", .mark '=', literalOf (String.ofList content)]
  (.mark '#' :: (if isInner then .mark '!' :: entry else entry)).map fun token =>
    ⟨token, false⟩

/-- The content of a block comment inside of `depth` others, and what is behind its end. -/
def blockComment : (depth : Nat) → List Char → List Char × List Char
  | _, [] => ([], [])
  | depth, '/' :: '*' :: rest =>
    let (content, rest) := blockComment (depth + 1) rest
    ('/' :: '*' :: content, rest)
  | 0, '*' :: '/' :: rest => ([], rest)
  | depth + 1, '*' :: '/' :: rest =>
    let (content, rest) := blockComment depth rest
    ('*' :: '/' :: content, rest)
  | depth, c :: rest =>
    let (content, rest) := blockComment depth rest
    (c :: content, rest)

/-- The content of a line comment, and the rest from the end of the line on. -/
def lineComment (characters : List Char) : List Char × List Char :=
  let (content, rest) := characters.span (· ≠ '\n')
  (if content.getLast? = some '\r' then content.dropLast else content, rest)

/-- A comment in front, as the lexemes that it stands for. -/
def comment? : List Char → Option (List Lexeme × List Char)
  | '/' :: '/' :: '/' :: '/' :: rest => some ([], (lineComment rest).2)
  | '/' :: '/' :: '/' :: rest => some ((lineComment rest).map (documentation false) id)
  | '/' :: '/' :: '!' :: rest => some ((lineComment rest).map (documentation true) id)
  | '/' :: '/' :: rest => some ([], (lineComment rest).2)
  | '/' :: '*' :: '*' :: '*' :: rest => some ([], (blockComment 0 ('*' :: '*' :: rest)).2)
  | '/' :: '*' :: '*' :: '/' :: rest => some ([], rest)
  | '/' :: '*' :: '*' :: rest => some ((blockComment 0 rest).map (documentation false) id)
  | '/' :: '*' :: '!' :: rest => some ((blockComment 0 rest).map (documentation true) id)
  | '/' :: '*' :: rest => some ([], (blockComment 0 rest).2)
  | _ => none

/-! ## 3. Literals -/

/-- The characters of a token so far, with more of them in front. -/
def withFront (front : List Char) : Option (List Char × List Char) → Option (List Char × List Char)
  | some (found, rest) => some (front ++ found, rest)
  | none => none

/-- The characters up to a closing quote, which is the last of them; a character behind a backslash
closes nothing. -/
def quotedBody (quote : Char) : List Char → Option (List Char × List Char)
  | [] => none
  | '\\' :: c :: rest => withFront ['\\', c] (quotedBody quote rest)
  | c :: rest => if c = quote then some ([c], rest) else withFront [c] (quotedBody quote rest)

/-- The characters up to a double quote with a number of hash marks behind it. -/
def rawBody (hashes : List Char) : List Char → Option (List Char × List Char)
  | [] => none
  | c :: rest =>
    if c = '"' && hashes.isPrefixOf rest then some (c :: hashes, rest.drop hashes.length)
    else withFront [c] (rawBody hashes rest)

/-- A text without escapes, from the hash marks in front of it on. -/
def rawText? (characters : List Char) : Option (List Char × List Char) :=
  match characters.span (· = '#') with
  | (hashes, '"' :: rest) => withFront (hashes ++ ['"']) (rawBody hashes rest)
  | _ => none

/-- A character literal, from its opening quote on. -/
def character? : List Char → Option (List Char × List Char)
  | '\x27' :: '\\' :: c :: rest => withFront ['\x27', '\\', c] (quotedBody '\x27' rest)
  | '\x27' :: c :: '\x27' :: rest => some (['\x27', c, '\x27'], rest)
  | _ => none

/-- A quoted literal with the letters in front of it that say which sort it is. -/
def quotedLiteral? : List Char → Option (List Char × List Char)
  | '"' :: rest => withFront ['"'] (quotedBody '"' rest)
  | 'b' :: '"' :: rest => withFront ['b', '"'] (quotedBody '"' rest)
  | 'c' :: '"' :: rest => withFront ['c', '"'] (quotedBody '"' rest)
  | 'r' :: rest => withFront ['r'] (rawText? rest)
  | 'b' :: 'r' :: rest => withFront ['b', 'r'] (rawText? rest)
  | 'c' :: 'r' :: rest => withFront ['c', 'r'] (rawText? rest)
  | 'b' :: '\x27' :: rest => withFront ['b'] (character? ('\x27' :: rest))
  | characters => character? characters

/-- Whether a character belongs to the digits of a decimal numeral. -/
def isDigitPart (c : Char) : Bool := c.isDigit || c == '_'

/-- The digits in front, with the underscores among them. -/
def digitPart (characters : List Char) : List Char × List Char := characters.span isDigitPart

/-- An exponent from its letter on: a sign or none, and digits, of which there is one. -/
def exponent? : List Char → Option (List Char × List Char)
  | [] => none
  | letter :: rest =>
    let (gap, rest) := rest.span (· = '_')
    let (sign, rest) :=
      match rest with
      | '+' :: rest => (['+'], rest)
      | '-' :: rest => (['-'], rest)
      | rest => ([], rest)
    let (places, rest) := digitPart rest
    if (letter == 'e' || letter == 'E') && places.any Char.isDigit then
      some (letter :: gap ++ sign ++ places, rest)
    else none

/-- A numeral with a fraction or an exponent.  A point in front of a second point or of a word does
not belong to a numeral. -/
def fractional? (characters : List Char) : Option (List Char × List Char) :=
  let (whole, rest) := digitPart characters
  match rest with
  | '.' :: behind =>
    if behind.head?.any fun c => c == '.' || isWordStart c then none
    else
      let (places, rest) := digitPart behind
      match exponent? rest with
      | some (power, rest) => some (whole ++ '.' :: places ++ power, rest)
      | none => some (whole ++ '.' :: places, rest)
  | rest => withFront whole (exponent? rest)

/-- A numeral: with a fraction or an exponent, or else all that can be part of a word. -/
def numeral? : List Char → Option (List Char × List Char)
  | [] => none
  | c :: rest =>
    if c.isDigit then
      match fractional? (c :: rest) with
      | some found => some found
      | none => some (wordPart (c :: rest))
    else none

/-- A literal in front, with the suffix that directly follows it, if there is one. -/
def literal? (characters : List Char) : Option (List Char × List Char) := do
  let (found, rest) ← quotedLiteral? characters <|> numeral? characters
  if rest.head?.any isWordStart then
    let (suffix, rest) := wordPart rest
    return (found ++ suffix, rest)
  else return (found, rest)

/-! ## 4. Tokens -/

/-- A word in front. -/
def word? : List Char → Option (List Char × List Char)
  | 'r' :: '#' :: c :: rest =>
    if isWordStart c then withFront ['r', '#'] (some (wordPart (c :: rest)))
    else some (wordPart ('r' :: '#' :: c :: rest))
  | c :: rest => if isWordStart c then some (wordPart (c :: rest)) else none
  | [] => none

/-- The lexemes that begin with a character, and what is left; `c` is not part of a gap. -/
def step (c : Char) (rest : List Char) : List Lexeme × List Char :=
  match comment? (c :: rest) with
  | some (lexemes, rest) => (lexemes, rest)
  | none =>
    match literal? (c :: rest) with
    | some (found, rest) => ([⟨.literal (String.ofList found), false⟩], rest)
    | none =>
      match word? (c :: rest) with
      | some (found, rest) => ([⟨.word (String.ofList found), false⟩], rest)
      | none => ([⟨.mark c, isPunctuation c && (c == '\x27' || startsWithMark rest)⟩], rest)

/-- The lexemes of a text of at most `bound` characters: each turn passes over at least one. -/
def cut : (bound : Nat) → List Char → List Lexeme
  | 0, _ => []
  | _ + 1, [] => []
  | bound + 1, c :: rest =>
    if isGap c then cut bound rest
    else
      let (lexemes, rest) := step c rest
      lexemes ++ cut bound rest

/-- The lexemes of source text. -/
def ofText (source : String) : List Lexeme := cut source.length source.toList

end Lexeme

/-- The tokens of source text. -/
def src (source : String) : List Token := (Lexeme.ofText source).map Lexeme.token

end Wireform.Derive
