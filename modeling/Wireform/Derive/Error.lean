/-!
# Why an item is refused

The first problem of an item decides what is said about it.  Some of the wordings belong to the
reading of attributes, the others to what an item asks for.
-/
namespace Wireform.Derive

/-- Forms of types that have no encoding. -/
inductive TypeForm where
  | projection
  | nestedOption
  | assocArgument
  | reference
  | pointer
  | tuple
  | traitObject
  | function
  | slice
  | unrecognized
  deriving DecidableEq, Repr

/-- The derivations. -/
inductive Derivation where
  | encode
  | decode
  | schema
  deriving DecidableEq, Repr

/-- Why an item is refused. -/
inductive DeriveError where
  | unsupportedType (container member : String) (form : TypeForm)
  | tooManyNullable
  | unknownFieldAttribute
  | unknownContainerAttribute
  /-- Nothing where an entry of an attribute has to be. -/
  | missingEntry
  /-- A literal where an entry has to be. -/
  | literalEntry
  /-- Anything else that begins no entry. -/
  | foreignEntry
  /-- No word behind the colons in a path; `atEnd` if nothing is there. -/
  | expectedWord (atEnd : Bool)
  /-- Something other than a comma behind an entry. -/
  | expectedComma
  /-- A tag without a value. -/
  | expectedEquals
  /-- No integer where the tag has to be; `atEnd` if nothing is there. -/
  | expectedInteger (atEnd : Bool)
  /-- A tag with a sign. -/
  | invalidDigit
  | tagTooLarge
  | tagZero
  | noVariants
  | variantWithData (container variant : String)
  /-- Something other than a name in a list of widths. -/
  | expectedName
  | keywordName (keyword : String)
  | unsupportedRepr (name : String)
  | unionItem (derivation : Derivation)
  deriving DecidableEq, Repr

/-- What a form of types is called. -/
def TypeForm.message : TypeForm → String
  | .projection => "qualified paths"
  | .nestedOption => "\x60Option<Option<_>>\x60 cannot be told apart on the wire"
  | .assocArgument => "associated type arguments"
  | .reference => "references (use an owned type)"
  | .pointer => "raw pointers"
  | .tuple => "tuples (declare a struct)"
  | .traitObject => "trait objects"
  | .function => "function pointers"
  | .slice => "unsized slices (use \x60Vec<T>\x60 or \x60Box<[T]>\x60)"
  | .unrecognized => "unrecognized type"

/-- The name of a derivation. -/
def Derivation.name : Derivation → String
  | .encode => "Encode"
  | .decode => "Decode"
  | .schema => "Schema"

/-- The wording of what is expected; `atEnd` if nothing is there instead. -/
def expectation (atEnd : Bool) (what : String) : String :=
  (if atEnd then "unexpected end of input, expected " else "expected ") ++ what

/-- The wording of an error. -/
def DeriveError.message : DeriveError → String
  | .unsupportedType container member form =>
    s!"unsupported field type for {container}.{member}: " ++ form.message
  | .tooManyNullable => "too many nullable fields"
  | .unknownFieldAttribute => "unknown field attribute, expected \x60skip\x60"
  | .unknownContainerAttribute => "unknown container attribute, expected \x60tag\x60"
  | .missingEntry => expectation true "nested attribute"
  | .literalEntry => "unexpected literal in nested attribute, expected ident"
  | .foreignEntry => "unexpected token in nested attribute, expected ident"
  | .expectedWord atEnd => expectation atEnd "ident"
  | .expectedComma => expectation false "\x60,\x60"
  | .expectedEquals => expectation false "\x60=\x60"
  | .expectedInteger atEnd => expectation atEnd "integer literal"
  | .invalidDigit => "invalid digit found in string"
  | .tagTooLarge => "number too large to fit in target type"
  | .tagZero => "tag 0 is reserved for null values"
  | .noVariants => "enums without variants have no wire encoding"
  | .variantWithData container variant =>
    s!"{container}::{variant} carries data; only fieldless enums are supported"
  | .expectedName => expectation false "identifier"
  | .keywordName keyword => expectation false s!"identifier, found keyword \x60{keyword}\x60"
  | .unsupportedRepr name => s!"unsupported enum repr \x60{name}\x60"
  | .unionItem derivation => derivation.name ++ " cannot be derived for unions"

end Wireform.Derive
