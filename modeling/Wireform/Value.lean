import Wireform.Codec.Scalar

/-!
# Dynamic values

A value of any type that a codec can be built for.  A number is the integer that its type stands
for (a duration or an instant its nanoseconds); floating-point numbers and identifiers are their
bit patterns.  A variant of an enumeration is its discriminant, and the fields of a record are in
the order of their declaration, skipped ones included.

`Value.compare` is the order of map keys: numbers, truth values and characters by value, texts by
their bytes, variants by discriminant, optional values with null first, and composite values
lexicographically.
-/
namespace Wireform

/-- A value of some type. -/
inductive Value where
  | int (n : Int)
  | bits (n : Nat)
  | bool (b : Bool)
  | char (c : Char)
  | text (s : String)
  | decimal (d : Decimal)
  | variant (discriminant : Int)
  | null
  | present (value : Value)
  | list (items : List Value)
  | entries (items : List (Value × Value))
  | record (fields : List Value)
  deriving Repr, BEq, Inhabited

namespace Value

/-- The place of a value's case among the cases; values of one type are all of one case, or null
and present ones. -/
def caseRank : Value → Nat
  | .null => 0
  | .present _ => 1
  | .int _ => 2
  | .bits _ => 3
  | .bool _ => 4
  | .char _ => 5
  | .text _ => 6
  | .decimal _ => 7
  | .variant _ => 8
  | .list _ => 9
  | .entries _ => 10
  | .record _ => 11

/-- Whether a value is the null of an optional type. -/
def isNull : Value → Bool
  | .null => true
  | _ => false

/-- The signed mantissa of a decimal brought to 28 places, by which decimals are ordered. -/
def decimalKey (d : Decimal) : Int :=
  let magnitude := d.mantissa * Nat.pow 10 (28 - d.scale)
  if d.negative then -(magnitude : Int) else magnitude

mutual

/-- The order of values of one type. -/
def compare : Value → Value → Ordering
  | .present a, .present b => compare a b
  | .int a, .int b => Ord.compare a b
  | .bits a, .bits b => Ord.compare a b
  | .bool a, .bool b => Ord.compare a b
  | .char a, .char b => Ord.compare a b
  | .text a, .text b => Ord.compare a b
  | .decimal a, .decimal b => Ord.compare (decimalKey a) (decimalKey b)
  | .variant a, .variant b => Ord.compare a b
  | .list a, .list b => compareLists a b
  | .record a, .record b => compareLists a b
  | .entries a, .entries b => compareEntries a b
  | a, b => Ord.compare a.caseRank b.caseRank

/-- The lexicographic order of lists of values. -/
def compareLists : List Value → List Value → Ordering
  | [], [] => .eq
  | [], _ :: _ => .lt
  | _ :: _, [] => .gt
  | a :: as, b :: bs => (compare a b).then (compareLists as bs)

/-- The lexicographic order of lists of entries. -/
def compareEntries : List (Value × Value) → List (Value × Value) → Ordering
  | [], [] => .eq
  | [], _ :: _ => .lt
  | _ :: _, [] => .gt
  | (k, v) :: as, (k', v') :: bs =>
    ((compare k k').then (compare v v')).then (compareEntries as bs)

end

instance : Ord Value := ⟨compare⟩

mutual

/-- How deep a value is nested; a value without parts is one deep. -/
def height : Value → Nat
  | .present value => value.height + 1
  | .list items => heightOfItems items + 1
  | .entries items => heightOfEntries items + 1
  | .record fields => heightOfItems fields + 1
  | _ => 1

/-- The height of the highest of some values. -/
def heightOfItems : List Value → Nat
  | [] => 0
  | item :: rest => max item.height (heightOfItems rest)

/-- The height of the highest key or value of some entries. -/
def heightOfEntries : List (Value × Value) → Nat
  | [] => 0
  | (key, value) :: rest => max (max key.height value.height) (heightOfEntries rest)

end

/-- The height of what a slot holds; an empty one counts as a value without parts. -/
def slotHeight : Option Value → Nat
  | none => 1
  | some value => value.height

/-! ## The cases that codecs are built for -/

/-- Integers. -/
def intCase : Case Int Value where
  wrap := .int
  get? | .int n => some n | _ => none
  get?_wrap _ := rfl
  wrap_of_get? {b a} h := by cases b <;> simp_all

/-- Natural numbers, as integers. -/
def natCase : Case Nat Value where
  wrap n := .int n
  get? | .int (.ofNat n) => some n | _ => none
  get?_wrap _ := rfl
  wrap_of_get? {b a} h := by
    cases b with
    | int n => cases n <;> simp_all
    | _ => simp_all

/-- Bit patterns. -/
def bitsCase : Case Nat Value where
  wrap := .bits
  get? | .bits n => some n | _ => none
  get?_wrap _ := rfl
  wrap_of_get? {b a} h := by cases b <;> simp_all

/-- Truth values. -/
def boolCase : Case Bool Value where
  wrap := .bool
  get? | .bool b => some b | _ => none
  get?_wrap _ := rfl
  wrap_of_get? {b a} h := by cases b <;> simp_all

/-- Characters. -/
def charCase : Case Char Value where
  wrap := .char
  get? | .char c => some c | _ => none
  get?_wrap _ := rfl
  wrap_of_get? {b a} h := by cases b <;> simp_all

/-- Texts. -/
def textCase : Case String Value where
  wrap := .text
  get? | .text s => some s | _ => none
  get?_wrap _ := rfl
  wrap_of_get? {b a} h := by cases b <;> simp_all

/-- Decimal numbers. -/
def decimalCase : Case Decimal Value where
  wrap := .decimal
  get? | .decimal d => some d | _ => none
  get?_wrap _ := rfl
  wrap_of_get? {b a} h := by cases b <;> simp_all

/-- Variants of an enumeration. -/
def variantCase : Case Int Value where
  wrap := .variant
  get? | .variant n => some n | _ => none
  get?_wrap _ := rfl
  wrap_of_get? {b a} h := by cases b <;> simp_all

/-- Optional values. -/
def optionCase : Case (Option Value) Value where
  wrap | none => .null | some v => .present v
  get? | .null => some none | .present v => some (some v) | _ => none
  get?_wrap a := by cases a <;> rfl
  wrap_of_get? {b a} h := by cases b <;> simp_all <;> subst h <;> rfl

/-- Sequences. -/
def listCase : Case (List Value) Value where
  wrap := .list
  get? | .list items => some items | _ => none
  get?_wrap _ := rfl
  wrap_of_get? {b a} h := by cases b <;> simp_all

/-- Maps. -/
def entriesCase : Case (List (Value × Value)) Value where
  wrap := .entries
  get? | .entries items => some items | _ => none
  get?_wrap _ := rfl
  wrap_of_get? {b a} h := by cases b <;> simp_all

/-- Records. -/
def recordCase : Case (List Value) Value where
  wrap := .record
  get? | .record fields => some fields | _ => none
  get?_wrap _ := rfl
  wrap_of_get? {b a} h := by cases b <;> simp_all

end Value

end Wireform
