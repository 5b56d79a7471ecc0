/-!
# Little-endian numbers

A number of fixed width is written low byte first.  `littleEndian w n` is the `w`-byte form of the
natural number `n` modulo `256 ^ w`, and `ofLittleEndian` reads the number back from its bytes.
An `IntFormat` says in addition whether the top bit counts negatively; `IntFormat.wrap` takes any
integer to the one that the format's bytes stand for.
-/
namespace Wireform

/-- The low `width` bytes of `n`, lowest first. -/
def littleEndian : (width n : Nat) → List UInt8
  | 0, _ => []
  | width + 1, n => UInt8.ofNat n :: littleEndian width (n / 256)

/-- The number whose bytes, lowest first, are given. -/
def ofLittleEndian : List UInt8 → Nat
  | [] => 0
  | b :: rest => b.toNat + 256 * ofLittleEndian rest

theorem length_littleEndian (width n : Nat) : (littleEndian width n).length = width := by
  induction width generalizing n with
  | zero => rfl
  | succ width ih => simp [littleEndian, ih]

theorem ofLittleEndian_littleEndian (width n : Nat) :
    ofLittleEndian (littleEndian width n) = n % Nat.pow 256 width := by
  induction width generalizing n with
  | zero => simp [littleEndian, ofLittleEndian, Nat.mod_one]
  | succ width ih =>
    simp only [littleEndian, ofLittleEndian, ih, UInt8.toNat_ofNat']
    have hsplit : Nat.pow 256 (width + 1) = 256 * Nat.pow 256 width := Nat.pow_succ'
    rw [hsplit, Nat.mod_mul]

theorem ofLittleEndian_lt (bytes : List UInt8) :
    ofLittleEndian bytes < Nat.pow 256 bytes.length := by
  induction bytes with
  | nil => simp [ofLittleEndian]
  | cons b rest ih =>
    have hb : b.toNat < 256 := b.toNat_lt
    have hsplit : Nat.pow 256 (rest.length + 1) = Nat.pow 256 rest.length * 256 := rfl
    simp only [ofLittleEndian, List.length_cons, hsplit]
    omega

/-- An integer of fixed width: how many bytes it takes, and whether it has a sign. -/
structure IntFormat where
  width : Nat
  signed : Bool
  deriving DecidableEq, Repr

namespace IntFormat

/-- How many integers the format tells apart. -/
def modulus (format : IntFormat) : Nat := Nat.pow 256 format.width

/-- The least integer of the format. -/
def least (format : IntFormat) : Int :=
  if format.signed then -(format.modulus / 2 : Nat) else 0

/-- The greatest integer of the format. -/
def greatest (format : IntFormat) : Int :=
  if format.signed then (format.modulus / 2 : Nat) - 1 else format.modulus - 1

/-- Whether the format holds `n` unchanged. -/
def contains (format : IntFormat) (n : Int) : Bool :=
  format.least ≤ n && n ≤ format.greatest

/-- The integer of the format that agrees with `n` modulo the format's modulus. -/
def wrap (format : IntFormat) (n : Int) : Int :=
  if format.signed then n.bmod format.modulus else n % format.modulus

/-- The bytes of `n`, lowest first. -/
def encode (format : IntFormat) (n : Int) : List UInt8 :=
  littleEndian format.width (n % format.modulus).toNat

/-- The integer that the bytes stand for. -/
def decode (format : IntFormat) (bytes : List UInt8) : Int :=
  format.wrap (ofLittleEndian bytes)

theorem length_encode (format : IntFormat) (n : Int) :
    (format.encode n).length = format.width :=
  length_littleEndian _ _

def u8 : IntFormat := ⟨1, false⟩
def i8 : IntFormat := ⟨1, true⟩
def u16 : IntFormat := ⟨2, false⟩
def i16 : IntFormat := ⟨2, true⟩
def u32 : IntFormat := ⟨4, false⟩
def i32 : IntFormat := ⟨4, true⟩
def u64 : IntFormat := ⟨8, false⟩
def i64 : IntFormat := ⟨8, true⟩
def u128 : IntFormat := ⟨16, false⟩
def i128 : IntFormat := ⟨16, true⟩

end IntFormat

end Wireform
