/-!
# UTF-8, with the place and the extent of the first fault

A text is carried as the UTF-8 form of its characters.  `encode` writes that form and `decode`
reads it back; a byte string that is no UTF-8 is refused with a `Fault` that says where the
faulty sequence starts and whether it is wrong or merely unfinished.

* A lead byte fixes how many bytes its character takes, and the second byte is held to a
  narrower range after `E0`, `ED`, `F0` and `F4`, so overlong forms, surrogates and values
  beyond `10FFFF` are refused at that byte.
* A fault covers the bytes that are consistent with some character: one for a bad lead or a bad
  second byte, two or three when a later continuation byte is missing.
* A sequence cut short by the end of the input is *incomplete* rather than wrong.
-/
namespace Wireform.Utf8

/-- Why a byte string is no UTF-8 text. -/
inductive Fault where
  /-- The `count` bytes from `index` on begin no character. -/
  | malformed (count index : Nat)
  /-- The input ends inside the character that starts at `index`. -/
  | incomplete (index : Nat)
  deriving DecidableEq, Repr

/-- The wording of a fault. -/
def Fault.message : Fault → String
  | .malformed count index => s!"invalid utf-8 sequence of {count} bytes from index {index}"
  | .incomplete index => s!"incomplete utf-8 byte sequence from index {index}"

/-- The UTF-8 form of a text. -/
def encode (text : List Char) : List UInt8 :=
  text.flatMap String.utf8EncodeChar

/-- The form that a lead byte announces: how many bytes follow it, and the range of the first of
them. -/
inductive Lead where
  /-- A character of one byte. -/
  | single
  /-- `more` further bytes, the first of them between `low` and `high`. -/
  | multi (more low high : Nat)
  deriving DecidableEq, Repr

/-- Classifies a lead byte; `none` for a byte that starts no character. -/
def lead? (a : Nat) : Option Lead :=
  if a < 0x80 then some .single
  else if a < 0xC2 then none
  else if a < 0xE0 then some (.multi 1 0x80 0xBF)
  else if a = 0xE0 then some (.multi 2 0xA0 0xBF)
  else if a = 0xED then some (.multi 2 0x80 0x9F)
  else if a < 0xF0 then some (.multi 2 0x80 0xBF)
  else if a = 0xF0 then some (.multi 3 0x90 0xBF)
  else if a < 0xF4 then some (.multi 3 0x80 0xBF)
  else if a = 0xF4 then some (.multi 3 0x80 0x8F)
  else none

/-- Whether a byte carries six further bits of a character. -/
def isContinuation (b : Nat) : Bool := 0x80 ≤ b && b ≤ 0xBF

/-- Puts the low six bits of a continuation byte below the bits read so far. -/
def push (high b : Nat) : Nat := high * 64 + b % 64

/-- Reads the characters of `bytes`, the first of which stands at `index`. -/
def decodeFrom (index : Nat) : List UInt8 → Except Fault (List Char)
  | [] => .ok []
  | a :: rest =>
    match lead? a.toNat with
    | none => .error (.malformed 1 index)
    | some .single => do
      let text ← decodeFrom (index + 1) rest
      pure (Char.ofNat a.toNat :: text)
    | some (.multi more low high) =>
      match rest with
      | [] => .error (.incomplete index)
      | b :: rest =>
        if b.toNat < low ∨ high < b.toNat then .error (.malformed 1 index)
        else if more = 1 then do
          let text ← decodeFrom (index + 2) rest
          pure (Char.ofNat (push (a.toNat % 32) b.toNat) :: text)
        else
          match rest with
          | [] => .error (.incomplete index)
          | c :: rest =>
            if !isContinuation c.toNat then .error (.malformed 2 index)
            else if more = 2 then do
              let text ← decodeFrom (index + 3) rest
              pure (Char.ofNat (push (push (a.toNat % 16) b.toNat) c.toNat) :: text)
            else
              match rest with
              | [] => .error (.incomplete index)
              | d :: rest =>
                if !isContinuation d.toNat then .error (.malformed 3 index)
                else do
                  let text ← decodeFrom (index + 4) rest
                  pure (Char.ofNat
                    (push (push (push (a.toNat % 8) b.toNat) c.toNat) d.toNat) :: text)

/-- The text that `bytes` are the UTF-8 form of, or the first fault. -/
def decode (bytes : List UInt8) : Except Fault (List Char) :=
  decodeFrom 0 bytes

end Wireform.Utf8
