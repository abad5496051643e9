import CommentErasure.Text.Cut

/-!
# UTF-8

Byte strings and their reading as text.

* `Utf8.decodeLossy` reads any byte string, one byte at a time.  Each longest run of bytes that
  begins a character but does not complete it becomes one replacement character, and so does
  each byte that can begin none.
* `Utf8.decode?` reads the well-formed byte strings only: those that some text is written as.
  Lossy reading finds the one text that comes into question.
-/

namespace CommentErasure

abbrev Bytes := List UInt8

namespace Utf8

def encode (text : Text) : Bytes :=
  text.flatMap String.utf8EncodeChar

def replacement : Char := '\uFFFD'

/-- A character of which some bytes have been read: the bits so far, the range of the next byte,
and how many bytes follow that one. -/
structure Partial where
  value : Nat
  low : Nat
  high : Nat
  later : Nat
  deriving DecidableEq, Repr

inductive Lead where
  | single (char : Char)
  | opens (partialChar : Partial)
  | malformed
  deriving DecidableEq, Repr

/-- Classify the first byte of a character.  The range of the second byte leaves out overlong
forms, surrogates and values above the last code point. -/
def lead (byte : UInt8) : Lead :=
  let number := byte.toNat
  if number < 0x80 then .single (Char.ofNat number)
  else if number < 0xC2 then .malformed
  else if number < 0xE0 then .opens ⟨number - 0xC0, 0x80, 0xBF, 0⟩
  else if number = 0xE0 then .opens ⟨0, 0xA0, 0xBF, 1⟩
  else if number = 0xED then .opens ⟨0x0D, 0x80, 0x9F, 1⟩
  else if number < 0xF0 then .opens ⟨number - 0xE0, 0x80, 0xBF, 1⟩
  else if number = 0xF0 then .opens ⟨0, 0x90, 0xBF, 2⟩
  else if number < 0xF4 then .opens ⟨number - 0xF0, 0x80, 0xBF, 2⟩
  else if number = 0xF4 then .opens ⟨4, 0x80, 0x8F, 2⟩
  else .malformed

/-- How far a lossy reading has come: the characters read, the latest of them first, and the
character that is still incomplete. -/
structure Reading where
  chars : Text := []
  pending : Option Partial := none
  deriving DecidableEq, Repr

namespace Reading

def start (chars : Text) (byte : UInt8) : Reading :=
  match lead byte with
  | .single char => ⟨char :: chars, none⟩
  | .opens partialChar => ⟨chars, some partialChar⟩
  | .malformed => ⟨replacement :: chars, none⟩

/-- Read one byte.  A byte that does not continue an incomplete character ends it as malformed
and is read again as a beginning. -/
def next (reading : Reading) (byte : UInt8) : Reading :=
  match reading.pending with
  | none => start reading.chars byte
  | some ⟨value, low, high, later⟩ =>
      if low ≤ byte.toNat ∧ byte.toNat ≤ high then
        let value := value * 64 + (byte.toNat - 0x80)
        match later with
        | 0 => ⟨Char.ofNat value :: reading.chars, none⟩
        | later + 1 => ⟨reading.chars, some ⟨value, 0x80, 0xBF, later⟩⟩
      else
        start (replacement :: reading.chars) byte

def text (reading : Reading) : Text :=
  match reading.pending with
  | none => reading.chars.reverse
  | some _ => (replacement :: reading.chars).reverse

end Reading

def decodeLossy (bytes : Bytes) : Text :=
  (bytes.foldl Reading.next {}).text

/-- The text that is written as these bytes, if there is one. -/
def decode? (bytes : Bytes) : Option Text :=
  let text := decodeLossy bytes
  if encode text == bytes then some text else none

@[simp]
theorem encode_nil : encode [] = [] := rfl

@[simp]
theorem encode_append (left right : Text) :
    encode (left ++ right) = encode left ++ encode right := by
  simp [encode]

/-- What is read strictly is written back as the same bytes. -/
theorem encode_of_decode?
    {bytes : Bytes} {text : Text}
    (read : decode? bytes = some text) :
    encode text = bytes := by
  simp only [decode?] at read
  split at read
  · rename_i same
    cases read
    simpa using same
  · cases read

example : decodeLossy [0xE2, 0x82] = [replacement] := by decide

example : decodeLossy [0xED, 0xA0, 0x80, 0x61] = [replacement, replacement, replacement, 'a'] := by
  decide

end Utf8

end CommentErasure
