/-
  UTF-8.

  Bytes become text only if they are well-formed UTF-8.  The decoder stops at the first flaw and
  says where the flawed sequence starts and how many of its bytes could have begun a character: one,
  two or three when a byte is wrong, or that the bytes end in the middle of a character.

  Mathlib-free.
-/
import IniFile.Text.Basic

namespace IniFile

/-- What is wrong with a sequence of bytes, and the index of the byte it starts at. -/
inductive Utf8Flaw where
  /-- The bytes end inside a character. -/
  | incomplete (index : Nat)
  /-- The `length` bytes from `index` on begin no character that the next byte continues. -/
  | invalid (length index : Nat)
deriving DecidableEq, Repr

namespace Utf8

/-- A byte that may follow the leading byte of a character. -/
def isContinuation (b : UInt8) : Bool := 0x80 ≤ b && b ≤ 0xbf

/-- How many bytes a character with this leading byte has; `0` if none starts so. -/
def width (b : UInt8) : Nat :=
  if b < 0x80 then 1
  else if 0xc2 ≤ b && b ≤ 0xdf then 2
  else if 0xe0 ≤ b && b ≤ 0xef then 3
  else if 0xf0 ≤ b && b ≤ 0xf4 then 4
  else 0

/-- May `second` follow the leading byte `lead`?  Overlong forms, surrogates and code points beyond
    the last one are refused here. -/
def mayFollow (lead second : UInt8) : Bool :=
  if lead = 0xe0 then 0xa0 ≤ second && second ≤ 0xbf
  else if lead = 0xed then 0x80 ≤ second && second ≤ 0x9f
  else if lead = 0xf0 then 0x90 ≤ second && second ≤ 0xbf
  else if lead = 0xf4 then 0x80 ≤ second && second ≤ 0x8f
  else isContinuation second

/-- The six low bits that a continuation byte carries. -/
def payload (b : UInt8) : Nat := b.toNat % 0x40

/-- Decodes the bytes from the given index on. -/
def decodeFrom (index : Nat) : List UInt8 → Except Utf8Flaw Text
  | [] => .ok []
  | b :: rest =>
    match width b with
    | 1 => (decodeFrom (index + 1) rest).map (Char.ofNat b.toNat :: ·)
    | 2 =>
      match rest with
      | [] => .error (.incomplete index)
      | c :: rest =>
        if mayFollow b c then
          let code := b.toNat % 0x20 * 0x40 + payload c
          (decodeFrom (index + 2) rest).map (Char.ofNat code :: ·)
        else .error (.invalid 1 index)
    | 3 =>
      match rest with
      | [] => .error (.incomplete index)
      | c :: rest =>
        if mayFollow b c then
          match rest with
          | [] => .error (.incomplete index)
          | d :: rest =>
            if isContinuation d then
              let code := b.toNat % 0x10 * 0x1000 + payload c * 0x40 + payload d
              (decodeFrom (index + 3) rest).map (Char.ofNat code :: ·)
            else .error (.invalid 2 index)
        else .error (.invalid 1 index)
    | 4 =>
      match rest with
      | [] => .error (.incomplete index)
      | c :: rest =>
        if mayFollow b c then
          match rest with
          | [] => .error (.incomplete index)
          | d :: rest =>
            if isContinuation d then
              match rest with
              | [] => .error (.incomplete index)
              | e :: rest =>
                if isContinuation e then
                  let code := b.toNat % 0x8 * 0x40000 + payload c * 0x1000 +
                    payload d * 0x40 + payload e
                  (decodeFrom (index + 4) rest).map (Char.ofNat code :: ·)
                else .error (.invalid 3 index)
            else .error (.invalid 2 index)
        else .error (.invalid 1 index)
    | _ => .error (.invalid 1 index)

/-- The text that the bytes spell, or the first flaw in them. -/
def decode (bytes : List UInt8) : Except Utf8Flaw Text := decodeFrom 0 bytes

/-- The text of bytes that may end inside a character, which then shows as the replacement
    character. -/
def decodeCut (bytes : List UInt8) : Except Utf8Flaw Text :=
  match decode bytes with
  | .error (.incomplete index) => (decode (bytes.take index)).map (· ++ ['\ufffd'])
  | result => result

/-- The bytes of a text. -/
def encode (t : Text) : List UInt8 := t.flatMap String.utf8EncodeChar

example : decode [0x6b, 0xe2, 0x82, 0x28] = .error (.invalid 2 1) := rfl
example : (decode (encode "é😀".toList)).toOption = some "é😀".toList := by decide +kernel

end Utf8
end IniFile
