/-!
# Bytes as text

* `Utf8.bytes`: the bytes of a text;
* `Utf8.decodeLossy`: the text of any bytes.  Bytes that do not begin a well-formed character
  are replaced: the longest part that could still have become a character counts as one.
-/

namespace Lowering.Utf8

/-- The bytes of a text. -/
def bytes (s : String) : List UInt8 := s.toUTF8.toList

/-- The character that stands for bytes that are not text. -/
def replacement : Char := Char.ofNat 0xFFFD

/-- A byte inside a character. -/
def isTail (b : UInt8) : Bool := 0x80 ≤ b && b ≤ 0xBF

/-- Whether the second byte can follow the first one of a character of three bytes. -/
def follows3 (b c : UInt8) : Bool :=
  if b = 0xE0 then 0xA0 ≤ c && c ≤ 0xBF
  else if b = 0xED then 0x80 ≤ c && c ≤ 0x9F
  else isTail c

/-- Whether the second byte can follow the first one of a character of four bytes. -/
def follows4 (b c : UInt8) : Bool :=
  if b = 0xF0 then 0x90 ≤ c && c ≤ 0xBF
  else if b = 0xF4 then 0x80 ≤ c && c ≤ 0x8F
  else isTail c

/-- The low six bits of a byte. -/
def low6 (b : UInt8) : Nat := b.toNat % 64

/-- The first character of some bytes and the number of bytes it takes. -/
def next (b : UInt8) (rest : List UInt8) : Char × Nat :=
  if b < 0x80 then (Char.ofNat b.toNat, 1)
  else if 0xC2 ≤ b && b ≤ 0xDF then
    match rest with
    | c :: _ =>
      if isTail c then (Char.ofNat (b.toNat % 32 * 64 + low6 c), 2) else (replacement, 1)
    | [] => (replacement, 1)
  else if 0xE0 ≤ b && b ≤ 0xEF then
    match rest with
    | c :: d :: _ =>
      if follows3 b c then
        if isTail d then (Char.ofNat (b.toNat % 16 * 4096 + low6 c * 64 + low6 d), 3)
        else (replacement, 2)
      else (replacement, 1)
    | [c] => (replacement, if follows3 b c then 2 else 1)
    | [] => (replacement, 1)
  else if 0xF0 ≤ b && b ≤ 0xF4 then
    match rest with
    | c :: d :: e :: _ =>
      if follows4 b c then
        if isTail d then
          if isTail e then
            (Char.ofNat (b.toNat % 8 * 262144 + low6 c * 4096 + low6 d * 64 + low6 e), 4)
          else (replacement, 3)
        else (replacement, 2)
      else (replacement, 1)
    | [c, d] => (replacement, if follows4 b c then if isTail d then 3 else 2 else 1)
    | [c] => (replacement, if follows4 b c then 2 else 1)
    | [] => (replacement, 1)
  else (replacement, 1)

/-- The characters of some bytes, of which the first `skip` belong to the character before. -/
def charsFrom : Nat → List UInt8 → List Char
  | _, [] => []
  | skip + 1, _ :: bs => charsFrom skip bs
  | 0, b :: bs => (next b bs).1 :: charsFrom ((next b bs).2 - 1) bs

/-- The text of any bytes. -/
def decodeLossy (bs : List UInt8) : String := String.ofList (charsFrom 0 bs)

end Lowering.Utf8
