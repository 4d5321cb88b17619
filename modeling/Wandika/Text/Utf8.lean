/-!
# UTF-8

* `scalar?`: the code point at the front of a byte sequence and the number of its bytes;
* `decode`: the text of any bytes, where each byte that belongs to no code point stands for
  U+FFFD;
* `isValid`: whether every byte belongs to a code point;
* `encode`: the bytes of a text.
-/

namespace Wandika.Text.Utf8

/-- What a lead byte announces: how many bytes follow, the bits it contributes, and the least and
greatest value of the next byte. The bounds shut out overlong forms, surrogates and values above
U+10FFFF. -/
def follow (lead : Nat) : Option (Nat × Nat × Nat × Nat) :=
  if lead < 0x80 then some (0, lead, 0, 0)
  else if lead < 0xC2 then none
  else if lead < 0xE0 then some (1, lead - 0xC0, 0x80, 0xBF)
  else if lead = 0xE0 then some (2, 0, 0xA0, 0xBF)
  else if lead = 0xED then some (2, 0xD, 0x80, 0x9F)
  else if lead < 0xF0 then some (2, lead - 0xE0, 0x80, 0xBF)
  else if lead = 0xF0 then some (3, 0, 0x90, 0xBF)
  else if lead < 0xF4 then some (3, lead - 0xF0, 0x80, 0xBF)
  else if lead = 0xF4 then some (3, 4, 0x80, 0x8F)
  else none

/-- Adds the bits of `count` continuation bytes, the first between `least` and `greatest`. -/
def continuation : (count least greatest bits : Nat) → List UInt8 → Option Nat
  | 0, _, _, bits, _ => some bits
  | _ + 1, _, _, _, [] => none
  | count + 1, least, greatest, bits, b :: rest =>
      if least ≤ b.toNat ∧ b.toNat ≤ greatest then
        continuation count 0x80 0xBF (bits * 64 + (b.toNat - 0x80)) rest
      else none

/-- The code point at the front of the bytes, with the number of bytes after its lead byte. -/
def scalar? : List UInt8 → Option (Char × Nat)
  | [] => none
  | b :: rest =>
      match follow b.toNat with
      | none => none
      | some (count, bits, least, greatest) =>
          (continuation count least greatest bits rest).map fun n => (Char.ofNat n, count)

/-- Reads code points from the front, passing over `skip` bytes first. -/
def scalars (skip : Nat) : List UInt8 → List (Option Char)
  | [] => []
  | b :: rest =>
      match skip with
      | skip + 1 => scalars skip rest
      | 0 =>
          match scalar? (b :: rest) with
          | some (c, more) => some c :: scalars more rest
          | none => none :: scalars 0 rest

/-- The text of a byte sequence: each byte that belongs to no code point stands for U+FFFD. -/
def decode (bytes : List UInt8) : List Char :=
  (scalars 0 bytes).map fun c => c.getD (Char.ofNat 0xFFFD)

/-- Whether every byte belongs to a code point. -/
def isValid (bytes : List UInt8) : Bool :=
  (scalars 0 bytes).all Option.isSome

/-- The bytes of a text. -/
def encode (s : String) : List UInt8 :=
  s.toUTF8.toList

end Wandika.Text.Utf8
