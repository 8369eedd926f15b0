import Pagesmith.Text.Basic

/-!
# Texts as bytes

Columns, offsets and cuts count the bytes of the UTF-8 form of a text.  A cut can fall inside a
character; each byte that is then left alone reads as the replacement character.

* `encode`: the bytes of a text.
* `decode`: the text of some bytes.
* `takeBytes`: the start of a text up to a byte offset.
-/

namespace Pagesmith.Text

def encodeChar (c : Char) : List Nat :=
  let n := c.toNat
  if n < 0x80 then [n]
  else if n < 0x800 then [0xc0 + n / 0x40, 0x80 + n % 0x40]
  else if n < 0x10000 then [0xe0 + n / 0x1000, 0x80 + n / 0x40 % 0x40, 0x80 + n % 0x40]
  else [0xf0 + n / 0x40000, 0x80 + n / 0x1000 % 0x40, 0x80 + n / 0x40 % 0x40, 0x80 + n % 0x40]

def encode (s : List Char) : List Nat := s.flatMap encodeChar

def isTail (b : Nat) : Bool := 0x80 ≤ b && b < 0xc0

/-- The character that some bytes start with, and the number of further bytes it has. -/
def decodeChar (b : Nat) (rest : List Nat) : Char × Nat :=
  let bad : Char × Nat := ('�', 0)
  if b < 0x80 then (Char.ofNat b, 0)
  else if 0xc2 ≤ b && b < 0xe0 then
    match rest with
    | t :: _ => if isTail t then (Char.ofNat ((b - 0xc0) * 0x40 + (t - 0x80)), 1) else bad
    | _ => bad
  else if 0xe0 ≤ b && b < 0xf0 then
    match rest with
    | t :: u :: _ =>
      let n := (b - 0xe0) * 0x1000 + (t - 0x80) * 0x40 + (u - 0x80)
      if isTail t && isTail u && 0x800 ≤ n && !(0xd800 ≤ n && n < 0xe000) then (Char.ofNat n, 2)
      else bad
    | _ => bad
  else if 0xf0 ≤ b && b < 0xf5 then
    match rest with
    | t :: u :: v :: _ =>
      let n := (b - 0xf0) * 0x40000 + (t - 0x80) * 0x1000 + (u - 0x80) * 0x40 + (v - 0x80)
      if isTail t && isTail u && isTail v && 0x10000 ≤ n && n < 0x110000 then (Char.ofNat n, 3)
      else bad
    | _ => bad
  else bad

def decode : List Nat → List Char
  | [] => []
  | b :: rest => (decodeChar b rest).1 :: decode (rest.drop (decodeChar b rest).2)
termination_by bs => bs.length
decreasing_by simp only [List.length_drop, List.length_cons]; omega

def takeBytes (n : Nat) (s : List Char) : List Char := decode ((encode s).take n)

end Pagesmith.Text
