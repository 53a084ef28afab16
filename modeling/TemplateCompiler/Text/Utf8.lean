import TemplateCompiler.Text.Basic

/-!
# Bytes of texts

## What this module delivers

* `encode`: the UTF-8 bytes of a text.
* `decode?`: the text of some bytes, if they are well-formed.
-/

set_option autoImplicit false

namespace TemplateCompiler.Text

/-- A byte that continues a character. -/
def continuation (n : Nat) : UInt8 := UInt8.ofNat (0x80 + n % 64)

/-- The bytes of a character. -/
def encodeChar (c : Char) : List UInt8 :=
  let n := c.toNat
  if n < 0x80 then [UInt8.ofNat n]
  else if n < 0x800 then [UInt8.ofNat (0xC0 + n / 64), continuation n]
  else if n < 0x10000 then
    [UInt8.ofNat (0xE0 + n / 4096), continuation (n / 64), continuation n]
  else
    [UInt8.ofNat (0xF0 + n / 262144), continuation (n / 4096), continuation (n / 64),
      continuation n]

/-- The bytes of a text. -/
def encode (t : Text) : List UInt8 := t.flatMap encodeChar

/-- The bits that a byte adds to a character, if it continues one. -/
def continuationBits? (b : UInt8) : Option Nat :=
  if 0x80 ≤ b.toNat ∧ b.toNat < 0xC0 then some (b.toNat - 0x80) else none

/-- The character with a given number, written with no fewer bytes than it needs. -/
def charFrom? (least n : Nat) : Option Char :=
  if least ≤ n then if h : n.isValidChar then some (Char.ofNatAux n h) else none else none

/-- The text of some bytes. There is none if a character is cut off, written with too many bytes, or
no character at all. -/
def decode? : List UInt8 → Option Text
  | [] => some []
  | b :: rest =>
    let n := b.toNat
    if n < 0x80 then do return (← charFrom? 0 n) :: (← decode? rest)
    else if n < 0xC0 then none
    else if n < 0xE0 then
      match rest with
      | x :: rest => do
        let c ← charFrom? 0x80 ((n - 0xC0) * 64 + (← continuationBits? x))
        return c :: (← decode? rest)
      | _ => none
    else if n < 0xF0 then
      match rest with
      | x :: y :: rest => do
        let c ← charFrom? 0x800
          ((n - 0xE0) * 4096 + (← continuationBits? x) * 64 + (← continuationBits? y))
        return c :: (← decode? rest)
      | _ => none
    else
      match rest with
      | x :: y :: z :: rest => do
        let c ← charFrom? 0x10000
          ((n - 0xF0) * 262144 + (← continuationBits? x) * 4096 + (← continuationBits? y) * 64
            + (← continuationBits? z))
        return c :: (← decode? rest)
      | _ => none

end TemplateCompiler.Text
