/-!
# Texts of bytes

Decoding of UTF-8 that replaces what is no character: each longest part that starts one, or else
each byte, stands for a replacement character.
-/

namespace QueryShape.Utf8

/-- A character that is begun: how many bytes are missing, its code so far, and the bounds of the
next byte. -/
structure Begun where
  missing : Nat
  code : Nat
  low : Nat := 0x80
  high : Nat := 0xbf

/-- What a first byte begins, if it begins a character of several bytes. The bounds rule out codes
that have a shorter form, surrogates, and codes beyond the last. -/
def begin? (byte : Nat) : Option Begun :=
  if byte < 0xc2 then none
  else if byte < 0xe0 then some { missing := 1, code := byte - 0xc0 }
  else if byte = 0xe0 then some { missing := 2, code := 0, low := 0xa0 }
  else if byte = 0xed then some { missing := 2, code := 0xd, high := 0x9f }
  else if byte < 0xf0 then some { missing := 2, code := byte - 0xe0 }
  else if byte = 0xf0 then some { missing := 3, code := 0, low := 0x90 }
  else if byte < 0xf4 then some { missing := 3, code := byte - 0xf0 }
  else if byte = 0xf4 then some { missing := 3, code := 4, high := 0x8f }
  else none

def replacement : Char := '\uFFFD'

/-- The characters of bytes, where perhaps a character is begun. -/
def characters : Option Begun → List UInt8 → List Char
  | none, [] => []
  | some _, [] => [replacement]
  | begun?, byte :: bytes =>
      match begun? with
      | none => first byte.toNat (characters · bytes)
      | some begun =>
          if begun.low ≤ byte.toNat && byte.toNat ≤ begun.high then
            let code := begun.code * 0x40 + (byte.toNat - 0x80)
            if begun.missing ≤ 1 then Char.ofNat code :: characters none bytes
            else characters (some { missing := begun.missing - 1, code }) bytes
          else replacement :: first byte.toNat (characters · bytes)
where
  first (byte : Nat) (rest : Option Begun → List Char) : List Char :=
    if byte < 0x80 then Char.ofNat byte :: rest none
    else
      match begin? byte with
      | some begun => rest (some begun)
      | none => replacement :: rest none

def decode (bytes : ByteArray) : String :=
  match String.fromUTF8? bytes with
  | some text => text
  | none => String.ofList (characters none bytes.toList)

end QueryShape.Utf8
