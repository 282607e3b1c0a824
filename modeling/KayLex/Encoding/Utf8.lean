import KayLex.Encoding.Codec

/-!
UTF-8. The first octet of a character says how many octets follow it and bounds the
one right behind it; the bounds exclude overlong forms, surrogates and code points
beyond the last one. An ill-formed run is as long as it could still have become a
character, so it ends before the octet that rules this out.
-/

namespace KayLex.Encoding.Utf8

/-- What the first octet of a character says. -/
structure Lead where
  /-- How many octets follow. -/
  follow : Nat
  /-- The first bits of the code point. -/
  bits : Nat
  /-- The least octet that can come next. -/
  low : Nat := 0x80
  /-- The greatest octet that can come next. -/
  high : Nat := 0xBF
  deriving DecidableEq

/-- The octets that a character can begin with. -/
def lead? (octet : Nat) : Option Lead :=
  if octet < 0x80 then some { follow := 0, bits := octet }
  else if octet < 0xC2 then none
  else if octet < 0xE0 then some { follow := 1, bits := octet - 0xC0 }
  else if octet < 0xF0 then
    some { follow := 2, bits := octet - 0xE0
           low := if octet = 0xE0 then 0xA0 else 0x80
           high := if octet = 0xED then 0x9F else 0xBF }
  else if octet < 0xF5 then
    some { follow := 3, bits := octet - 0xF0
           low := if octet = 0xF0 then 0x90 else 0x80
           high := if octet = 0xF4 then 0x8F else 0xBF }
  else none

/-- Follows a character through the octets behind its first one, of which `seen` have
been taken. -/
def trail (whole : Bool) (follow low high bits seen : Nat) (octets : List UInt8) : Front :=
  match follow, octets with
  | 0, _ => .char (Char.ofNat bits) seen
  | _ + 1, [] => if whole then .flaw seen .endsEarly else .unfinished
  | follow + 1, octet :: rest =>
    if low ≤ octet.toNat ∧ octet.toNat ≤ high then
      trail whole follow 0x80 0xBF (bits * 64 + (octet.toNat - 0x80)) (seen + 1) rest
    else .flaw seen .badContinuation

/-- Whether just the first two octets of a surrogate have arrived. These are kept like
an unfinished character, although nothing can make them one. -/
def halfSurrogate (octet : UInt8) (rest : List UInt8) : Bool :=
  match rest with
  | [second] => octet = 0xED && 0xA0 ≤ second && second ≤ 0xBF
  | _ => false

def front (whole : Bool) (octet : UInt8) (rest : List UInt8) : Front :=
  match lead? octet.toNat with
  | none => .flaw 0 .badStart
  | some l =>
    if !whole && halfSurrogate octet rest then .unfinished
    else trail whole l.follow l.low l.high l.bits 0 rest

def codec : Codec := ⟨"utf-8", front⟩

def mark : List UInt8 := [0xEF, 0xBB, 0xBF]

end KayLex.Encoding.Utf8
