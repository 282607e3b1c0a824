import KayLex.Encoding.Codec

/-!
Encodings with one octet to a character: ASCII, Latin-1, whose octets are the first
code points, and Windows-1252, which differs from Latin-1 in the octets from 80 to
9F and leaves five of those unassigned.
-/

namespace KayLex.Encoding.SingleOctet

def ascii : Codec where
  name := "ascii"
  front _ octet _ :=
    if octet.toNat < 0x80 then .char (Char.ofNat octet.toNat) 0 else .flaw 0 .notAscii

/-- Latin-1, in which every octet is a character. -/
def latin1 : Codec where
  name := "latin-1"
  front _ octet _ := .char (Char.ofNat octet.toNat) 0

/-- The octets from 80 to 9F in Windows-1252; those not listed are unassigned. -/
def windows1252Table : List (Nat × Char) :=
  [(0x80, '\u20AC'), (0x82, '\u201A'), (0x83, '\u0192'), (0x84, '\u201E'), (0x85, '\u2026'),
   (0x86, '\u2020'), (0x87, '\u2021'), (0x88, '\u02C6'), (0x89, '\u2030'), (0x8A, '\u0160'),
   (0x8B, '\u2039'), (0x8C, '\u0152'), (0x8E, '\u017D'), (0x91, '\u2018'), (0x92, '\u2019'),
   (0x93, '\u201C'), (0x94, '\u201D'), (0x95, '\u2022'), (0x96, '\u2013'), (0x97, '\u2014'),
   (0x98, '\u02DC'), (0x99, '\u2122'), (0x9A, '\u0161'), (0x9B, '\u203A'), (0x9C, '\u0153'),
   (0x9E, '\u017E'), (0x9F, '\u0178')]

def windows1252 : Codec where
  name := "charmap"
  front _ octet _ :=
    let code := octet.toNat
    if 0x80 ≤ code ∧ code < 0xA0 then
      match windows1252Table.lookup code with
      | some c => .char c 0
      | none => .flaw 0 .unassigned
    else .char (Char.ofNat code) 0

end KayLex.Encoding.SingleOctet
