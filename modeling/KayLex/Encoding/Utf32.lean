import KayLex.Encoding.Utf16

/-!
UTF-32, in either order of octets: every code point is four octets, and a number
that is no code point of a character is ill-formed.
-/

namespace KayLex.Encoding.Utf32

def front (o : Order) (whole : Bool) (octet : UInt8) (rest : List UInt8) : Front :=
  match rest with
  | second :: third :: fourth :: _ =>
    let code := o.number [octet, second, third, fourth]
    if 0xD800 ≤ code ∧ code < 0xE000 then .flaw 3 .surrogate
    else if code < 0x110000 then .char (Char.ofNat code) 3
    else .flaw 3 .outOfRange
  | rest => if whole then .flaw rest.length .truncated else .unfinished

def codec (o : Order) : Codec := ⟨"utf-32-" ++ o.label, front o⟩

def mark : Order → List UInt8
  | .little => [0xFF, 0xFE, 0x00, 0x00]
  | .big => [0x00, 0x00, 0xFE, 0xFF]

end KayLex.Encoding.Utf32
