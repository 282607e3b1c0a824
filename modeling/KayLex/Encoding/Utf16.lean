import KayLex.Encoding.Codec

/-!
UTF-16, in either order of octets. A code unit is two octets. A code point beyond
the basic plane is a high surrogate followed by a low one, and neither of them
means anything alone.
-/

namespace KayLex.Encoding

/-- The order in which the octets of a number come. -/
inductive Order where
  | little
  | big
  deriving DecidableEq

def Order.label : Order → String
  | little => "le"
  | big => "be"

def Order.number (o : Order) (octets : List UInt8) : Nat :=
  let highFirst := match o with
    | little => octets.reverse
    | big => octets
  highFirst.foldl (fun n (octet : UInt8) => n * 256 + octet.toNat) 0

namespace Utf16

/-- Whether a code unit is the first half of a pair. -/
def isHigh (unit : Nat) : Bool := 0xD800 ≤ unit && unit < 0xDC00

/-- Whether a code unit is the second half of a pair. -/
def isLow (unit : Nat) : Bool := 0xDC00 ≤ unit && unit < 0xE000

/-- The character that a pair of surrogates stands for. -/
def pair (high low : Nat) : Char :=
  Char.ofNat (0x10000 + (high - 0xD800) * 0x400 + (low - 0xDC00))

def front (o : Order) (whole : Bool) (octet : UInt8) (rest : List UInt8) : Front :=
  match rest with
  | [] => if whole then .flaw 0 .truncated else .unfinished
  | second :: rest =>
    let unit := o.number [octet, second]
    if isLow unit then .flaw 1 .loneLowSurrogate
    else if isHigh unit then
      match rest with
      | third :: fourth :: _ =>
        let next := o.number [third, fourth]
        if isLow next then .char (pair unit next) 3 else .flaw 1 .unpairedHighSurrogate
      | rest => if whole then .flaw (1 + rest.length) .endsEarly else .unfinished
    else .char (Char.ofNat unit) 1

def codec (o : Order) : Codec := ⟨"utf-16-" ++ o.label, front o⟩

def mark : Order → List UInt8
  | .little => [0xFF, 0xFE]
  | .big => [0xFE, 0xFF]

end Utf16

end KayLex.Encoding
