import KayLex.Encoding.Charset
import KayLex.Encoding.SingleOctet
import KayLex.Encoding.Utf32
import KayLex.Encoding.Utf8

/-!
Decoders, which are fed the octets of a text in chunks. What is unfinished at the
end of a chunk is kept and put in front of the next one, and positions are counted
from the octets that were kept.

An encoding that looks for a mark in front of the text is settled when enough
octets are there to see it: the decoder then goes on in the encoding that the mark
names. A chunk that cannot be decoded is lost, and what had been kept before it is
kept on.
-/

namespace KayLex.Encoding

structure Decoder where
  charset : Charset
  policy : Policy
  /-- The octets that wait for the rest of what they begin. -/
  kept : List UInt8 := []
  deriving DecidableEq

namespace Decoder

/-- Decodes octets that start at a position in an encoding that needs no mark, and goes
on in it. A failure leaves the decoder `otherwise`. -/
def settle (d : Decoder) (charset : Charset) (codec : Codec) (whole : Bool) (position : Nat)
    (octets : List UInt8) (otherwise : Decoder) : Except Failure (List Char) × Decoder :=
  match codec.decode d.policy whole position octets with
  | .ok decoded => (.ok decoded.chars, { d with charset := charset, kept := decoded.kept })
  | .error f => (.error f, otherwise)

/-- Decodes octets in an encoding whose order a mark tells. Without a mark the octets are
taken to come low octet first, which only shows what else is wrong with them: as soon as a
unit has been decoded, the missing mark is a failure. -/
def marked (d : Decoder) (title : String) (width : Nat) (mark : Order → List UInt8)
    (charset : Order → Charset) (codec : Order → Codec) (whole : Bool) (octets : List UInt8) :
    Except Failure (List Char) × Decoder :=
  if (mark .little).isPrefixOf octets then
    d.settle (charset .little) (codec .little) whole width (octets.drop width) d
  else if (mark .big).isPrefixOf octets then
    d.settle (charset .big) (codec .big) whole width (octets.drop width) d
  else
    match (codec .little).decode d.policy whole 0 octets with
    | .error f => (.error f, d)
    | .ok decoded =>
      if decoded.kept.length + width ≤ octets.length then
        (.error (.misencoded s!"{title} stream does not start with BOM"), d)
      else (.ok decoded.chars, { d with kept := decoded.kept })

/-- Decodes octets in UTF-8 behind an optional mark. As long as they could still be the
beginning of a mark, nothing is decoded; the search is over with the first try. -/
def optionallyMarked (d : Decoder) (whole : Bool) (octets : List UInt8) :
    Except Failure (List Char) × Decoder :=
  let settled := { d with charset := .utf8 }
  if Utf8.mark.isPrefixOf octets then
    d.settle .utf8 Utf8.codec whole 0 (octets.drop Utf8.mark.length) settled
  else if octets.isPrefixOf Utf8.mark then (.ok [], { d with kept := octets })
  else d.settle .utf8 Utf8.codec whole 0 octets settled

/-- Feeds a chunk to a decoder. The flag says that no more octets will follow. -/
def feed (d : Decoder) (whole : Bool) (chunk : List UInt8) :
    Except Failure (List Char) × Decoder :=
  let octets := d.kept ++ chunk
  let plain (codec : Codec) := d.settle d.charset codec whole 0 octets d
  match d.charset with
  | .utf8 => plain Utf8.codec
  | .utf8Marked => d.optionallyMarked whole octets
  | .latin1 => plain SingleOctet.latin1
  | .ascii => plain SingleOctet.ascii
  | .windows1252 => plain SingleOctet.windows1252
  | .utf16Little => plain (Utf16.codec .little)
  | .utf16Big => plain (Utf16.codec .big)
  | .utf32Little => plain (Utf32.codec .little)
  | .utf32Big => plain (Utf32.codec .big)
  | .utf16 =>
    d.marked "UTF-16" 2 Utf16.mark
      (fun o => match o with | .little => .utf16Little | .big => .utf16Big)
      Utf16.codec whole octets
  | .utf32 =>
    d.marked "UTF-32" 4 Utf32.mark
      (fun o => match o with | .little => .utf32Little | .big => .utf32Big)
      Utf32.codec whole octets
  | .unreadable => (.error (.misencoded "undefined encoding"), d)

end Decoder

end KayLex.Encoding
