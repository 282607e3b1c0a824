import KayLex.Encoding.Policy

/-!
Codecs: an encoding is known by what it makes of the octets at one place. They may
begin with a character, with an ill-formed run, or with the beginning of something
whose rest has not arrived. Decoding a text is asking that question again behind
each answer.

Whether octets can still arrive matters: what is unfinished in the middle of the
input is kept for later, and what is unfinished at its end is ill-formed.
-/

namespace KayLex.Encoding

inductive Flaw where
  | badStart
  | badContinuation
  | endsEarly
  | truncated
  | loneLowSurrogate
  | unpairedHighSurrogate
  | surrogate
  | outOfRange
  | notAscii
  | unassigned
  deriving DecidableEq

def Flaw.text : Flaw → String
  | badStart => "invalid start byte"
  | badContinuation => "invalid continuation byte"
  | endsEarly => "unexpected end of data"
  | truncated => "truncated data"
  | loneLowSurrogate => "illegal encoding"
  | unpairedHighSurrogate => "illegal UTF-16 surrogate"
  | surrogate => "code point in surrogate code point range(0xd800, 0xe000)"
  | outOfRange => "code point not in range(0x110000)"
  | notAscii => "ordinal not in range(128)"
  | unassigned => "character maps to <undefined>"

/-- What some octets begin with. The counts leave out the first octet, so that each
answer takes at least that one. -/
inductive Front where
  /-- A character, and how many octets it takes besides the first. -/
  | char (c : Char) (more : Nat)
  /-- An ill-formed run, and how many octets it takes besides the first. -/
  | flaw (more : Nat) (reason : Flaw)
  /-- Something whose rest has not arrived. -/
  | unfinished
  deriving DecidableEq

/-- An encoding in which the octets of a text can be told apart from the front. -/
structure Codec where
  /-- The name under which failures show the encoding. -/
  name : String
  /-- What an octet and those behind it begin with. The flag says that no octets will
  follow. -/
  front : (whole : Bool) → UInt8 → List UInt8 → Front

/-- Characters, and the octets at the end that are kept for later. -/
structure Decoded where
  chars : List Char
  kept : List UInt8 := []
  deriving DecidableEq

namespace Codec

/-- Decodes octets that start at a position. The characters are answered behind those
decoded before (which are given latest first). -/
def decodeFrom (codec : Codec) (policy : Policy) (whole : Bool) (chars : List Char)
    (position : Nat) (octets : List UInt8) : Except Failure Decoded :=
  match octets with
  | [] => .ok { chars := chars.reverse }
  | octet :: rest =>
    match codec.front whole octet rest with
    | .unfinished => .ok { chars := chars.reverse, kept := octet :: rest }
    | .char c more =>
      decodeFrom codec policy whole (c :: chars) (position + 1 + more) (rest.drop more)
    | .flaw more reason =>
      let run := octet :: rest.take more
      match policy.repair ⟨codec.name, run, position, reason.text⟩ with
      | .error f => .error f
      | .ok cs =>
        decodeFrom codec policy whole (cs.reverse ++ chars) (position + 1 + more)
          (rest.drop more)
termination_by octets.length
decreasing_by all_goals simp only [List.length_drop, List.length_cons]; omega

def decode (codec : Codec) (policy : Policy) (whole : Bool) (position : Nat)
    (octets : List UInt8) : Except Failure Decoded :=
  codec.decodeFrom policy whole [] position octets

end Codec

end KayLex.Encoding
