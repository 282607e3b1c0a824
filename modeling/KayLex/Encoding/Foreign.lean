import KayLex.Encoding.FileText
import KayLex.Text.Quoted

/-!
Decoders that are not described here. A system has many encodings besides, and two
policies that deliver surrogates. Of their decoders only this much is said: they are
fed the chunks of a file, as any decoder is, and answer each chunk and the end with
what they have decoded or with a failure.

A surrogate that stands alone is no character, and no stream of characters holds it.
In a text the replacement character stands in for it, which is in no class of
characters either, and the places of the surrogates are kept beside the text.
-/

namespace KayLex.Encoding

/-- A code point that is no character, but half of the code of one. -/
structure Surrogate where
  code : Nat
  isSurrogate : 0xD800 ≤ code ∧ code < 0xE000
  deriving DecidableEq

def Surrogate.escape (s : Surrogate) : String := String.ofList (Text.codeEscape s.code)

/-- What a decoder can deliver. -/
inductive CodePoint where
  | char (c : Char)
  | surrogate (s : Surrogate)
  deriving DecidableEq

namespace CodePoint

/-- The character that stands for a code point in a text. -/
def standIn : CodePoint → Char
  | char c => c
  | surrogate _ => Policy.replacement

def surrogate? : CodePoint → Option Surrogate
  | char _ => none
  | surrogate s => some s

/-- The surrogates among code points, with their places counted from `offset`. -/
def surrogatesFrom (offset : Nat) : List CodePoint → List (Nat × Surrogate)
  | [] => []
  | char _ :: rest => surrogatesFrom (offset + 1) rest
  | surrogate s :: rest => (offset, s) :: surrogatesFrom (offset + 1) rest

end CodePoint

/-- A decoder of which nothing is known but its answers. What it makes of a chunk may depend
on the chunks that it has been fed before, the latest last. -/
structure Foreign where
  toChunk : (before : List (List UInt8)) → (chunk : List UInt8) → Except Failure (List CodePoint)
  toEnd : (before : List (List UInt8)) → Except Failure (List CodePoint)

namespace Foreign

/-- What a decoder answers to the coming chunks, behind those that it has been fed. -/
def answersFrom (d : Foreign) (before : List (List UInt8)) :
    List (List UInt8) → Answers CodePoint
  | [] => .toEnd (d.toEnd before)
  | chunk :: rest => .toChunk (d.toChunk before chunk) (answersFrom d (before ++ [chunk]) rest)

def answers (d : Foreign) (octets : List UInt8) : Answers CodePoint :=
  d.answersFrom [] (chunks octets)

end Foreign

/-- The decoders that a system has besides those described here, by the names of an encoding
and of a policy. -/
abbrev Codecs := (encoding policy : String) → Option Foreign

def Codecs.empty : Codecs := fun _ _ => none

end KayLex.Encoding
