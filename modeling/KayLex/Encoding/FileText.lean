import KayLex.Encoding.Decoder
import KayLex.Stream

/-!
The text of a file as a stream. The octets are fetched in chunks of one size, and a
chunk is decoded as a whole when its first character is wanted. When the octets are
used up, the decoder is fed once more, with nothing, to settle what it has kept;
should that fail, it fails again on every later read.

A carriage return at the end of a chunk is held until more text has been decoded, so
that it is never parted from a line feed behind it. A failure in between loses
neither the decoder's state nor the carriage return, only the chunk.
-/

namespace KayLex.Encoding

def chunkSize : Nat := 8192

/-- Cuts octets into chunks; only the last may be shorter. -/
def chunks (octets : List UInt8) : List (List UInt8) :=
  match octets with
  | [] => []
  | octet :: rest =>
    (octet :: rest.take (chunkSize - 1)) :: chunks (rest.drop (chunkSize - 1))
termination_by octets.length
decreasing_by simp only [List.length_drop, List.length_cons]; omega

theorem flatten_chunks (octets : List UInt8) : (chunks octets).flatten = octets := by
  fun_induction chunks octets with
  | case1 => rfl
  | case2 octet rest ih => simp [ih]

/-- What is let through of decoded characters when a carriage return may be held, and
whether one is held afterwards. -/
def release (held whole : Bool) (cs : List Char) : List Char × Bool :=
  if !whole && cs.isEmpty then ([], held)
  else
    let cs := if held then '\r' :: cs else cs
    if !whole && cs.getLast? = some '\r' then (cs.dropLast, true) else (cs, false)

/-- What a decoder answers while a file is read: to each chunk in turn, and to the end. -/
inductive Answers (α : Type) where
  | toEnd (answer : Except Failure (List α))
  | toChunk (answer : Except Failure (List α)) (later : Answers α)

namespace Answers

variable {α β : Type}

def map (f : α → β) : Answers α → Answers β
  | toEnd answer => toEnd (answer.map (List.map f))
  | toChunk answer later => toChunk (answer.map (List.map f)) (map f later)

def text : Answers α → List α
  | toEnd (.ok delivered) => delivered
  | toChunk (.ok delivered) later => delivered ++ text later
  | toEnd (.error _) | toChunk (.error _) _ => []

/-- What the reads of a file answer, and what later reads fail with. -/
def items (held : Bool) : Answers Char → List Item × Option Failure
  | toEnd (.ok cs) => ((release held true cs).1.map .char, none)
  | toEnd (.error f) => ([], some f)
  | toChunk (.ok cs) later =>
    let (cs, held) := release held false cs
    let (items, thereafter) := items held later
    (cs.map .char ++ items, thereafter)
  | toChunk (.error f) later =>
    let (items, thereafter) := items held later
    (.fault f :: items, thereafter)

def stream (a : Answers Char) : Stream :=
  let (items, thereafter) := a.items false
  { items, thereafter }

end Answers

def Decoder.answers (d : Decoder) : List (List UInt8) → Answers Char
  | [] => .toEnd (d.feed true []).1
  | chunk :: rest =>
    let (answer, d') := d.feed false chunk
    .toChunk answer (answers d' rest)

def fileText (charset : Charset) (policy : Policy) (octets : List UInt8) : Stream :=
  (Decoder.answers { charset, policy } (chunks octets)).stream

end KayLex.Encoding
