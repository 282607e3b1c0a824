import KayLex.Encoding.FileText
import KayLex.Proofs.Cursor.Ahead
import KayLex.Proofs.Encoding.Steady

/-!
The first failure in a file. The octets of a file are decoded chunk by chunk, and what
is met first among the failures of the chunks and of the end is the fate of the text.
In an encoding that needs no mark the cuts between the chunks make no difference: the
first failure is one that goes to the caller just when the policy is foreign and there
is a flaw among the octets.
-/

namespace KayLex.Encoding

open Codec

variable {d : Decoder} {charset : Charset} {codec : Codec} {policy : Policy} {whole : Bool}
  {chunk octets kept : List UInt8} {rest : List (List UInt8)} {f : Failure}

/-! ### The first failure -/

namespace Answers

variable {α β : Type}

def firstFailure : Answers α → Option Failure
  | toEnd (.ok _) => none
  | toChunk (.ok _) later => firstFailure later
  | toEnd (.error f) | toChunk (.error f) _ => some f

/-- The answers get to the end of the input, or to what counts as that. -/
def Quiet (a : Answers α) : Prop := ∀ f, a.firstFailure = some f → f.endsInput = true

theorem firstFailure_map (g : α → β) (a : Answers α) : (a.map g).firstFailure = a.firstFailure := by
  induction a with
  | toEnd answer => cases answer <;> rfl
  | toChunk answer later ih => cases answer with
    | error f => rfl
    | ok delivered => exact ih

theorem fateOf_items (held : Bool) (a : Answers Char) :
    Stream.fateOf (a.items held).2 (a.items held).1 = a.firstFailure := by
  induction a generalizing held with
  | toEnd answer => cases answer with
    | error f => rfl
    | ok cs => exact Stream.fateOf_map_char ..
  | toChunk answer later ih => cases answer with
    | error f => rfl
    | ok cs => exact (Stream.fateOf_append ..).trans (ih _)

theorem quiet_stream (a : Answers Char) : a.stream.Quiet ↔ a.Quiet := by
  rw [Stream.Quiet, Quiet, ← fateOf_items false]
  rfl

end Answers

namespace Decoder

def firstFailure (d : Decoder) (coming : List (List UInt8)) : Option Failure :=
  (d.answers coming).firstFailure

def Quiet (d : Decoder) (coming : List (List UInt8)) : Prop := (d.answers coming).Quiet

theorem quiet_iff_of_error (h : d.firstFailure rest = some f) :
    d.Quiet rest ↔ f.endsInput = true := by
  rw [Quiet, Answers.Quiet, ← firstFailure, h]
  simp

theorem quiet_of_none (h : d.firstFailure rest = none) : d.Quiet rest := by
  intro f hf
  rw [← firstFailure, h] at hf
  cases hf

section FirstFailure

variable {d' : Decoder} {cs : List Char}

theorem answers_cons {answer : Except Failure (List Char)} (h : d.feed false chunk = (answer, d')) :
    d.answers (chunk :: rest) = .toChunk answer (d'.answers rest) := by
  rw [answers, h]

theorem firstFailure_of_error (h : d.feed false chunk = (.error f, d')) :
    d.firstFailure (chunk :: rest) = some f := by
  rw [firstFailure, answers_cons h]
  rfl

theorem quiet_of_ok (h : d.feed false chunk = (.ok cs, d')) :
    d.Quiet (chunk :: rest) ↔ d'.Quiet rest := by
  rw [Quiet, answers_cons h]
  rfl

theorem firstFailure_end_of_error (h : d.feed true [] = (.error f, d')) :
    d.firstFailure [] = some f := by
  rw [firstFailure, answers, h]
  rfl

theorem firstFailure_end_of_ok (h : d.feed true [] = (.ok cs, d')) : d.firstFailure [] = none := by
  rw [firstFailure, answers, h]
  rfl

end FirstFailure

end Decoder

theorem quiet_fileText :
    (fileText charset policy octets).Quiet ↔ Decoder.Quiet { charset, policy } (chunks octets) :=
  Answers.quiet_stream _

/-! ### Encodings that need no mark -/

/-- The codec of an encoding that needs no mark. -/
def codecOf? : Charset → Option Codec
  | .utf8 => some Utf8.codec
  | .latin1 => some SingleOctet.latin1
  | .ascii => some SingleOctet.ascii
  | .windows1252 => some SingleOctet.windows1252
  | .utf16Little => some (Utf16.codec .little)
  | .utf16Big => some (Utf16.codec .big)
  | .utf32Little => some (Utf32.codec .little)
  | .utf32Big => some (Utf32.codec .big)
  | .utf8Marked | .utf16 | .utf32 | .unreadable => none

theorem steady_of_codecOf (h : codecOf? charset = some codec) : Steady codec := by
  cases charset <;> cases h
  · exact Utf8.steady_codec
  · exact SingleOctet.steady_latin1
  · exact SingleOctet.steady_ascii
  · exact SingleOctet.steady_windows1252
  · exact (Utf16.steady_and_wide_codec _).1
  · exact (Utf16.steady_and_wide_codec _).1
  · exact (Utf32.steady_and_wide_codec _).1
  · exact (Utf32.steady_and_wide_codec _).1

theorem feed_of_codecOf (whole : Bool) (chunk : List UInt8) (h : codecOf? d.charset = some codec) :
    d.feed whole chunk = d.settle d.charset codec whole 0 (d.kept ++ chunk) d := by
  obtain ⟨charset, policy, kept⟩ := d
  cases charset <;> cases h <;> rfl

theorem quiet_of_settle {otherwise : Decoder} {position : Nat}
    (hcodec : codecOf? charset = some codec)
    (hfeed : d.feed false chunk = d.settle charset codec false position octets otherwise)
    (hrest : ∀ kept, Decoder.Quiet { d with charset, kept } rest ↔
      ¬ (d.policy.Foreign ∧ Flawed codec true (kept ++ rest.flatten))) :
    d.Quiet (chunk :: rest) ↔
      ¬ (d.policy.Foreign ∧ Flawed codec true (octets ++ rest.flatten)) := by
  have hs := steady_of_codecOf hcodec
  rw [Decoder.settle, Codec.decode] at hfeed
  cases hdecode : codec.decodeFrom d.policy false [] position octets with
  | error f =>
      obtain ⟨⟨u, hrepair⟩, hflawed⟩ := exists_repair_of_error hdecode
      rw [hdecode] at hfeed
      rw [Decoder.quiet_iff_of_error (Decoder.firstFailure_of_error hfeed),
        Policy.endsInput_of_repair hrepair, and_iff_left (hflawed.append hs)]
  | ok decoded =>
      rw [hdecode] at hfeed
      rw [Decoder.quiet_of_ok hfeed, hrest]
      -- A policy that is not foreign makes both sides true, whatever the octets are.
      by_cases hforeign : d.policy.Foreign
      · rw [flawed_append_iff hs hforeign.not_repairs hdecode]
      · simp [hforeign]

theorem quiet_of_codecOf (hcodec : codecOf? d.charset = some codec) :
    d.Quiet rest ↔ ¬ (d.policy.Foreign ∧ Flawed codec true (d.kept ++ rest.flatten)) := by
  induction rest generalizing d with
  | nil =>
      have hfeed := feed_of_codecOf true [] hcodec
      rw [List.flatten_nil]
      rw [Decoder.settle, Codec.decode] at hfeed
      cases hdecode : codec.decodeFrom d.policy true [] 0 (d.kept ++ []) with
      | error f =>
          obtain ⟨⟨u, hrepair⟩, hflawed⟩ := exists_repair_of_error hdecode
          rw [hdecode] at hfeed
          rw [Decoder.quiet_iff_of_error (Decoder.firstFailure_end_of_error hfeed),
            Policy.endsInput_of_repair hrepair, and_iff_left hflawed]
      | ok decoded =>
          rw [hdecode] at hfeed
          apply iff_of_true (Decoder.quiet_of_none (Decoder.firstFailure_end_of_ok hfeed))
          rintro ⟨hforeign, hflawed⟩
          exact not_flawed_of_ok hforeign.not_repairs hdecode hflawed
  | cons chunk rest ih =>
      rw [quiet_of_settle hcodec (feed_of_codecOf false chunk hcodec) fun kept => ih hcodec,
        List.append_assoc, List.flatten_cons]

/-! ### The first chunk -/

theorem chunks_of_ne_nil (h : octets ≠ []) :
    chunks octets = octets.take chunkSize :: chunks (octets.drop chunkSize) := by
  cases octets with
  | nil => exact absurd rfl h
  | cons octet rest => rw [chunks]; rfl

theorem prefix_take_chunk {mark : List UInt8} (hmark : mark.length ≤ chunkSize) :
    mark <+: octets.take chunkSize ↔ mark <+: octets := by
  rw [List.prefix_take_iff, and_iff_left hmark]

/-- Behind a mark, the cut between the chunks makes no difference. -/
theorem drop_take_append {n : Nat} (h : n ≤ (octets.take chunkSize).length) :
    (octets.take chunkSize).drop n ++ (chunks (octets.drop chunkSize)).flatten =
      octets.drop n := by
  rw [flatten_chunks, ← List.drop_append_of_le_length h, List.take_append_drop]

theorem take_chunk_of_length_le (h : octets.length ≤ chunkSize) :
    octets.take chunkSize = octets ∧ chunks (octets.drop chunkSize) = [] := by
  rw [List.take_of_length_le h, List.drop_of_length_le h, chunks]
  exact ⟨rfl, rfl⟩

end KayLex.Encoding
