import KayLex.Proofs.Encoding.Decoding
import KayLex.Proofs.Encoding.FirstFailure
import Mathlib.Data.List.Basic

/-!
The text of a file, chunk by chunk. In an encoding that needs no mark the stream of a file
delivers what its octets come to as a whole, wherever the chunks cut them. If some chunk
cannot be decoded, or if what is left at the end cannot, the stream delivers what the chunks
before came to and breaks off there; a carriage return at the end of that is still held, and
is not delivered any more.
-/

namespace KayLex.Encoding

open Codec

variable {d : Decoder} {charset : Charset} {codec : Codec} {policy : Policy} {held whole : Bool}
  {octets chunk kept : List UInt8} {coming rest : List (List UInt8)} {cs ds : List Char}

/-! ### Carriage returns -/

def heldText (held : Bool) : List Char := if held then ['\r'] else []

def withoutLastReturn (cs : List Char) : List Char :=
  if cs.getLast? = some '\r' then cs.dropLast else cs

theorem withoutLastReturn_append (h : ds ≠ []) :
    withoutLastReturn (cs ++ ds) = cs ++ withoutLastReturn ds := by
  unfold withoutLastReturn
  rw [List.getLast?_append_of_ne_nil _ h, List.dropLast_append_of_ne_nil h]
  split <;> rfl

@[simp] theorem withoutLastReturn_heldText (held : Bool) :
    withoutLastReturn (heldText held) = [] := by
  cases held <;> rfl

/-- A chunk that comes to nothing changes nothing; otherwise all characters are let through but
a carriage return at the end. -/
theorem release_false (held : Bool) (cs : List Char) :
    release held false cs =
      if cs = [] then ([], held)
      else if (heldText held ++ cs).getLast? = some '\r' then
        ((heldText held ++ cs).dropLast, true)
      else (heldText held ++ cs, false) := by
  cases held <;> simp [release, heldText]

theorem release_whole (held : Bool) (cs : List Char) :
    release held true cs = (heldText held ++ cs, false) := by
  cases held <;> simp [release, heldText]

theorem release_append (held : Bool) (cs : List Char) :
    (release held false cs).1 ++ heldText (release held false cs).2 = heldText held ++ cs := by
  rw [release_false]
  split
  · next hnil => rw [hnil, List.nil_append, List.append_nil]
  · split
    · next hlast =>
      obtain ⟨front, hfront⟩ := List.getLast?_eq_some_iff.mp hlast
      rw [hfront, List.dropLast_concat]
      rfl
    · exact List.append_nil _

theorem getLast?_release (h : (release held false cs).2 = false) :
    (release held false cs).1.getLast? ≠ some '\r' := by
  rw [release_false] at h ⊢
  split
  · simp
  · next hne =>
    rw [if_neg hne] at h
    split
    · next hlast =>
      rw [if_pos hlast] at h
      cases h
    · next hlast => exact hlast

/-- What is let through is out of reach for the carriage return that is held at the end. -/
theorem release_withoutLastReturn (held : Bool) (cs ds : List Char) :
    (release held false cs).1 ++ withoutLastReturn (heldText (release held false cs).2 ++ ds) =
      withoutLastReturn (heldText held ++ (cs ++ ds)) := by
  rw [← List.append_assoc, ← release_append held cs, List.append_assoc]
  by_cases hnil : heldText (release held false cs).2 ++ ds = []
  · have hheld : (release held false cs).2 = false := by
      cases hheld : (release held false cs).2 with
      | false => rfl
      | true =>
          rw [hheld] at hnil
          cases hnil
    rw [hnil, List.append_nil, withoutLastReturn, withoutLastReturn,
      if_neg (getLast?_release hheld)]
    exact List.append_nil _
  · rw [withoutLastReturn_append hnil]

/-! ### What a stream delivers -/

namespace Answers

variable {α β : Type}

theorem text_map (g : α → β) (a : Answers α) : (a.map g).text = a.text.map g := by
  induction a with
  | toEnd answer => cases answer <;> rfl
  | toChunk answer later ih => cases answer with
    | error f => rfl
    | ok delivered => exact (congrArg (delivered.map g ++ ·) ih).trans List.map_append.symm

/-- Characters that are held go in front of what a decoder delivers. If it fails, a carriage
return in front of the failure is lost. -/
theorem charsOf_items (held : Bool) (a : Answers Char) :
    Stream.charsOf (a.items held).1 =
      if a.firstFailure = none then heldText held ++ a.text
      else withoutLastReturn (heldText held ++ a.text) := by
  induction a generalizing held with
  | toEnd answer => cases answer with
    | error f =>
        rw [text, firstFailure, if_neg nofun, List.append_nil, withoutLastReturn_heldText]
        rfl
    | ok cs => rw [items, text, firstFailure, if_pos rfl, Stream.charsOf_map_char, release_whole]
  | toChunk answer later ih => cases answer with
    | error f =>
        rw [text, firstFailure, if_neg nofun, List.append_nil, withoutLastReturn_heldText]
        rfl
    | ok cs =>
        rw [items, text, firstFailure]
        dsimp only
        rw [Stream.charsOf_append, ih]
        split
        · rw [← List.append_assoc, release_append, List.append_assoc]
        · exact release_withoutLastReturn held cs later.text

theorem chars_stream (a : Answers Char) :
    a.stream.chars = if a.firstFailure = none then a.text else withoutLastReturn a.text :=
  charsOf_items false a

end Answers

/-! ### Feeding a chunk -/

theorem feed_of_decodes (hcodec : codecOf? d.charset = some codec)
    (h : Decodes codec d.policy whole (d.kept ++ chunk) cs kept) :
    d.feed whole chunk = (.ok cs, { d with kept }) := by
  rw [feed_of_codecOf whole chunk hcodec, Decoder.settle,
    Codec.decode, h.decodeFrom]
  rfl

theorem feed_of_flawed (hcodec : codecOf? d.charset = some codec) (hp : ¬ d.policy.Repairs)
    (h : Flawed codec whole (d.kept ++ chunk)) :
    ∃ u f, d.policy.repair u = .error f ∧ d.feed whole chunk = (.error f, d) := by
  obtain ⟨f, hdecode⟩ := (exists_error_iff_flawed hp 0).mpr h
  obtain ⟨⟨u, hrepair⟩, -⟩ := exists_repair_of_error hdecode
  exact ⟨u, f, hrepair, by rw [feed_of_codecOf whole chunk hcodec, Decoder.settle, hdecode]⟩

/-! ### Feeding all chunks -/

theorem items_answers_cons (hcodec : codecOf? d.charset = some codec) (held : Bool)
    (h : Decodes codec d.policy false (d.kept ++ chunk) cs kept) (rest : List (List UInt8)) :
    (d.answers (chunk :: rest)).items held =
      ((release held false cs).1.map .char ++
          (({ d with kept } : Decoder).answers rest |>.items (release held false cs).2).1,
        (({ d with kept } : Decoder).answers rest |>.items (release held false cs).2).2) := by
  rw [Decoder.answers_cons (feed_of_decodes hcodec h), Answers.items]

/-- If the octets can be decoded as a whole, the chunks come to the same. -/
theorem items_answers_of_decodes (hcodec : codecOf? d.charset = some codec) (held : Bool)
    (h : Decodes codec d.policy true (d.kept ++ coming.flatten) cs kept) :
    (d.answers coming).items held = ((heldText held ++ cs).map .char, none) := by
  have hs := steady_of_codecOf hcodec
  induction coming generalizing d held cs with
  | nil =>
      rw [List.flatten_nil] at h
      rw [Decoder.answers, feed_of_decodes hcodec h, Answers.items, release_whole]
  | cons chunk rest ih =>
      rw [List.flatten_cons, ← List.append_assoc] at h
      -- A flaw in the octets that have arrived would be one in the whole.
      have hsound : d.policy.Repairs ∨ ¬ Flawed codec false (d.kept ++ chunk) := by
        by_cases hp : d.policy.Repairs
        · exact .inl hp
        · exact .inr fun hflawed => (exists_decodes_iff hp).mp ⟨cs, kept, h⟩ (hflawed.append hs)
      obtain ⟨cs₁, kept₁, h₁⟩ := exists_decodes hsound
      obtain ⟨cs₂, rfl, h₂⟩ := (decodes_append_iff hs h₁).mp h
      have hrest := ih (d := { d with kept := kept₁ }) hcodec (release held false cs₁).2 h₂
      rw [items_answers_cons hcodec held h₁, hrest]
      dsimp only
      rw [← List.map_append, ← List.append_assoc, release_append, List.append_assoc]

/-- Behind the octets so far the next chunk cannot be decoded, or if there is none, what is
left at the end cannot. -/
def FailsNext (codec : Codec) (octets : List UInt8) (coming : List (List UInt8)) : Prop :=
  Flawed codec coming.isEmpty (octets ++ coming.head?.getD [])

/-- The coming chunks are read like the text in front of one that fails, less a carriage return
at its end, and then the policy gives up. -/
def BreaksOff (codec : Codec) (d : Decoder) (held : Bool) (coming : List (List UInt8)) : Prop :=
  ∃ before after cs kept, coming = before ++ after ∧
    Decodes codec d.policy false (d.kept ++ before.flatten) cs kept ∧
    FailsNext codec (d.kept ++ before.flatten) after ∧
    Stream.charsOf ((d.answers coming).items held).1 = withoutLastReturn (heldText held ++ cs) ∧
    ∃ u f, d.policy.repair u = .error f ∧
      Stream.fateOf ((d.answers coming).items held).2 ((d.answers coming).items held).1 = some f

/-- If it is the next that fails, nothing is read, and what is held is lost. -/
theorem breaksOff_of_failsNext (hcodec : codecOf? d.charset = some codec)
    (hp : ¬ d.policy.Repairs) (held : Bool)
    (hkept : Decodes codec d.policy false d.kept [] d.kept) (h : FailsNext codec d.kept coming) :
    BreaksOff codec d held coming := by
  have hnothing : withoutLastReturn (heldText held ++ []) = [] := by
    rw [List.append_nil, withoutLastReturn_heldText]
  refine ⟨[], coming, [], d.kept, rfl, by simpa using hkept, by simpa using h, ?_⟩
  rw [hnothing]
  cases coming with
  | nil =>
      obtain ⟨u, f, hrepair, hfeed⟩ := feed_of_flawed hcodec hp h
      rw [List.head?_nil, Option.getD_none, List.isEmpty_nil] at hfeed
      rw [Decoder.answers, hfeed]
      exact ⟨rfl, u, f, hrepair, rfl⟩
  | cons chunk rest =>
      obtain ⟨u, f, hrepair, hfeed⟩ := feed_of_flawed hcodec hp h
      rw [List.head?_cons, Option.getD_some, List.isEmpty_cons] at hfeed
      rw [Decoder.answers_cons hfeed]
      exact ⟨rfl, u, f, hrepair, rfl⟩

theorem breaksOff_cons (hcodec : codecOf? d.charset = some codec) (hp : ¬ d.policy.Repairs)
    (hchunk : Decodes codec d.policy false (d.kept ++ chunk) cs kept)
    (h : BreaksOff codec { d with kept } (release held false cs).2 rest) :
    BreaksOff codec d held (chunk :: rest) := by
  have hs := steady_of_codecOf hcodec
  obtain ⟨before, after, ds, kept', rfl, hdecodes, hfails, hchars, u, f, hrepair, hfate⟩ := h
  have hoctets : d.kept ++ (chunk :: before).flatten = d.kept ++ chunk ++ before.flatten := by
    rw [List.flatten_cons, List.append_assoc]
  have hitems := items_answers_cons hcodec held hchunk (before ++ after)
  refine ⟨chunk :: before, after, cs ++ ds, kept', rfl, ?_, ?_, ?_, u, f, hrepair, ?_⟩
  · rw [hoctets, decodes_append_iff hs hchunk]
    exact ⟨ds, rfl, hdecodes⟩
  · rw [FailsNext, hoctets, List.append_assoc,
      flawed_append_iff hs hp (hchunk.decodeFrom [] 0), ← List.append_assoc]
    exact hfails
  · rw [hitems, Stream.charsOf_append, hchars, release_withoutLastReturn]
  · rw [hitems, Stream.fateOf_append, hfate]

/-- If the octets cannot be decoded as a whole, reading breaks off somewhere. -/
theorem breaksOff_of_flawed (hcodec : codecOf? d.charset = some codec) (hp : ¬ d.policy.Repairs)
    (held : Bool) (hkept : Decodes codec d.policy false d.kept [] d.kept)
    (h : Flawed codec true (d.kept ++ coming.flatten)) : BreaksOff codec d held coming := by
  induction coming generalizing d held with
  | nil => exact breaksOff_of_failsNext hcodec hp held hkept h
  | cons chunk rest ih =>
      by_cases hfails : FailsNext codec d.kept (chunk :: rest)
      · exact breaksOff_of_failsNext hcodec hp held hkept hfails
      · obtain ⟨cs, kept, hchunk⟩ : ∃ cs kept,
            Decodes codec d.policy false (d.kept ++ chunk) cs kept :=
          exists_decodes (.inr hfails)
        rw [List.flatten_cons, ← List.append_assoc,
          flawed_append_iff (steady_of_codecOf hcodec) hp (hchunk.decodeFrom [] 0)] at h
        exact breaksOff_cons hcodec hp hchunk
          (ih (d := { d with kept }) hcodec hp _ hchunk.of_kept h)

/-! ### The text of a file -/

theorem fileText_of_decodes (hcodec : codecOf? charset = some codec)
    (h : Decodes codec policy true octets cs kept) :
    fileText charset policy octets = .ofChars cs := by
  have hitems := items_answers_of_decodes (d := { charset, policy }) hcodec false
    (by rwa [List.nil_append, flatten_chunks])
  rw [fileText, Answers.stream, hitems]
  rfl

/-- A file with a flaw is read like the text in front of the chunk that fails, less a carriage
return at its end, and then the reading fails. -/
theorem fileText_of_flawed (hcodec : codecOf? charset = some codec) (hp : ¬ policy.Repairs)
    (h : Flawed codec true octets) :
    ∃ before after cs kept, chunks octets = before ++ after ∧
      Decodes codec policy false before.flatten cs kept ∧
      FailsNext codec before.flatten after ∧
      (fileText charset policy octets).chars = withoutLastReturn cs ∧
      ∃ u f, policy.repair u = .error f ∧ (fileText charset policy octets).fate = some f :=
  breaksOff_of_flawed (d := { charset, policy }) hcodec hp false .nil
    (by rwa [List.nil_append, flatten_chunks])

end KayLex.Encoding
