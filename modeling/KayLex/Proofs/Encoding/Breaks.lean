import KayLex.Encoding.Reader
import KayLex.Proofs.Encoding.FirstFailure

/-!
Which files break a reader. A failure counts as the end of the input unless the policy
is one for characters, which fails at the first ill-formed run, or the encoding wants
a mark that is not there. `Breaks` says of the octets alone when that happens; the
cuts between the chunks show in a single case, where a mark is missing and the policy
is strict.
-/

namespace KayLex.Encoding

open Codec

variable {d : Decoder} {charset : Charset} {codec : Codec} {policy : Policy} {whole : Bool}
  {octets kept : List UInt8} {rest : List (List UInt8)}

/-! ### UTF-8 behind an optional mark -/

def behindMark (octets : List UInt8) : List UInt8 :=
  if Utf8.mark.isPrefixOf octets then octets.drop Utf8.mark.length else octets

theorem feed_utf8Marked (policy : Policy) (whole : Bool) (kept chunk : List UInt8) :
    ({ charset := .utf8Marked, policy, kept } : Decoder).feed whole chunk =
      Decoder.optionallyMarked { charset := .utf8Marked, policy, kept } whole (kept ++ chunk) := rfl

/-- What could still become a mark is no failure, also at the end. -/
theorem quiet_of_prefix_mark (policy : Policy) (h : kept <+: Utf8.mark)
    (hmark : ¬ Utf8.mark <+: kept) :
    Decoder.Quiet { charset := .utf8Marked, policy, kept } [] := by
  rw [← List.isPrefixOf_iff_prefix] at h hmark
  have hfeed := feed_utf8Marked policy true kept []
  rw [List.append_nil, Decoder.optionallyMarked, if_neg hmark, if_pos h] at hfeed
  exact Decoder.quiet_of_none (Decoder.firstFailure_end_of_ok hfeed)

theorem quiet_utf8Marked (octets : List UInt8) :
    Decoder.Quiet { charset := .utf8Marked, policy } (chunks octets) ↔
      ¬ (policy.Foreign ∧ ¬ octets <+: Utf8.mark ∧
        Flawed Utf8.codec true (behindMark octets)) := by
  have hrest (rest : List (List UInt8)) (kept : List UInt8) :
      Decoder.Quiet { charset := .utf8, policy, kept } rest ↔
        ¬ (policy.Foreign ∧ Flawed Utf8.codec true (kept ++ rest.flatten)) :=
    quiet_of_codecOf rfl
  have hlength : Utf8.mark.length ≤ chunkSize := by decide
  by_cases hne : octets = []
  · rw [hne, chunks]
    apply iff_of_true (quiet_of_prefix_mark policy List.nil_prefix (by decide))
    rintro ⟨-, hprefix, -⟩
    exact hprefix List.nil_prefix
  have hfeed := feed_utf8Marked policy false [] (octets.take chunkSize)
  rw [List.nil_append, Decoder.optionallyMarked] at hfeed
  rw [chunks_of_ne_nil hne, behindMark]
  by_cases hmark : Utf8.mark <+: octets
  · -- The whole mark stands in the first chunk, and the search for it is over.
    have hchunk := (prefix_take_chunk hlength).mpr hmark
    rw [if_pos (List.isPrefixOf_iff_prefix.mpr hchunk)] at hfeed
    rw [quiet_of_settle rfl hfeed (hrest _), drop_take_append hchunk.length_le,
      if_pos (List.isPrefixOf_iff_prefix.mpr hmark)]
    have himp : Flawed Utf8.codec true (octets.drop Utf8.mark.length) →
        ¬ octets <+: Utf8.mark := by
      intro hflawed hprefix
      rw [List.drop_of_length_le hprefix.length_le] at hflawed
      exact not_flawed_nil hflawed
    rw [and_iff_right_of_imp himp]
  · have hchunk := mt (prefix_take_chunk hlength).mp hmark
    rw [if_neg (mt List.isPrefixOf_iff_prefix.mp hchunk)] at hfeed
    rw [if_neg (mt List.isPrefixOf_iff_prefix.mp hmark)]
    by_cases hprefix : octets <+: Utf8.mark
    · -- The file is no more than the beginning of a mark.
      obtain ⟨htake, hdrop⟩ := take_chunk_of_length_le (Nat.le_trans hprefix.length_le hlength)
      rw [htake, if_pos (List.isPrefixOf_iff_prefix.mpr hprefix)] at hfeed
      rw [htake, hdrop]
      refine iff_of_true ?_ (fun h => h.2.1 hprefix)
      exact (Decoder.quiet_of_ok hfeed).mpr (quiet_of_prefix_mark policy hprefix hmark)
    · have hfront : ¬ octets.take chunkSize <+: Utf8.mark := by
        intro h
        have hshort := h.length_le
        have hmarkLength : Utf8.mark.length = 3 := rfl
        rw [List.length_take, chunkSize] at hshort
        rw [(take_chunk_of_length_le (by rw [chunkSize]; omega)).1] at h
        exact hprefix h
      rw [if_neg (mt List.isPrefixOf_iff_prefix.mp hfront)] at hfeed
      rw [quiet_of_settle rfl hfeed (hrest _), flatten_chunks, List.take_append_drop,
        and_iff_right hprefix]

/-! ### Encodings whose order a mark tells -/

/-- What has to be known of an encoding whose order a mark tells. -/
structure Marking (title : String) (width : Nat) (mark : Order → List UInt8)
    (charset : Order → Charset) (codec : Order → Codec) : Prop where
  length_mark : ∀ o, (mark o).length = width
  codecOf : ∀ o, codecOf? (charset o) = some (codec o)
  wide : Wide (codec .little) width
  pos : 0 < width
  small : width ≤ 4

/-- Octets without a mark break a reader that wants one. A foreign policy fails on anything,
and a policy that repairs lets the missing mark show as soon as there is one unit; the strict
policy does so only if the first chunk begins with a character and has no flaw. -/
def BreaksUnmarked (width : Nat) (codec : Codec) (policy : Policy) (octets : List UInt8) : Prop :=
  match policy with
  | .reference | .named => octets ≠ []
  | .replace | .ignore | .escape => width ≤ octets.length
  | .strict =>
    ∃ octet rest c more, octets.take chunkSize = octet :: rest ∧
      codec.front false octet rest = .char c more ∧ ¬ Flawed codec false (octet :: rest)

theorem exists_cons_of_chunk (h : octets ≠ []) :
    ∃ octet behind, octets.take chunkSize = octet :: behind := by
  cases octets with
  | nil => exact absurd rfl h
  | cons octet rest => exact ⟨octet, rest.take (chunkSize - 1), rfl⟩

theorem take_chunk_of_short {octet : UInt8} {behind : List UInt8}
    (htake : octets.take chunkSize = octet :: behind) (hshort : behind.length < 3) :
    octets = octet :: behind ∧ chunks (octets.drop chunkSize) = [] := by
  have hlength := List.length_take (i := chunkSize) (l := octets)
  rw [htake, List.length_cons, chunkSize] at hlength
  have hle : octets.length ≤ chunkSize := by
    rw [chunkSize]
    omega
  obtain ⟨hall, hrest⟩ := take_chunk_of_length_le hle
  exact ⟨hall.symm.trans htake, hrest⟩

theorem breaksUnmarked_of_unfinished {width : Nat} {octet : UInt8} {behind : List UInt8}
    (htake : octets.take chunkSize = octet :: behind) (hall : octets = octet :: behind)
    (hfront : codec.front false octet behind = .unfinished) :
    (policy = .strict ∨ policy.Repairs ∧ ¬ width ≤ behind.length + 1) ↔
      ¬ BreaksUnmarked width codec policy octets := by
  cases policy with
  | strict =>
      refine iff_of_true (.inl rfl) ?_
      rintro ⟨_, _, c, more, htake', hchar, -⟩
      rw [htake] at htake'
      cases htake'
      rw [hfront] at hchar
      cases hchar
  | reference | named =>
      refine iff_of_false (by simp [Policy.Repairs]) (not_not_intro ?_)
      rw [hall]
      exact List.cons_ne_nil _ _
  | replace | ignore | escape => simp [BreaksUnmarked, Policy.Repairs, hall]

theorem breaksUnmarked_of_settled {width more : Nat} {octet : UInt8} {behind : List UInt8}
    (hw : Wide codec width) (hs : Steady codec) (htake : octets.take chunkSize = octet :: behind)
    (hmore : (codec.front false octet behind).more? = some more) :
    (policy = .strict ∧ Flawed codec false (octet :: behind)) ↔
      ¬ BreaksUnmarked width codec policy octets := by
  have hwidth : width ≤ octets.length := by
    have hunit := hw.unit hmore
    have htakes := hs.takes hmore
    have hlength := List.length_take (i := chunkSize) (l := octets)
    rw [htake, List.length_cons] at hlength
    omega
  have hne : octets ≠ [] := by
    rintro rfl
    cases htake
  cases policy with
  | strict =>
      by_cases hflawed : Flawed codec false (octet :: behind)
      · refine iff_of_true ⟨rfl, hflawed⟩ ?_
        rintro ⟨_, _, _, _, htake', -, hnot⟩
        rw [htake] at htake'
        cases htake'
        exact hnot hflawed
      · refine iff_of_false (fun h => hflawed h.2) (not_not_intro ?_)
        cases hfront : codec.front false octet behind with
        | char c more => exact ⟨octet, behind, c, more, htake, hfront, hflawed⟩
        | flaw more reason => exact absurd (.here hfront) hflawed
        | unfinished =>
            rw [hfront] at hmore
            cases hmore
  | reference | named => exact iff_of_false (by simp) (not_not_intro hne)
  | replace | ignore | escape => exact iff_of_false (by simp) (not_not_intro hwidth)

/-- Octets break a reader in an encoding whose order a mark tells. -/
def BreaksMarked (width : Nat) (mark : Order → List UInt8) (codec : Order → Codec)
    (policy : Policy) (octets : List UInt8) : Prop :=
  if (mark .little).isPrefixOf octets then
    policy.Foreign ∧ Flawed (codec .little) true (octets.drop width)
  else if (mark .big).isPrefixOf octets then
    policy.Foreign ∧ Flawed (codec .big) true (octets.drop width)
  else BreaksUnmarked width (codec .little) policy octets

section Marked

variable {title : String} {width : Nat} {mark : Order → List UInt8}
  {charsetOf : Order → Charset} {codec : Order → Codec}

theorem marked_of_no_mark (hlittle : ¬ (mark .little).isPrefixOf octets = true)
    (hbig : ¬ (mark .big).isPrefixOf octets = true) :
    d.marked title width mark charsetOf codec whole octets =
      match (codec .little).decodeFrom d.policy whole [] 0 octets with
      | .error f => (.error f, d)
      | .ok decoded =>
        if decoded.kept.length + width ≤ octets.length then
          (.error (.misencoded s!"{title} stream does not start with BOM"), d)
        else (.ok decoded.chars, { d with kept := decoded.kept }) := by
  rw [Decoder.marked, if_neg hlittle, if_neg hbig]
  rfl

variable (hm : Marking title width mark charsetOf codec)
include hm

theorem Marking.prefix_take (o : Order) :
    (mark o).isPrefixOf (octets.take chunkSize) = (mark o).isPrefixOf octets := by
  have hlength := hm.length_mark o
  have hsmall := hm.small
  rw [Bool.eq_iff_iff, List.isPrefixOf_iff_prefix, List.isPrefixOf_iff_prefix,
    prefix_take_chunk (by rw [chunkSize]; omega)]

theorem Marking.ne_nil {o : Order} (h : (mark o).isPrefixOf octets = true) : octets ≠ [] := by
  rintro rfl
  have hlength := (List.isPrefixOf_iff_prefix.mp h).length_le
  rw [hm.length_mark, List.length_nil] at hlength
  exact Nat.not_le_of_lt hm.pos hlength

theorem quiet_of_mark {o : Order} (hmark : (mark o).isPrefixOf octets = true)
    (hchunk : ({ charset, policy } : Decoder).feed false (octets.take chunkSize) =
      Decoder.settle { charset, policy } (charsetOf o) (codec o) false width
        ((octets.take chunkSize).drop width) { charset, policy }) :
    Decoder.Quiet { charset, policy } (chunks octets) ↔
      ¬ (policy.Foreign ∧ Flawed (codec o) true (octets.drop width)) := by
  have hfront := List.isPrefixOf_iff_prefix.mp ((hm.prefix_take o).trans hmark)
  have hlength := hfront.length_le
  rw [hm.length_mark] at hlength
  rw [chunks_of_ne_nil (hm.ne_nil hmark), quiet_of_settle (hm.codecOf o) hchunk
    fun kept => quiet_of_codecOf (hm.codecOf o), drop_take_append hlength]

variable (hfeed : ∀ whole kept chunk, ({ charset, policy, kept } : Decoder).feed whole chunk =
    Decoder.marked { charset, policy, kept } title width mark charsetOf codec whole (kept ++ chunk))
include hfeed

/-- Without a mark, and with an answer at the front of the first chunk: nothing counts as the
end of the input but a flaw that the strict policy meets. -/
theorem quiet_of_settled_front {octet : UInt8} {behind : List UInt8} {more : Nat}
    (hlittle : ¬ (mark .little).isPrefixOf (octet :: behind) = true)
    (hbig : ¬ (mark .big).isPrefixOf (octet :: behind) = true)
    (hmore : ((codec .little).front false octet behind).more? = some more) :
    Decoder.Quiet { charset, policy } ((octet :: behind) :: rest) ↔
      policy = .strict ∧ Flawed (codec .little) false (octet :: behind) := by
  have hchunk := hfeed false [] (octet :: behind)
  rw [List.nil_append, marked_of_no_mark hlittle hbig] at hchunk
  cases hdecode : (codec .little).decodeFrom policy false [] 0 (octet :: behind) with
  | error f =>
      obtain ⟨⟨u, hrepair⟩, hflawed⟩ := exists_repair_of_error hdecode
      rw [hdecode] at hchunk
      rw [Decoder.quiet_iff_of_error (Decoder.firstFailure_of_error hchunk),
        Policy.endsInput_of_repair hrepair, Policy.strict_iff_of_repair hrepair,
        and_iff_left hflawed]
  | ok decoded =>
      have hkept := length_kept_le_of_more hmore hdecode
      have hunit := hm.wide.unit hmore
      have htakes := (steady_of_codecOf (hm.codecOf .little)).takes hmore
      have htaken : decoded.kept.length + width ≤ (octet :: behind).length := by
        rw [List.length_cons]
        omega
      rw [hdecode] at hchunk
      dsimp only at hchunk
      rw [if_pos htaken] at hchunk
      rw [Decoder.quiet_iff_of_error (Decoder.firstFailure_of_error hchunk)]
      apply iff_of_false Bool.false_ne_true
      rintro ⟨hstrict, hflawed⟩
      exact not_flawed_of_ok (by rw [hstrict]; simp [Policy.Repairs]) hdecode hflawed

/-- Without a mark, and with an unfinished front: the end of the input settles it. -/
theorem quiet_of_unfinished_front {octet : UInt8} {behind : List UInt8}
    (hlittle : ¬ (mark .little).isPrefixOf (octet :: behind) = true)
    (hbig : ¬ (mark .big).isPrefixOf (octet :: behind) = true)
    (hfront : (codec .little).front false octet behind = .unfinished) :
    Decoder.Quiet { charset, policy } [octet :: behind] ↔
      policy = .strict ∨ policy.Repairs ∧ ¬ width ≤ behind.length + 1 := by
  obtain ⟨-, reason, hflaw⟩ := hm.wide.unfinished hfront
  have hpos := hm.pos
  have hchunk := hfeed false [] (octet :: behind)
  rw [List.nil_append, marked_of_no_mark hlittle hbig, decodeFrom_unfinished hfront] at hchunk
  dsimp only at hchunk
  rw [if_neg (by omega)] at hchunk
  have hend := hfeed true (octet :: behind) []
  rw [List.append_nil, marked_of_no_mark hlittle hbig, decodeFrom_flaw hflaw,
    List.drop_length] at hend
  dsimp only at hend
  rw [Decoder.quiet_of_ok hchunk]
  cases hrepair : policy.repair ⟨(codec .little).name, octet :: behind.take behind.length, 0,
      reason.text⟩ with
  | error f =>
      rw [hrepair] at hend
      have hgives : ¬ policy.Repairs := by
        intro hp
        obtain ⟨cs, hcs⟩ := Policy.exists_repair hp _
        rw [hrepair] at hcs
        cases hcs
      rw [Decoder.quiet_iff_of_error (Decoder.firstFailure_end_of_error hend),
        Policy.endsInput_of_repair hrepair, ← Policy.strict_iff_of_repair hrepair]
      simp [hgives]
  | ok cs =>
      have hrepairs := Policy.repairs_of_repair hrepair
      have hstrict : policy ≠ .strict := by
        rintro rfl
        simp [Policy.Repairs] at hrepairs
      rw [hrepair] at hend
      dsimp only at hend
      rw [decodeFrom_nil] at hend
      dsimp only at hend
      rw [List.length_nil, Nat.zero_add, List.length_cons] at hend
      split at hend
      · next hle =>
        rw [Decoder.quiet_iff_of_error (Decoder.firstFailure_end_of_error hend)]
        simp [hstrict, hle, Failure.endsInput]
      · next hle =>
        refine iff_of_true (Decoder.quiet_of_none (Decoder.firstFailure_end_of_ok hend)) ?_
        exact .inr ⟨hrepairs, hle⟩

theorem quiet_of_no_mark (hlittle : ¬ (mark .little).isPrefixOf octets = true)
    (hbig : ¬ (mark .big).isPrefixOf octets = true) :
    Decoder.Quiet { charset, policy } (chunks octets) ↔
      ¬ BreaksUnmarked width (codec .little) policy octets := by
  by_cases hne : octets = []
  · have hpos := hm.pos
    have hend := hfeed true [] []
    subst hne
    rw [List.append_nil, marked_of_no_mark hlittle hbig, decodeFrom_nil] at hend
    dsimp only at hend
    rw [if_neg (by rw [List.length_nil]; omega)] at hend
    rw [chunks]
    apply iff_of_true (Decoder.quiet_of_none (Decoder.firstFailure_end_of_ok hend))
    cases policy <;> simp [BreaksUnmarked, Nat.ne_of_gt hpos]
  obtain ⟨octet, behind, htake⟩ := exists_cons_of_chunk hne
  rw [← hm.prefix_take, htake] at hlittle hbig
  rw [chunks_of_ne_nil hne, htake]
  cases hfront : (codec .little).front false octet behind with
  | unfinished =>
      obtain ⟨hall, hrest⟩ := take_chunk_of_short htake (hm.wide.unfinished hfront).1
      rw [hrest, quiet_of_unfinished_front hm hfeed hlittle hbig hfront,
        breaksUnmarked_of_unfinished htake hall hfront]
  | char c more =>
      have hmore : ((codec .little).front false octet behind).more? = some more := by
        rw [hfront, Front.more?]
      rw [quiet_of_settled_front hm hfeed hlittle hbig hmore,
        breaksUnmarked_of_settled hm.wide (steady_of_codecOf (hm.codecOf .little)) htake hmore]
  | flaw more reason =>
      have hmore : ((codec .little).front false octet behind).more? = some more := by
        rw [hfront, Front.more?]
      rw [quiet_of_settled_front hm hfeed hlittle hbig hmore,
        breaksUnmarked_of_settled hm.wide (steady_of_codecOf (hm.codecOf .little)) htake hmore]

theorem quiet_marked (octets : List UInt8) :
    Decoder.Quiet { charset, policy } (chunks octets) ↔
      ¬ BreaksMarked width mark codec policy octets := by
  have hchunk := hfeed false [] (octets.take chunkSize)
  rw [List.nil_append, Decoder.marked, hm.prefix_take, hm.prefix_take] at hchunk
  rw [BreaksMarked]
  split
  · next hlittle =>
    rw [if_pos hlittle] at hchunk
    exact quiet_of_mark hm hlittle hchunk
  · next hlittle =>
    rw [if_neg hlittle] at hchunk
    split
    · next hbig =>
      rw [if_pos hbig] at hchunk
      exact quiet_of_mark hm hbig hchunk
    · next hbig => exact quiet_of_no_mark hm hfeed hlittle hbig

end Marked

/-! ### Every encoding -/

def orderedUtf16 : Order → Charset
  | .little => .utf16Little
  | .big => .utf16Big

def orderedUtf32 : Order → Charset
  | .little => .utf32Little
  | .big => .utf32Big

theorem marking_utf16 : Marking "UTF-16" 2 Utf16.mark orderedUtf16 Utf16.codec := by
  refine ⟨?_, ?_, (Utf16.steady_and_wide_codec _).2, by omega, by omega⟩
  · rintro (_ | _) <;> rfl
  · rintro (_ | _) <;> rfl

theorem marking_utf32 : Marking "UTF-32" 4 Utf32.mark orderedUtf32 Utf32.codec := by
  refine ⟨?_, ?_, (Utf32.steady_and_wide_codec _).2, by omega, by omega⟩
  · rintro (_ | _) <;> rfl
  · rintro (_ | _) <;> rfl

/-- The octets of a file break a reader: what is met first among them, or at their end, is a
failure that does not count as the end of the input. -/
def Breaks (charset : Charset) (policy : Policy) (octets : List UInt8) : Prop :=
  match charset with
  | .unreadable => True
  | .utf16 => BreaksMarked 2 Utf16.mark Utf16.codec policy octets
  | .utf32 => BreaksMarked 4 Utf32.mark Utf32.codec policy octets
  | .utf8Marked =>
    policy.Foreign ∧ ¬ octets <+: Utf8.mark ∧ Flawed Utf8.codec true (behindMark octets)
  | charset => ∃ codec, codecOf? charset = some codec ∧ policy.Foreign ∧ Flawed codec true octets

/-- Reading a file gets to its end, or to what counts as that, unless its octets break it. -/
theorem quiet_fileText_iff :
    (fileText charset policy octets).Quiet ↔ ¬ Breaks charset policy octets := by
  rw [quiet_fileText]
  have hplain {codec : Codec} (hcodec : codecOf? charset = some codec) :
      Decoder.Quiet { charset, policy } (chunks octets) ↔
        ¬ ∃ codec, codecOf? charset = some codec ∧ policy.Foreign ∧ Flawed codec true octets := by
    rw [quiet_of_codecOf hcodec, flatten_chunks, hcodec]
    simp
  cases charset with
  | utf8 | latin1 | ascii | windows1252 | utf16Little | utf16Big | utf32Little | utf32Big =>
      exact hplain rfl
  | utf8Marked => exact quiet_utf8Marked octets
  | utf16 => exact quiet_marked marking_utf16 (fun whole kept chunk => rfl) octets
  | utf32 => exact quiet_marked marking_utf32 (fun whole kept chunk => rfl) octets
  | unreadable =>
      have hfirst : Decoder.firstFailure { charset := .unreadable, policy } (chunks octets) =
          some (.misencoded "undefined encoding") := by
        cases chunks octets with
        | nil => exact Decoder.firstFailure_end_of_error rfl
        | cons chunk rest => exact Decoder.firstFailure_of_error rfl
      rw [Decoder.quiet_iff_of_error hfirst]
      exact iff_of_false Bool.false_ne_true (not_not_intro trivial)

/-- The octets of a file break a reader. Of a decoder that is not described here, nothing tells
but its answers. -/
def Reader.Breaks : Reader → List UInt8 → Prop
  | described charset policy, octets => Encoding.Breaks charset policy octets
  | foreign decoder, octets =>
    ∃ f, (decoder.answers octets).firstFailure = some f ∧ f.endsInput = false

theorem Reader.closing_stream (reader : Reader) {octets : List UInt8} :
    (reader.stream octets).closing = none := by
  cases reader <;> rfl

theorem Reader.quiet_stream_iff (reader : Reader) (octets : List UInt8) :
    (reader.stream octets).Quiet ↔ ¬ reader.Breaks octets := by
  cases reader with
  | described charset policy => exact quiet_fileText_iff
  | foreign decoder =>
      rw [stream, Answers.quiet_stream, Answers.Quiet, Answers.firstFailure_map, Breaks]
      simp only [not_exists, not_and, Bool.not_eq_false]

end KayLex.Encoding
