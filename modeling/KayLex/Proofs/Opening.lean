import KayLex.Opening
import KayLex.Proofs.Encoding.Breaks
import KayLex.Proofs.Scanner.Doomed
import KayLex.Proofs.Tokenize

/-!
What comes of opening a file. A scan of a file should fail in one way only, which is
that the source is unavailable; everything that can go wrong later should count as
the end of the input. `Escapes` says exactly when that is not so: a name holds a null
character, or the octets of the file break the reader that its names ask for.

For the encodings and policies that are described here, the octets tell when they
break a reader: the policy is one for characters and there is an ill-formed run, or
the encoding wants a mark that is missing. Any other decoder may fail as it likes.
-/

namespace KayLex

open Encoding

variable {look : String → Place} {path : String} {o : Options} {codecs : Codecs}

/-- The ways in which more than an unavailable source reaches the caller. -/
inductive Escapes (look : String → Place) (path : String) (o : Options) (codecs : Codecs) :
    Prop where
  /-- The name of the policy cannot even be looked up. -/
  | policyName (h : nul ∈ o.policy.toList)
  /-- The policy is known, but another name is a bad value. -/
  | names (hpolicy : Policy.isKnown o.policy = true)
      (h : nul ∈ o.encoding.toList ∨ nul ∈ path.toList)
  /-- There is a file, and its octets break the reader. -/
  | octets {reader : Reader} {octets : List UInt8} (hpolicy : Policy.isKnown o.policy = true)
      (hplace : look path = .file octets)
      (hreader : Reader.ofNames codecs o.encoding o.policy = .text reader)
      (h : reader.Breaks octets)

/-! ### What there is to open -/

namespace Opening

theorem file_of_policy_nul (h : nul ∈ o.policy.toList) :
    ∃ f, file look path o codecs = .error (.failed f) := by
  rw [file, checkName, if_pos h]
  exact ⟨_, rfl⟩

theorem file_congr {codecs' : Codecs} (h : Reader.ofNames codecs o.encoding o.policy =
    Reader.ofNames codecs' o.encoding o.policy) :
    file look path o codecs = file look path o codecs' := by
  simp only [file, reader, h]

section Checked

variable (hname : nul ∉ o.policy.toList)
include hname

theorem file_of_unknown_policy (h : Policy.isKnown o.policy = false) :
    file look path o codecs = .error (.blocked path (.unknownPolicy o.policy)) := by
  rw [file, checkName, if_neg hname, checkPolicy, h]
  rfl

variable (hpolicy : Policy.isKnown o.policy = true)
include hpolicy

theorem file_of_nul (h : nul ∈ o.encoding.toList ∨ nul ∈ path.toList) :
    ∃ f, file look path o codecs = .error (.failed f) := by
  rw [file, checkName, if_neg hname, checkPolicy, if_pos hpolicy, checkName]
  by_cases hencoding : nul ∈ o.encoding.toList
  · rw [if_pos hencoding]
    exact ⟨_, rfl⟩
  · rw [if_neg hencoding, checkName, if_pos (h.resolve_left hencoding)]
    exact ⟨_, rfl⟩

theorem file_of_names (h : ¬ (nul ∈ o.encoding.toList ∨ nul ∈ path.toList)) :
    file look path o codecs = do
      let octets ← octets look path
      let reader ← reader path o codecs
      return (reader, octets) := by
  rw [not_or] at h
  rw [file, checkName, if_neg hname, checkPolicy, if_pos hpolicy, checkName, if_neg h.1,
    checkName, if_neg h.2]
  rfl

end Checked

/-- The three ways that opening goes: there is an obstacle, or a name is a bad value, or
there are octets to be read, and then these decide. -/
theorem file_cases (look : String → Place) (path : String) (o : Options) (codecs : Codecs) :
    (∃ obstacle, file look path o codecs = .error (.blocked path obstacle)) ∧
        ¬ Escapes look path o codecs ∨
      (∃ f, file look path o codecs = .error (.failed f)) ∧ Escapes look path o codecs ∨
      ∃ reader octets, file look path o codecs = .ok (reader, octets) ∧
        Reader.ofNames codecs o.encoding o.policy = .text reader ∧
        (Escapes look path o codecs ↔ reader.Breaks octets) := by
  by_cases hname : nul ∈ o.policy.toList
  · exact .inr (.inl ⟨file_of_policy_nul hname, .policyName hname⟩)
  cases hpolicy : Policy.isKnown o.policy with
  | false =>
      refine .inl ⟨⟨_, file_of_unknown_policy hname hpolicy⟩, ?_⟩
      rintro (h | ⟨h, -⟩ | ⟨h, -⟩)
      · exact hname h
      · rw [hpolicy] at h
        cases h
      · rw [hpolicy] at h
        cases h
  | true =>
      by_cases hnames : nul ∈ o.encoding.toList ∨ nul ∈ path.toList
      · exact .inr (.inl ⟨file_of_nul hname hpolicy hnames, .names hpolicy hnames⟩)
      have hescapes : Escapes look path o codecs ↔ ∃ octets reader, look path = .file octets ∧
          Reader.ofNames codecs o.encoding o.policy = .text reader ∧ reader.Breaks octets := by
        constructor
        · rintro (h | ⟨-, h⟩ | ⟨-, hplace, hreader, h⟩)
          · exact absurd h hname
          · exact absurd h hnames
          · exact ⟨_, _, hplace, hreader, h⟩
        · rintro ⟨octets, reader, hplace, hreader, h⟩
          exact .octets hpolicy hplace hreader h
      rw [file_of_names hname hpolicy hnames, hescapes, octets]
      cases hplace : look path with
      | missing | folder | behindFile | overlong => exact .inl ⟨⟨_, rfl⟩, by simp⟩
      | file octets =>
          rw [reader]
          cases hreader : Reader.ofNames codecs o.encoding o.policy with
          | notText | unknown => exact .inl ⟨⟨_, rfl⟩, by simp⟩
          | text reader => exact .inr (.inr ⟨reader, octets, rfl, rfl, by simp⟩)

theorem stream_of_file_ok {reader : Reader} {octets : List UInt8}
    (h : file look path o codecs = .ok (reader, octets)) :
    stream look path o codecs = .ok (reader.stream octets) := by
  rw [stream, h]
  rfl

theorem surrogates_of_described {charset : Charset} {policy : Policy}
    (h : Reader.ofNames codecs o.encoding o.policy = .text (.described charset policy)) :
    surrogates look path o codecs = [] := by
  rw [surrogates]
  rcases file_cases look path o codecs with
    ⟨⟨obstacle, hfile⟩, -⟩ | ⟨⟨f, hfile⟩, -⟩ | ⟨reader, octets, hfile, hreader, -⟩
  · rw [hfile]
  · rw [hfile]
  · rw [h] at hreader
    cases hreader
    rw [hfile]
    rfl

theorem stream_of_file_error {refusal : Refusal} (h : file look path o codecs = .error refusal) :
    stream look path o codecs = .error refusal := by
  rw [stream, h]
  rfl

end Opening

/-! ### What comes of a stream -/

namespace Scanner

open Cursor

variable {stream : Stream}

theorem ofFile_of_file_error {refusal : Refusal}
    (h : Opening.file look path o codecs = .error refusal) :
    ofFile look path o codecs = .error refusal := by
  rw [ofFile, Opening.stream_of_file_error h]
  rfl

theorem ofFile_of_start {k : Cursor} (hstream : Opening.stream look path o codecs = .ok stream)
    (hstart : start path stream true = .ok k) :
    ofFile look path o codecs = .ok ⟨k.note (.opened path o.encoding), false, 0⟩ := by
  simp only [ofFile, hstream, bind, Except.bind, hstart]
  rfl

theorem ofFile_of_start_error {f : Failure}
    (hstream : Opening.stream look path o codecs = .ok stream)
    (hstart : start path stream true = .error f) :
    ofFile look path o codecs = .error (.failed f) := by
  simp only [ofFile, hstream, bind, Except.bind, hstart]
  rfl

theorem ofFile_of_quiet (hstream : Opening.stream look path o codecs = .ok stream)
    (hclosing : stream.closing = none) (hquiet : stream.Quiet) :
    ∃ s more last, ofFile look path o codecs = .ok s ∧ Pending s more last := by
  obtain ⟨k, hload, hk, -⟩ :=
    load_of_chars (k := { name := path, stream, owned := true }) rfl rfl hquiet
  have hstart : start path stream true = .ok k := by rw [start, hload]
  have hkclosing : k.stream.closing = none := (frame_of_load hload).closing_eq.trans hclosing
  refine ⟨⟨k.note (.opened path o.encoding), false, 0⟩, _, _, ofFile_of_start hstream hstart,
    ⟨⟨stream.chars, Ahead.note hk _, rfl⟩, ?_⟩, fun _ => hkclosing⟩
  intro h
  cases h

/-- A file whose reading meets a failure that does not count as the end cannot be scanned: either
it is not even opened, or the scan fails. -/
theorem ofFile_of_fate {f : Failure} (hstream : Opening.stream look path o codecs = .ok stream)
    (hfate : stream.fate = some f) (hescapes : f.endsInput = false) :
    ofFile look path o codecs = .error (.failed f) ∨
      ∃ s, ofFile look path o codecs = .ok s ∧ s.drain.all = .error f := by
  rcases load_of_fate (k := { name := path, stream, owned := true }) rfl hfate hescapes with
    ⟨k, hload, hk, -⟩ | ⟨⟨k, hload⟩, -⟩
  · have hstart : start path stream true = .ok k := by rw [start, hload]
    refine .inr ⟨_, ofFile_of_start hstream hstart, ?_⟩
    have hdoomed : (k.note (.opened path o.encoding)).Doomed f :=
      ⟨hk.isOpen, hk.current, hk.fate, hk.escapes⟩
    rw [Drained.all, drain, drainFrom_of_doomed [] rfl hdoomed]
    rfl
  · have hstart : start path stream true = .error f := by rw [start, hload]
    exact .inl (ofFile_of_start_error hstream hstart)

end Scanner

/-! ### What reaches the caller -/

/-- Nothing reaches the caller but that the source is unavailable: otherwise the file can be
scanned, up to the one token that marks its end, and no call of `next` ever fails. -/
def Contained (look : String → Place) (path : String) (o : Options) (codecs : Codecs) : Prop :=
  (∃ obstacle, Scanner.ofFile look path o codecs = .error (.blocked path obstacle)) ∨
    ∃ s, Scanner.ofFile look path o codecs = .ok s ∧
      (∃ found last, s.drain.all = .ok (found ++ [last]) ∧ last.isEnd = true ∧
        ∀ t ∈ found, t.isEnd = false) ∧
      ∀ n, ∀ reply ∈ (Session.serveAll (.replicate n .next) { scanner := s }).1,
        ∃ a, reply = .ok a

theorem contained_of_pending {s : Scanner} {more : List Found} {last : Position}
    (hfile : Scanner.ofFile look path o codecs = .ok s) (h : s.Pending more last) :
    Contained look path o codecs := by
  obtain ⟨s', hdrain, -⟩ := Scanner.drain_of_pending h
  refine .inr ⟨s, hfile, ⟨_, _, by rw [hdrain]; rfl, Token.isEnd_sentinel .., ?_⟩, ?_⟩
  · intro t ht
    obtain ⟨x, hx, rfl⟩ := List.mem_map.mp ht
    exact h.isEnd_token hx _
  · intro n reply hreply
    have hnext := Session.serveAll_next_of_pending (s := { scanner := s }) n h rfl rfl
    rw [hnext] at hreply
    obtain ⟨t, -, rfl⟩ := List.mem_map.mp hreply
    exact ⟨_, rfl⟩

theorem contained_of_not_escapes (h : ¬ Escapes look path o codecs) :
    Contained look path o codecs := by
  rcases Opening.file_cases look path o codecs with
    ⟨⟨obstacle, hfile⟩, -⟩ | ⟨-, hescapes⟩ | ⟨reader, octets, hfile, -, hescapes⟩
  · exact .inl ⟨obstacle, Scanner.ofFile_of_file_error hfile⟩
  · exact absurd hescapes h
  · have hquiet := (reader.quiet_stream_iff octets).mpr (mt hescapes.mpr h)
    obtain ⟨s, more, last, hscanner, hpending⟩ :=
      Scanner.ofFile_of_quiet (Opening.stream_of_file_ok hfile) reader.closing_stream hquiet
    exact contained_of_pending hscanner hpending

theorem not_contained_of_escapes (h : Escapes look path o codecs) :
    ¬ Contained look path o codecs := by
  have hfailed {f : Failure} (hscanner : Scanner.ofFile look path o codecs = .error (.failed f)) :
      ¬ Contained look path o codecs := by
    rintro (⟨obstacle, hblocked⟩ | ⟨s, hs, -⟩)
    · rw [hscanner] at hblocked
      cases hblocked
    · rw [hscanner] at hs
      cases hs
  rcases Opening.file_cases look path o codecs with
    ⟨-, hnot⟩ | ⟨⟨f, hfile⟩, -⟩ | ⟨reader, octets, hfile, -, hescapes⟩
  · exact absurd h hnot
  · exact hfailed (Scanner.ofFile_of_file_error hfile)
  · have hnot := mt (reader.quiet_stream_iff octets).mp (not_not_intro (hescapes.mp h))
    obtain ⟨f, hfate, hends⟩ := Stream.exists_fate_of_not_quiet hnot
    rcases Scanner.ofFile_of_fate (Opening.stream_of_file_ok hfile) hfate hends
      with hscanner | ⟨s, hscanner, hdrain⟩
    · exact hfailed hscanner
    · rintro (⟨obstacle, hblocked⟩ | ⟨s', hs', ⟨found, last, hall, -⟩, -⟩)
      · rw [hscanner] at hblocked
        cases hblocked
      · rw [hscanner] at hs'
        cases hs'
        rw [hdrain] at hall
        cases hall

theorem ofNames_defaults (codecs : Codecs) :
    Reader.ofNames codecs ({} : Options).encoding ({} : Options).policy =
      .text (.described .utf8 .replace) :=
  Reader.ofNames_described (by decide +kernel) rfl codecs

theorem Scanner.ofFile_defaults (look : String → Place) (path : String) (codecs : Codecs) :
    ofFile look path {} codecs = ofFile look path := by
  have hsame := (ofNames_defaults codecs).trans (ofNames_defaults .empty).symm
  rw [ofFile, Opening.stream, Opening.file_congr hsame]
  rfl

/-- With the default options it is enough that the path is one. -/
theorem contained_of_defaults (look : String → Place) {path : String} (h : nul ∉ path.toList)
    (codecs : Codecs) : Contained look path {} codecs := by
  apply contained_of_not_escapes
  rintro (hname | ⟨-, hnames⟩ | ⟨-, -, hreader, hbreaks⟩)
  · exact absurd hname (by decide)
  · rcases hnames with hencoding | hpath
    · exact absurd hencoding (by decide)
    · exact h hpath
  · rw [ofNames_defaults] at hreader
    cases hreader
    obtain ⟨_, -, hforeign, -⟩ := hbreaks
    simp [Policy.Foreign] at hforeign

/-- Exactly when only an unavailable source is reported: for all files, all options, and
whatever other decoders the system has. -/
theorem contained_iff_not_escapes (look : String → Place) (path : String) (o : Options)
    (codecs : Codecs) : Contained look path o codecs ↔ ¬ Escapes look path o codecs :=
  ⟨fun h hescapes => not_contained_of_escapes hescapes h, contained_of_not_escapes⟩

/-- A file of two octets, in an encoding whose mark it lacks. -/
theorem not_contained_without_mark :
    ¬ Contained (FileTree.look ⟨[(["a.kay"], [0x61, 0x00])], []⟩) "a.kay"
      { encoding := "utf-16" } .empty := by
  have hplace : FileTree.look ⟨[(["a.kay"], [0x61, 0x00])], []⟩ "a.kay" =
      .file [0x61, 0x00] := by
    decide +kernel
  have hcharset : Charset.ofName "utf-16" = .text .utf16 := by decide +kernel
  have hbreaks : Breaks .utf16 .replace [0x61, 0x00] := by
    rw [Breaks, BreaksMarked, if_neg (by decide), if_neg (by decide)]
    exact Nat.le_refl 2
  exact not_contained_of_escapes
    (.octets rfl hplace (Reader.ofNames_described hcharset rfl _) hbreaks)

end KayLex
