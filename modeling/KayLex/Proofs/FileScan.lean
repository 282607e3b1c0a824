import KayLex.Proofs.Encoding.ChunkedText
import KayLex.Proofs.Encoding.Unicode
import KayLex.Proofs.Opening
import KayLex.Proofs.Truncation

/-!
A file is scanned like the text that its octets come to. In UTF-8 that is what they come to
as a whole, wherever the chunks cut them; only a policy that gives up makes the scan end
before, in front of the chunk with the first ill-formed sequence.
-/

namespace KayLex

open Cursor Encoding KayLex.Action

variable {look : String → Place} {path : String} {o : Options} {codecs : Codecs}
  {octets : List UInt8} {policy : Policy} {charset : Charset} {σ : Stream} {cs : List Char}

/-! ### Files and their streams -/

theorem Encoding.Policy.nul_not_mem (h : Policy.ofName? o.policy = some policy) :
    nul ∉ o.policy.toList := by
  have hnames : ∀ entry ∈ Policy.table, nul ∉ entry.1.toList := by decide
  obtain ⟨before, after, htable, -⟩ := List.lookup_eq_some_iff.mp h
  exact hnames (o.policy, policy) (by rw [htable]; simp)

theorem Opening.stream_of_file (codecs : Codecs) (hpath : nul ∉ path.toList)
    (hencoding : nul ∉ o.encoding.toList) (hplace : look path = .file octets)
    (hcharset : Charset.ofName o.encoding = .text charset)
    (hpolicy : Policy.ofName? o.policy = some policy) :
    Opening.stream look path o codecs = .ok (fileText charset policy octets) := by
  have hfile : file look path o codecs = .ok (.described charset policy, octets) := by
    rw [file_of_names (Policy.nul_not_mem hpolicy) (Policy.isKnown_of_ofName? hpolicy)
      (not_or.mpr ⟨hencoding, hpath⟩), Opening.octets, hplace, Opening.reader,
      Reader.ofNames_described hcharset hpolicy]
    rfl
  exact stream_of_file_ok hfile

namespace Scanner

/-- A scan passes all characters of a stream, and then the failure behind them, if there is
one, is on record once. -/
theorem scan_of_quiet (hstream : Opening.stream look path o codecs = .ok σ) (hquiet : σ.Quiet)
    (hclosing : σ.closing = none) :
    ∃ s, ofFile look path o codecs = .ok s ∧
      s.drain.all = .ok (tokenize (String.ofList σ.chars) path) ∧
      s.drain.scanner.cursor.warnings =
        (σ.fate.map (.readFailed path (({} : Position).afterAll σ.chars))).toList := by
  obtain ⟨k, hstart, hk, hopen⟩ := exists_start hquiet path true
  obtain ⟨-, -, -, hstreamClosing⟩ := frame_of_start hstart
  have hk' := hk.note (e := .opened path o.encoding) rfl
  have hahead := hk'.ahead hquiet hopen
  rw [List.length_nil, List.drop_zero] at hahead
  have hfacing := facing_of_ahead (s := ⟨k.note (.opened path o.encoding), false, 0⟩) hahead rfl
  dsimp only at hfacing
  rw [hk'.position_eq, Position.afterAll_nil] at hfacing
  obtain ⟨htokens, hending, hposition⟩ := drain_of_facing hfacing rfl hopen
  have hreleases : (k.note (.opened path o.encoding)).stream.closing = none :=
    hstreamClosing.trans hclosing
  dsimp only at htokens hending
  rw [hk'.name_eq] at htokens hending
  rw [hreleases, ite_self] at hending
  refine ⟨_, ofFile_of_start hstream hstart, ?_, ?_⟩
  · rw [Drained.all, htokens, hending, tokenize_eq_lexemes, String.toList_ofList,
      Grammar.last_lexemesFrom]
    rfl
  · obtain ⟨passed, hwalk⟩ := reaches_drainFrom [] ⟨k.note (.opened path o.encoding), false, 0⟩
    have hend := hk'.walk hquiet hwalk
    rw [List.nil_append] at hend
    obtain rfl := hend.eq_of_position hposition
    rw [← hposition]
    exact hend.warnings_eq.trans (if_pos rfl)

end Scanner

/-! ### Files in UTF-8 -/

/-- The text that the chunks in front of the first one that cannot be decoded come to; what is
left at the end of the octets counts as a last chunk. -/
def CompletedBefore (octets : List UInt8) (cs : List Char) : Prop :=
  ∃ before after kept, chunks octets = before ++ after ∧
    Utf8.codec.decode .strict false 0 before.flatten = .ok { chars := cs, kept } ∧
    ∃ f, Utf8.codec.decode .strict after.isEmpty 0 (before.flatten ++ after.head?.getD []) =
      .error f

/-- A chunk that cannot be decoded is not among those that can, so there is one such text. -/
theorem CompletedBefore.unique {ds : List Char} (h : CompletedBefore octets cs)
    (h' : CompletedBefore octets ds) : cs = ds := by
  have hp := Policy.not_repairs_strict
  have hsame {before more after : List (List UInt8)} {cs ds : List Char} {kept kept' : List UInt8}
      (hcs : Utf8.codec.decode .strict false 0 before.flatten = .ok { chars := cs, kept })
      (hds : Utf8.codec.decode .strict false 0 (before ++ more).flatten =
        .ok { chars := ds, kept := kept' })
      (hfails : ∃ f, Utf8.codec.decode .strict (more ++ after).isEmpty 0
        (before.flatten ++ (more ++ after).head?.getD []) = .error f) : cs = ds := by
    cases more with
    | nil =>
        rw [List.append_nil, hcs] at hds
        cases hds
        rfl
    | cons chunk more =>
        have hflawed := (Codec.exists_error_iff_flawed hp 0).mp hfails
        have hwhole : Codec.Flawed Utf8.codec false (before ++ chunk :: more).flatten := by
          rw [List.flatten_append, List.flatten_cons, ← List.append_assoc]
          exact hflawed.append Utf8.steady_codec
        exact absurd hwhole ((Codec.exists_decodes_iff hp).mp
          ⟨ds, kept', Codec.decode_eq_ok_iff.mp hds⟩)
  obtain ⟨before, after, kept, hchunks, hcs, hfails⟩ := h
  obtain ⟨before', after', kept', hchunks', hds, hfails'⟩ := h'
  rcases List.append_eq_append_iff.mp (hchunks.symm.trans hchunks') with
    ⟨more, rfl, rfl⟩ | ⟨more, rfl, rfl⟩
  · exact hsame hcs hds hfails
  · exact (hsame hds hcs hfails').symm

theorem fileText_of_sound (h : policy.Repairs ∨ ∃ text, octets = Utf8.encode text) :
    ∃ cs, Utf8.codec.decode policy true 0 octets = .ok { chars := cs } ∧
      fileText .utf8 policy octets = .ofChars cs := by
  have hsound : policy.Repairs ∨ ¬ Codec.Flawed Utf8.codec true octets := by
    refine h.imp_right ?_
    rintro ⟨text, rfl⟩ hflawed
    exact Utf8.flawed_iff.mp hflawed text rfl
  obtain ⟨cs, kept, hcs⟩ := Codec.exists_decodes hsound
  obtain rfl := Utf8.kept_eq_nil hcs
  exact ⟨cs, Codec.decode_eq_ok_iff.mpr hcs, fileText_of_decodes rfl hcs⟩

theorem fileText_of_unsound (h : ∀ text, octets ≠ Utf8.encode text) :
    ∃ cs, CompletedBefore octets cs ∧
      (∃ sound rest, Utf8.SoundUpTo octets sound rest ∧ cs <+: sound) ∧
      (fileText .utf8 .strict octets).chars = withoutLastReturn cs ∧
      ∃ u, (fileText .utf8 .strict octets).fate = some (.undecodable u) := by
  have hp := Policy.not_repairs_strict
  have hcodec : codecOf? .utf8 = some Utf8.codec := rfl
  obtain ⟨before, after, cs, kept, hchunks, hcs, hfails, hchars, u, f, hrepair, hfate⟩ :=
    fileText_of_flawed hcodec hp (Utf8.flawed_iff.mpr h)
  refine ⟨cs, ⟨before, after, kept, hchunks, Codec.decode_eq_ok_iff.mpr hcs,
    (Codec.exists_error_iff_flawed hp 0).mpr hfails⟩, ?_, hchars, u, ?_⟩
  · obtain ⟨sound, rest, hsound⟩ := Utf8.exists_soundUpTo octets
    have heq : octets = Utf8.encode cs ++ (kept ++ after.flatten) := by
      rw [← flatten_chunks octets, hchunks, List.flatten_append, Utf8.eq_encode_append hp hcs,
        List.append_assoc]
    exact ⟨sound, rest, hsound, hsound.isPrefix heq⟩
  · rw [hfate]
    cases hrepair
    rfl

/-- A file in UTF-8 is scanned like what its octets come to as a whole, if they are well-formed
or the policy finds characters for what is not. Otherwise, under the strict policy, it is
scanned like the text in front of the chunk that cannot be decoded, and a carriage return at
the end of that is lost with the chunk; the failed read is on record, once. -/
theorem scan_of_utf8_file (codecs : Codecs) (hpath : nul ∉ path.toList)
    (hencoding : nul ∉ o.encoding.toList) (hplace : look path = .file octets)
    (hcharset : Charset.ofName o.encoding = .text .utf8)
    (hpolicy : Policy.ofName? o.policy = some policy) :
    ((policy.Repairs ∨ ∃ text, octets = Utf8.encode text) →
      ∃ s cs, Scanner.ofFile look path o codecs = .ok s ∧
        Utf8.codec.decode policy true 0 octets = .ok { chars := cs } ∧
        s.drain.all = .ok (tokenize (String.ofList cs) path)) ∧
    (policy = .strict → (∀ text, octets ≠ Utf8.encode text) →
      ∃ s cs, Scanner.ofFile look path o codecs = .ok s ∧
        CompletedBefore octets cs ∧
        (∃ sound rest, Utf8.SoundUpTo octets sound rest ∧ cs <+: sound) ∧
        s.drain.all = .ok (tokenize (String.ofList (withoutLastReturn cs)) path) ∧
        ∃ p u, s.drain.scanner.cursor.warnings = [.readFailed path p (.undecodable u)]) ∧
    ∀ text : String, octets = Utf8.encode text.toList →
      ∃ s, Scanner.ofFile look path o codecs = .ok s ∧ s.drain.all = .ok (tokenize text path) := by
  have hstream := Opening.stream_of_file codecs hpath hencoding hplace hcharset hpolicy
  have hsound (h : policy.Repairs ∨ ∃ text, octets = Utf8.encode text) :
      ∃ s cs, Scanner.ofFile look path o codecs = .ok s ∧
        Utf8.codec.decode policy true 0 octets = .ok { chars := cs } ∧
        s.drain.all = .ok (tokenize (String.ofList cs) path) := by
    obtain ⟨cs, hdecode, htext⟩ := fileText_of_sound h
    rw [htext] at hstream
    obtain ⟨s, hs, hall, -⟩ := Scanner.scan_of_quiet hstream (Stream.quiet_ofChars cs) rfl
    rw [Stream.chars_ofChars] at hall
    exact ⟨s, cs, hs, hdecode, hall⟩
  refine ⟨hsound, ?_, ?_⟩
  · rintro rfl hunsound
    obtain ⟨cs, hcompleted, hprefix, hchars, u, hfate⟩ := fileText_of_unsound hunsound
    have hquiet : (fileText .utf8 .strict octets).Quiet := by
      intro f hf
      rw [hfate] at hf
      cases hf
      rfl
    obtain ⟨s, hs, hall, hwarnings⟩ := Scanner.scan_of_quiet hstream hquiet rfl
    rw [hchars] at hall
    rw [hfate] at hwarnings
    exact ⟨s, cs, hs, hcompleted, hprefix, hall, _, u, hwarnings⟩
  · rintro text rfl
    obtain ⟨s, cs, hs, hdecode, hall⟩ := hsound (.inr ⟨text.toList, rfl⟩)
    obtain ⟨rfl, -⟩ := (Codec.decode_eq_ok_iff.mp hdecode).unique (Utf8.decodes_encode _)
    rw [String.ofList_toList] at hall
    exact ⟨s, hs, hall⟩

/-- A character is cut off behind a carriage return. -/
theorem scan_of_utf8_file_cut :
    nul ∉ "a.kay".toList ∧ nul ∉ "utf-8".toList ∧
      FileTree.look ⟨[(["a.kay"], [0x78, 0x0D, 0xC3])], []⟩ "a.kay" = .file [0x78, 0x0D, 0xC3] ∧
      Charset.ofName "utf-8" = .text .utf8 ∧ Policy.ofName? "strict" = some .strict ∧
      (∀ text, [0x78, 0x0D, 0xC3] ≠ Utf8.encode text) ∧
      ∃ s cs,
        Scanner.ofFile (FileTree.look ⟨[(["a.kay"], [0x78, 0x0D, 0xC3])], []⟩) "a.kay"
          { policy := "strict" } = .ok s ∧
        CompletedBefore [0x78, 0x0D, 0xC3] cs ∧
        s.drain.all = .ok (tokenize (String.ofList (withoutLastReturn cs)) "a.kay") ∧
        ∃ p u, s.drain.scanner.cursor.warnings = [.readFailed "a.kay" p (.undecodable u)] := by
  have hpath : nul ∉ "a.kay".toList := by decide
  have hencoding : nul ∉ "utf-8".toList := by decide
  have hplace : FileTree.look ⟨[(["a.kay"], [0x78, 0x0D, 0xC3])], []⟩ "a.kay" =
      .file [0x78, 0x0D, 0xC3] := by
    decide +kernel
  have hcharset : Charset.ofName "utf-8" = .text .utf8 := by decide +kernel
  have hunsound : ∀ text, [0x78, 0x0D, 0xC3] ≠ Utf8.encode text :=
    Utf8.flawed_iff.mp (.later rfl (.later rfl (.here rfl)))
  obtain ⟨-, hstrict, -⟩ := scan_of_utf8_file (o := { policy := "strict" })
    .empty hpath hencoding hplace hcharset rfl
  obtain ⟨s, cs, hs, hcompleted, -, hall, hwarnings⟩ := hstrict rfl hunsound
  exact ⟨hpath, hencoding, hplace, hcharset, rfl, hunsound, s, cs, hs, hcompleted, hall, hwarnings⟩

/-- The first chunk completes a carriage return, and yet nothing is scanned. -/
theorem not_scan_of_completed :
    (∀ text, [0x0D, 0xC3] ≠ Utf8.encode text) ∧ CompletedBefore [0x0D, 0xC3] ['\r'] ∧
      ∃ s, Scanner.ofFile (FileTree.look ⟨[(["a.kay"], [0x0D, 0xC3])], []⟩) "a.kay"
          { policy := "strict" } = .ok s ∧
        ∀ cs, CompletedBefore [0x0D, 0xC3] cs →
          s.drain.all ≠ .ok (tokenize (String.ofList cs) "a.kay") := by
  have hcompleted : CompletedBefore [0x0D, 0xC3] ['\r'] := by
    refine ⟨[[0x0D, 0xC3]], [], [0xC3], by decide +kernel, by decide +kernel, ?_⟩
    exact (Codec.exists_error_iff_flawed Policy.not_repairs_strict 0).mpr (.later rfl (.here rfl))
  have hscan : (Scanner.ofFile (FileTree.look ⟨[(["a.kay"], [0x0D, 0xC3])], []⟩) "a.kay"
      { policy := "strict" }).map (·.drain.all) =
      .ok (.ok [⟨.endOfStream, "EOF", 1, 1, 0, "a.kay"⟩]) := by
    decide +kernel
  have htext : tokenize (String.ofList ['\r']) "a.kay" =
      [⟨.endOfStream, "EOF", 1, 2, 1, "a.kay"⟩] := by
    decide +kernel
  refine ⟨Utf8.flawed_iff.mp (.later rfl (.here rfl)), hcompleted, ?_⟩
  cases hs : Scanner.ofFile (FileTree.look ⟨[(["a.kay"], [0x0D, 0xC3])], []⟩) "a.kay"
      { policy := "strict" } with
  | error refusal =>
      rw [hs] at hscan
      cases hscan
  | ok s =>
      rw [hs] at hscan
      refine ⟨s, rfl, fun cs hcs hall => ?_⟩
      rw [hcs.unique hcompleted, htext] at hall
      have hsame := (Except.ok.inj hscan).symm.trans hall
      exact absurd hsame (by decide)

end KayLex
