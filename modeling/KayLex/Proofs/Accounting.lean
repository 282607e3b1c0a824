import KayLex.Proofs.Counting
import KayLex.Proofs.Writing

/-!
What the command accounts for. It numbers the tokens as it lists them, counts the malformed
ones itself, and takes the number of all tokens from the scanner. These are counts of the same
tokens, so they agree, however the scan came to its end. The one thing that stops a run in front
of the end is a token that holds a surrogate, since its line cannot be written.

What the command says of a file goes out as plain text, so a file is called by its name as it
is shown: without the control sequences that the name may hold.
-/

namespace KayLex

open Encoding KayLex.Action

namespace Scanner

variable {s : Scanner} {ts : List Token}

section File

variable {look : String → Place} {path : String} {o : Options} {codecs : Codecs}

theorem count_of_ofFile (hfile : ofFile look path o codecs = .ok s) : s.count = 0 := by
  cases hstream : Opening.stream look path o codecs with
  | error refusal =>
      rw [ofFile, hstream] at hfile
      cases hfile
  | ok σ =>
      cases hstart : Cursor.start path σ true with
      | ok k =>
          rw [ofFile_of_start hstream hstart] at hfile
          cases hfile
          rfl
      | error f =>
          rw [ofFile_of_start_error hstream hstart] at hfile
          cases hfile

theorem exists_of_map_all (h : (ofFile look path o codecs).map (·.drain.all) = .ok (.ok ts)) :
    ∃ s, ofFile look path o codecs = .ok s ∧ s.drain.all = .ok ts := by
  cases hfile : ofFile look path o codecs with
  | error refusal =>
      rw [hfile] at h
      cases h
  | ok s =>
      rw [hfile] at h
      exact ⟨s, rfl, Except.ok.inj h⟩

/-- A file whose scan gets to the end has been scanned like the text that its reader delivers. -/
theorem exists_reader_of_all (hfile : ofFile look path o codecs = .ok s)
    (hall : s.drain.all = .ok ts) :
    ∃ reader octets, Opening.file look path o codecs = .ok (reader, octets) ∧
      ts = tokenize (String.ofList (reader.stream octets).chars) path := by
  rcases Opening.file_cases look path o codecs with
    ⟨⟨obstacle, hopen⟩, -⟩ | ⟨⟨f, hopen⟩, -⟩ | ⟨reader, octets, hopen, -⟩
  · rw [ofFile_of_file_error hopen] at hfile
    cases hfile
  · rw [ofFile_of_file_error hopen] at hfile
    cases hfile
  have hstream := Opening.stream_of_file_ok hopen
  refine ⟨reader, octets, hopen, ?_⟩
  by_cases hquiet : (reader.stream octets).Quiet
  · obtain ⟨s', hs', hall', -⟩ := scan_of_quiet hstream hquiet reader.closing_stream
    rw [hfile] at hs'
    cases hs'
    rw [hall] at hall'
    exact Except.ok.inj hall'
  · -- The scan would have met the failure that is in the way of the end.
    obtain ⟨f, hfate, hends⟩ := Stream.exists_fate_of_not_quiet hquiet
    rcases ofFile_of_fate hstream hfate hends with hfile' | ⟨s', hs', hall'⟩
    · rw [hfile] at hfile'
      cases hfile'
    · rw [hfile] at hs'
      cases hs'
      rw [hall] at hall'
      cases hall'

theorem exists_text_of_all (hfile : ofFile look path o codecs = .ok s)
    (hall : s.drain.all = .ok ts) : ∃ text, ts = tokenize text path := by
  obtain ⟨reader, octets, -, hts⟩ := exists_reader_of_all hfile hall
  exact ⟨_, hts⟩

theorem exists_text_of_found (hfile : ofFile look path o codecs = .ok s)
    (hall : s.drain.all = .ok ts) :
    ∃ text, ∀ t ∈ ts.filter (!·.isEnd), t ∈ tokenize text path ∧ t.isEnd = false := by
  obtain ⟨text, rfl⟩ := exists_text_of_all hfile hall
  exact ⟨text, fun t => Token.mem_filter_isEnd.mp⟩

end File

end Scanner

/-! ### What the command writes -/

namespace Command

open Text

variable {job : Job} {look : String → Place} {codecs : Codecs} {s : Scanner} {ts : List Token}

/-- In a file that is scanned to the end, a surrogate in a token is the token, which is
malformed. -/
theorem holdsSurrogate_of_all {path : String} {o : Options} {t : Token} {u : Surrogate}
    (hfile : Scanner.ofFile look path o codecs = .ok s) (hall : s.drain.all = .ok ts)
    (ht : t ∈ ts.filter (!·.isEnd)) :
    (HoldsSurrogate (Opening.surrogates look path o codecs) t u ↔
        surrogate? (Opening.surrogates look path o codecs) t = some u) ∧
      (HoldsSurrogate (Opening.surrogates look path o codecs) t u →
        t.kind = .other ∧ t.lexeme.length = 1) := by
  obtain ⟨reader, octets, hopen, rfl⟩ := Scanner.exists_reader_of_all hfile hall
  obtain ⟨hmem, hend⟩ := Token.mem_filter_isEnd.mp ht
  rw [Opening.surrogates, hopen]
  refine ⟨holdsSurrogate_iff hmem hend, fun h => ?_⟩
  obtain ⟨hlexeme, hkind, -⟩ := h.alone hmem hend
  rw [← String.length_toList, hlexeme]
  exact ⟨hkind, rfl⟩

theorem surrogate?_eq_none_of_all {path : String} {o : Options} {t : Token}
    (hfile : Scanner.ofFile look path o codecs = .ok s) (hall : s.drain.all = .ok ts)
    (ht : t ∈ ts.filter (!·.isEnd))
    (h : ∀ u, ¬ HoldsSurrogate (Opening.surrogates look path o codecs) t u) :
    surrogate? (Opening.surrogates look path o codecs) t = none := by
  rw [Option.eq_none_iff_forall_ne_some]
  exact fun u hu => h u ((holdsSurrogate_of_all hfile hall ht).1.mpr hu)

/-- The command calls a file by its name as it is shown. -/
theorem Job.tally_eq (job : Job) (count malformed : Nat) :
    job.tally count malformed =
      s!"Scanned {count} tokens ({malformed} malformed) from {plain job.path}\n" := by
  have hwords : escapeChar ∉ ("Scanned " ++ toString count ++ " tokens (" ++
      toString malformed ++ " malformed) from ").toList := by
    simp only [String.toList_append, List.mem_append, not_or]
    refine ⟨⟨⟨⟨by decide, fun hmem => ?_⟩, by decide⟩, fun hmem => ?_⟩, by decide⟩
    · exact absurd (Listing.bounds_of_mem_number hmem).1 (by decide)
    · exact absurd (Listing.bounds_of_mem_number hmem).1 (by decide)
  exact plain_line hwords job.path

theorem Job.complaint_eq (job : Job) (malformed : Nat) :
    job.complaint malformed = s!"Error: {malformed} malformed lexeme(s) in {plain job.path}\n" := by
  have hwords : escapeChar ∉ ("Error: " ++ toString malformed ++
      " malformed lexeme(s) in ").toList := by
    simp only [String.toList_append, List.mem_append, not_or]
    refine ⟨⟨by decide, fun hmem => ?_⟩, by decide⟩
    exact absurd (Listing.bounds_of_mem_number hmem).1 (by decide)
  exact plain_line hwords job.path

theorem relayFrom_of_all {surrogates : List (Nat × Surrogate)} (hall : s.drain.all = .ok ts)
    (hnone : ∀ t ∈ ts.filter (!·.isEnd), surrogate? surrogates t = none) :
    s.relayFrom (unwritable? surrogates) [] = s.drain := by
  obtain ⟨-, htokens, -⟩ := Scanner.drain_of_all hall
  exact Scanner.relayFrom_eq_drainFrom fun t ht before =>
    unwritable?_eq_none (hnone t (htokens ▸ ht))

/-- A run that scans a file to the end, and can write what it finds. -/
theorem Job.run_of_all (hfile : Scanner.ofFile look job.path job.options codecs = .ok s)
    (hall : s.drain.all = .ok ts)
    (hnone : ∀ t ∈ ts.filter (!·.isEnd),
      surrogate? (Opening.surrogates look job.path job.options codecs) t = none) :
    job.run look codecs =
      let outcome := job.completed (ts.filter (!·.isEnd)) (ts.filter (!·.isEnd)).length
      { outcome with
        errors := job.shown (Opening.surrogates look job.path job.options codecs)
            (job.beginning :: s.drain.scanner.released.cursor.journal.reverse) ++
          outcome.errors } := by
  obtain ⟨⟨last, hending⟩, htokens, hcount⟩ := Scanner.drain_of_all hall
  rw [Scanner.count_of_ofFile hfile, Nat.zero_add] at hcount
  rw [Job.run, hfile]
  dsimp only
  rw [relayFrom_of_all hall hnone, Job.concluded, hending, htokens, hcount]

/-- What a completed scan leaves behind: the listing, then the count if it was asked for; and
a strict run complains, and fails, if any token is malformed. -/
theorem Job.completed_eq (job : Job) (found : List Token) (count : Nat) :
    job.completed found count =
      { status := if job.strict ∧ 0 < found.countP (·.isError) then .lexicalError else .success
        output := written found ++
          if job.verbose then job.tally count (found.countP (·.isError)) else ""
        errors := if job.strict ∧ 0 < found.countP (·.isError) then
          job.complaint (found.countP (·.isError)) else "" } := by
  rw [completed]
  by_cases h : job.strict = true ∧ 0 < found.countP Token.isError
  · simp [h]
  · simp only [Bool.and_eq_true, decide_eq_true_eq]
    rw [if_neg h, if_neg h, if_neg h]

variable {setting? : String → Option String} {args : List String} {a : Arguments}
  {input : String}

theorem scan_of_arguments (hargs : Arguments.read args = .ok a) (hnotice : a.notice = none)
    (hinput : inputOf look a.inputs = .ok input) :
    scan args setting? look codecs = (Job.ofArguments a setting? input).run look codecs := by
  rw [scan, hargs]
  dsimp only
  rw [hnotice]
  dsimp only
  rw [hinput]

section Scanned

variable (hargs : Arguments.read args = .ok a) (hnotice : a.notice = none)
  (hinput : inputOf look a.inputs = .ok input)
  (hfile : Scanner.ofFile look (Path.tidy input) (Job.ofArguments a setting? input).options
    codecs = .ok s)
  (hall : s.drain.all = .ok ts)
include hargs hnotice hinput hfile hall

/-- All that the command leaves behind of a file that is scanned to the end. -/
theorem scan_of_all (hnone : ∀ t ∈ ts.filter (!·.isEnd), ∀ u,
      ¬ HoldsSurrogate (Opening.surrogates look (Path.tidy input)
        (Job.ofArguments a setting? input).options codecs) t u) :
    let found := ts.filter (!·.isEnd)
    let malformed := found.countP (·.isError)
    let file := plain (Path.tidy input)
    let job := Job.ofArguments a setting? input
    let surrogates := Opening.surrogates look (Path.tidy input) job.options codecs
    scan args setting? look codecs =
      { status := if a.strict ∧ 0 < malformed then .lexicalError else .success
        output := Listing.unlines (Listing.lines found) ++ (if a.verbose then
          s!"Scanned {found.length} tokens ({malformed} malformed) from {file}\n" else "")
        errors := job.shown surrogates (job.beginning ::
            s.drain.scanner.released.cursor.journal.reverse) ++
          (if a.strict ∧ 0 < malformed then
            s!"Error: {malformed} malformed lexeme(s) in {file}\n" else "") } := by
  have hrun : scan args setting? look codecs = _ := scan_of_arguments hargs hnotice hinput
  obtain ⟨text, hfound⟩ := Scanner.exists_text_of_found hfile hall
  rw [Job.run_of_all hfile hall fun t ht => surrogate?_eq_none_of_all hfile hall ht (hnone t ht),
    Job.completed_eq, Job.tally_eq, Job.complaint_eq, written_eq hfound] at hrun
  exact hrun

end Scanned

end Command

end KayLex
