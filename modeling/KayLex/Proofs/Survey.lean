import Mathlib.Algebra.BigOperators.Group.List.Basic
import KayLex.Command.Survey
import KayLex.Proofs.Accounting

/-!
The survey of a file and its scan by the command. The survey takes its tokens one by one and
sums them up afterwards, the command sums them up as it lists them; on the same file they show
the same lines, and the survey has a section on malformed tokens where a strict run fails.
-/

namespace KayLex

open Text

/-! ### Lines and places -/

theorem Listing.unlines_append (ls ms : List String) :
    unlines (ls ++ ms) = unlines ls ++ unlines ms := by
  rw [← String.toList_inj]
  simp [unlines]

theorem location_text_of_mem_tokenize {text source : String} {t : Token}
    (ht : t ∈ tokenize text source) : t.location.text = s!"{source}:{t.line}:{t.column}" := by
  obtain ⟨front, -, -, -, hline, -⟩ := Grammar.exists_start ht
  have hsource : t.source = source := by
    rw [tokenize_eq_lexemes] at ht
    rcases List.mem_append.mp ht with ht | ht
    · obtain ⟨x, -, rfl⟩ := List.mem_map.mp ht
      rfl
    · rw [List.mem_singleton.mp ht]
      rfl
  have hpos : ¬ t.line ≤ 0 := by
    rw [hline, Position.line_afterAll]
    show ¬ ((1 + front.count '\n' : Nat) : Int) ≤ 0
    omega
  rw [Token.location, Location.text, if_neg hpos, hsource]

/-! ### Kinds -/

theorem Kind.sum_countP (ts : List Token) :
    (all.map fun k => ts.countP (·.kind = k)).sum = ts.length := by
  induction ts with
  | nil => rfl
  | cons t ts ih =>
      have hone : (all.map fun k => if t.kind = k then 1 else 0).sum = 1 := by
        cases t.kind <;> rfl
      simp only [List.countP_cons, decide_eq_true_eq, List.sum_map_add, ih, hone, List.length_cons]

theorem Kind.sum_countP_filter (ts : List Token) :
    ((all.filter fun k => 0 < ts.countP (·.kind = k)).map fun k => ts.countP (·.kind = k)).sum =
      ts.length := by
  rw [← sum_countP ts]
  induction all with
  | nil => rfl
  | cons k ks ih =>
      rw [List.filter_cons]
      split
      · rw [List.map_cons, List.map_cons, List.sum_cons, List.sum_cons, ih]
      · next hnone =>
        have hzero : ts.countP (·.kind = k) = 0 := by simpa using hnone
        rw [List.map_cons, List.sum_cons, hzero, Nat.zero_add, ih]

namespace Command

variable {look : String → Place} {input text source : String} {s : Scanner} {ts : List Token}

/-! ### The survey -/

namespace Survey

theorem kindLines_eq (ts : List Token) :
    kindLines ts = (Kind.all.filter fun k => 0 < ts.countP (·.kind = k)).map fun k =>
      kindLine k (ts.countP (·.kind = k)) := by
  rw [kindLines]
  induction Kind.all with
  | nil => rfl
  | cons k ks ih =>
      rw [List.filterMap_cons, List.filter_cons, ih]
      by_cases hnone : ts.countP (·.kind = k) = 0
      · simp [hnone]
      · simp [hnone, Nat.pos_of_ne_zero hnone]

theorem malformedLine_eq {t : Token} (h : t ∈ tokenize text source) :
    malformedLine t = s!"  {source}:{t.line}:{t.column}: {quoted t.lexeme}" := by
  rw [malformedLine, location_text_of_mem_tokenize h]
  show "  " ++ (source ++ ":" ++ toString t.line ++ ":" ++ toString t.column) ++ ": " ++ _ =
    "  " ++ source ++ ":" ++ toString t.line ++ ":" ++ toString t.column ++ ": " ++ _
  simp only [String.append_assoc]

theorem unlines_malformedSection (h : ∀ t ∈ ts, t ∈ tokenize text source) :
    Listing.unlines (malformedSection ts) =
      if ts.filter Token.isError = [] then "" else
        "\nMalformed lexemes:\n" ++ Listing.unlines ((ts.filter Token.isError).map fun t =>
          s!"  {source}:{t.line}:{t.column}: {quoted t.lexeme}") := by
  have hlines : (ts.filter Token.isError).map malformedLine =
      (ts.filter Token.isError).map fun t =>
        s!"  {source}:{t.line}:{t.column}: {quoted t.lexeme}" :=
    List.map_congr_left fun t ht => malformedLine_eq (h t (List.mem_of_mem_filter ht))
  rw [malformedSection, hlines]
  by_cases hnone : ts.filter Token.isError = []
  · rw [if_pos hnone, hnone]
    rfl
  · rw [if_neg hnone, if_neg (by simpa using hnone), Listing.unlines_append]
    rfl

theorem unlines_lines (ts : List Token) :
    Listing.unlines (lines ts) =
      Listing.unlines (Listing.lines ts) ++ "\nTokens by kind:\n" ++
        Listing.unlines (kindLines ts) ++ Listing.unlines (malformedSection ts) := by
  rw [lines, Listing.unlines_append, Listing.unlines_append, Listing.unlines_append,
    ← String.append_assoc]
  rfl

theorem run_of_all (hfile : Scanner.ofFile look (Path.tidy input) = .ok s)
    (hall : s.drain.all = .ok ts) :
    run look input = .ok { output := Listing.unlines (lines (ts.filter (!·.isEnd))) } := by
  obtain ⟨⟨last, hending⟩, htokens, -⟩ := Scanner.drain_of_all hall
  rw [run, hfile]
  dsimp only
  rw [hending, htokens]

end Survey

theorem Job.options_of_none {a : Arguments} {setting? : String → Option String}
    (hencoding : a.encoding = none) (hset : setting? Options.encodingVariable = none)
    (hpolicy : setting? Options.policyVariable = none) (input : String) :
    (ofArguments a setting? input).options = {} := by
  rw [ofArguments, hencoding]
  dsimp only
  rw [Options.ofEnvironment, hset, hpolicy]

/-- The survey and the command agree. Of a file that is scanned to the end, the survey shows
the listing that the command writes; then, in the order of the kinds and without those that do
not occur, how many tokens of each kind there are, which comes to the number of lines listed;
and then the malformed tokens in their order, with their places, where a strict run of the
command fails. -/
theorem survey_agrees (hfile : Scanner.ofFile look (Path.tidy input) = .ok s)
    (hall : s.drain.all = .ok ts) :
    let found := ts.filter (!·.isEnd)
    let listing := Listing.unlines (found.mapIdx fun i t => s!"Token {i + 1} - {t.text}")
    let count (k : Kind) := found.countP (·.kind = k)
    let counted := Kind.all.filter (0 < count ·)
    let malformed := found.filter (·.kind = .other)
    let kinds := counted.map fun k =>
      let shown := String.ofList (k.label.toList.rightpad 11 ' ')
      s!"  {shown} {count k}"
    let places := malformed.map fun t =>
      s!"  {Path.tidy input}:{t.line}:{t.column}: {Text.quoted t.lexeme}"
    (∃ out, Survey.run look input = .ok out ∧ out.status.code = 0 ∧ out.errors = "" ∧
      out.output = listing ++ "\nTokens by kind:\n" ++ Listing.unlines kinds ++
        if malformed = [] then "" else "\nMalformed lexemes:\n" ++ Listing.unlines places) ∧
      (counted.map count).sum = found.length ∧
      listing.toList.count '\n' = found.length ∧
      ∀ args a setting? codecs, Arguments.read args = .ok a → a.notice = none →
        a.encoding = none → inputOf look a.inputs = .ok input →
        setting? Options.encodingVariable = none → setting? Options.policyVariable = none →
        (a.verbose = false → (scan args setting? look codecs).output = listing) ∧
        (a.strict = true →
          ((scan args setting? look codecs).status.code = 1 ↔ malformed ≠ [])) := by
  intro found listing count counted malformed kinds places
  obtain ⟨text, hmem⟩ := Scanner.exists_text_of_found hfile hall
  refine ⟨⟨_, Survey.run_of_all hfile hall, rfl, rfl, ?_⟩, Kind.sum_countP_filter found,
    Listing.count_unlines_lines hmem, ?_⟩
  · show Listing.unlines (Survey.lines found) = _
    rw [Survey.unlines_lines, Survey.unlines_malformedSection fun t ht => (hmem t ht).1,
      Survey.kindLines_eq]
    rfl
  · intro args a setting? codecs hargs hnotice hencoding hinput hset hpolicy
    have hoptions := Job.options_of_none hencoding hset hpolicy input
    have hfile' : Scanner.ofFile look (Path.tidy input) (Job.ofArguments a setting? input).options
        codecs = .ok s := by
      rw [hoptions, Scanner.ofFile_defaults]
      exact hfile
    have hscan : scan args setting? look codecs = _ :=
      scan_of_all hargs hnotice hinput hfile' hall fun t _ u => by
        rw [hoptions]
        exact not_holdsSurrogate_of_defaults t u
    constructor
    · intro hverbose
      have hout := congrArg Outcome.output hscan
      rw [hverbose, if_neg Bool.false_ne_true, String.append_empty] at hout
      exact hout
    · intro hstrict
      have hstatus : (scan args setting? look codecs).status =
          if a.strict ∧ 0 < found.countP (·.isError) then .lexicalError else .success :=
        congrArg Outcome.status hscan
      have hpos : 0 < found.countP (·.isError) ↔ malformed ≠ [] := by
        rw [List.countP_eq_length_filter, List.length_pos_iff]
        rfl
      rw [hstatus, ← hpos]
      by_cases h : 0 < found.countP (·.isError) <;> simp [hstrict, h, Status.code]

/-- The survey of a file of two tokens, one of them malformed, and its listing by a strict run. -/
theorem survey_agrees_malformed :
    let look := FileTree.look ⟨[(["a.kay"], [0x78, 0x20, 0x31, 0x61])], []⟩
    let listing := "Token 1 - Type: Identifier - Value: x\nToken 2 - Type: Other - Value: 1a\n"
    ∃ s ts out, Scanner.ofFile look (Path.tidy "./a.kay") = .ok s ∧ s.drain.all = .ok ts ∧
      Survey.run look "./a.kay" = .ok out ∧
      out.output = listing ++ "\nTokens by kind:\n  Identifier  1\n  Other       1\n" ++
        "\nMalformed lexemes:\n  a.kay:1:3: '1a'\n" ∧
      (scan ["--strict", "./a.kay"] (fun _ => none) look).output = listing ∧
      (scan ["--strict", "./a.kay"] (fun _ => none) look).status.code = 1 := by
  intro look listing
  have hargs : Arguments.read ["--strict", "./a.kay"] =
      .ok { strict := true, inputs := ["./a.kay"] } := by
    decide +kernel
  have hinput : inputOf look ["./a.kay"] = .ok "./a.kay" := by decide +kernel
  have hscan : (Scanner.ofFile look (Path.tidy "./a.kay")).map (·.drain.all) =
      .ok (.ok [⟨.identifier, "x", 1, 1, 0, "a.kay"⟩, ⟨.other, "1a", 1, 3, 2, "a.kay"⟩,
        ⟨.endOfStream, "EOF", 1, 5, 4, "a.kay"⟩]) := by
    decide +kernel
  obtain ⟨s, hs, hall⟩ := Scanner.exists_of_map_all hscan
  obtain ⟨⟨out, hrun, -, -, houtput⟩, -, -, hagree⟩ := survey_agrees hs hall
  obtain ⟨hlisted, hfails⟩ := hagree _ _ (fun _ => none) .empty hargs rfl rfl hinput rfl rfl
  refine ⟨s, _, out, hs, hall, hrun, houtput.trans ?_, (hlisted rfl).trans ?_,
    (hfails rfl).mpr ?_⟩
  · decide +kernel
  · decide +kernel
  · decide

end Command

end KayLex
