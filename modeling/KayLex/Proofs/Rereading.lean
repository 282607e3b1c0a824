import KayLex.Proofs.Accounting
import KayLex.Text.Lines

/-!
A listing can be read back. The text of a token is shown as it is, with no marks around it,
and still nothing is lost: every character that could end a line is a blank, no lexeme holds a
blank, and so each token has a line to itself, on which the words in front of its text have
been written by the listing.
-/

namespace KayLex

open Text

/-! ### No token ends a line -/

theorem isBlank_of_mem_lineEnds {c : Char} (h : c ∈ lineEnds) : isBlank c = true := by
  have hall : lineEnds.all isBlank = true := by decide
  exact List.all_eq_true.mp hall c h

/-- What ends a line lies outside of the signs that a listing itself writes. -/
theorem lt_or_lt_of_mem_lineEnds {c : Char} (h : c ∈ lineEnds) : c < ' ' ∨ '~' < c := by
  have hall : lineEnds.all (fun c => decide (c < ' ') || decide ('~' < c)) = true := by decide
  simpa using List.all_eq_true.mp hall c h

/-- No lexeme holds a blank, and neither does what the sentinel shows as its text. -/
theorem isBlank_of_mem_tokenize {text source : String} {t : Token} (ht : t ∈ tokenize text source)
    {c : Char} (hc : c ∈ t.lexeme.toList) : isBlank c = false := by
  rw [tokenize_eq_lexemes] at ht
  rcases List.mem_append.mp ht with ht | ht
  · obtain ⟨x, hx, rfl⟩ := List.mem_map.mp ht
    rw [Found.token, String.toList_ofList] at hc
    exact (Grammar.spells_of_valid (Grammar.valid_of_mem_lexemesFrom hx).1).isBlank hc
  · have hsentinel : Token.endLexeme.toList.all (!isBlank ·) = true := by decide
    rw [List.mem_singleton.mp ht, Token.sentinel, Found.token, String.toList_ofList] at hc
    simpa using List.all_eq_true.mp hsentinel c hc

namespace Listing

variable {ls : List String} {t : Token} {ts : List Token}

theorem not_mem_lineEnds_of_line (h : ∀ c ∈ t.lexeme.toList, isBlank c = false) (n : Nat) :
    ∀ c ∈ (line n t).toList, c ∉ lineEnds := by
  obtain ⟨front, hline, hfront⟩ := exists_front_line n t
  intro c hc hmem
  rw [hline] at hc
  rcases List.mem_append.mp hc with hc | hc
  · obtain ⟨hfrom, hto⟩ := hfront c hc
    rcases lt_or_lt_of_mem_lineEnds hmem with hlt | hlt
    · exact absurd hfrom (Nat.not_le_of_lt hlt)
    · exact absurd hto (Nat.not_le_of_lt hlt)
  · have hblank := h c hc
    rw [isBlank_of_mem_lineEnds hmem] at hblank
    cases hblank

/-! ### Cutting a listing into its lines -/

theorem toList_unlines_cons (l : String) (ls : List String) :
    (unlines (l :: ls)).toList = l.toList ++ '\n' :: (unlines ls).toList := by
  simp [unlines]

theorem splitOn_unlines (h : ∀ l ∈ ls, '\n' ∉ l.toList) :
    (unlines ls).toList.splitOn '\n' = ls.map String.toList ++ [[]] := by
  induction ls with
  | nil => rfl
  | cons l ls ih =>
      have hl := h l (List.mem_cons_self ..)
      have hrest := ih fun m hm => h m (List.mem_cons_of_mem l hm)
      rw [toList_unlines_cons, List.splitOn_append_cons_self, List.splitOn_eq_singleton hl, hrest]
      rfl

theorem splitLines_unlines (h : ∀ l ∈ ls, ∀ c ∈ l.toList, c ∉ lineEnds) :
    splitLines (unlines ls) = ls := by
  rw [splitLines]
  induction ls with
  | nil => rfl
  | cons l ls ih =>
      have hrest := ih fun m hm => h m (List.mem_cons_of_mem l hm)
      rw [toList_unlines_cons, linesFrom_append (h l (List.mem_cons_self ..)), List.map_cons, hrest,
        List.reverse_nil, List.nil_append, String.ofList_toList]

/-! ### Reading -/

/-- No kind is shown by words that begin the words of another one. -/
theorem findSome?_behind (k : Kind) (lexeme : List Char) :
    (Kind.all.findSome? fun named => do
      let lexeme ← behind? s!"{named.label} - Value: ".toList
        (s!"{k.label} - Value: ".toList ++ lexeme)
      return (named, String.ofList lexeme)) = some (k, String.ofList lexeme) := by
  cases k <;> rfl

theorem readLine_line (n : Nat) (t : Token) :
    readLine n (line n t).toList = some (t.kind, t.lexeme) := by
  have hline : (line n t).toList = s!"Token {n} - Type: ".toList ++
      (s!"{t.kind.label} - Value: ".toList ++ t.lexeme.toList) := by
    rw [← String.toList_append, ← String.toList_append]
    show ("Token " ++ toString n ++ " - " ++
        ("Type: " ++ t.kind.label ++ " - Value: " ++ t.lexeme)).toList =
      ("Token " ++ toString n ++ (" - " ++ "Type: ") ++
        (t.kind.label ++ " - Value: " ++ t.lexeme)).toList
    simp only [String.append_assoc]
  have hfind := findSome?_behind t.kind t.lexeme.toList
  rw [String.ofList_toList] at hfind
  rw [hline, readLine, behind?_append]
  exact hfind

theorem readFrom_append {cs : List Char} (h : '\n' ∉ cs) (n : Nat) (seen rest : List Char) :
    readFrom n seen (cs ++ '\n' :: rest) = do
      let first ← readLine n (seen.reverse ++ cs)
      let others ← readFrom (n + 1) [] rest
      return first :: others := by
  induction cs generalizing seen with
  | nil => simp [readFrom]
  | cons c cs ih =>
      rw [List.mem_cons, not_or] at h
      rw [List.cons_append, readFrom, if_neg (Ne.symm h.1), ih h.2, List.reverse_cons,
        List.append_assoc, List.singleton_append]

theorem readFrom_unlines (h : ∀ t ∈ ts, ∀ m, '\n' ∉ (line m t).toList) (n : Nat) :
    readFrom n [] (unlines (ts.mapIdx fun i t => line (i + n) t)).toList =
      some (ts.map fun t => (t.kind, t.lexeme)) := by
  induction ts generalizing n with
  | nil => rfl
  | cons t ts ih =>
      have hfirst := h t (List.mem_cons_self ..) n
      have hrest := ih (fun u hu => h u (List.mem_cons_of_mem t hu)) (n + 1)
      have hshift : (ts.mapIdx fun i t => line (i + (n + 1)) t) =
          ts.mapIdx fun i t => line (i + 1 + n) t := by
        simp only [Nat.add_assoc, Nat.add_comm 1 n]
      rw [hshift] at hrest
      rw [List.mapIdx_cons, Nat.zero_add, toList_unlines_cons, readFrom_append hfirst,
        List.reverse_nil, List.nil_append, readLine_line, hrest]
      rfl

theorem read_unlines (h : ∀ t ∈ ts, ∀ m, '\n' ∉ (line m t).toList) :
    read (unlines (lines ts)) = some (ts.map fun t => (t.kind, t.lexeme)) :=
  readFrom_unlines h 1

theorem lines_eq_of_map_eq {us : List Token}
    (h : ts.map (fun t => (t.kind, t.lexeme)) = us.map fun t => (t.kind, t.lexeme)) :
    lines ts = lines us := by
  apply List.ext_getElem?
  intro i
  have hi := congrArg (·[i]?) h
  simp only [List.getElem?_map] at hi
  have hline (t : Token) : line (i + 1) t = line (i + 1) ⟨t.kind, t.lexeme, 0, 0, 0, ""⟩ := rfl
  rw [getElem?_lines, getElem?_lines]
  cases hts : ts[i]? <;> cases hus : us[i]? <;> simp [hts, hus] at hi ⊢
  rw [hline, hi.1, hi.2, ← hline]

/-! ### The listing of a text -/

/-- The listing of a text: a line for every token, the sentinel left out. -/
def ofText (text source : String) : String :=
  unlines (lines ((tokenize text source).filter (!·.isEnd)))

variable {text source : String}

theorem not_mem_lineEnds_of_mem_lines {l : String}
    (hl : l ∈ lines ((tokenize text source).filter (!·.isEnd))) :
    ∀ c ∈ l.toList, c ∉ lineEnds := by
  obtain ⟨i, hi, rfl⟩ := List.mem_mapIdx.mp hl
  have hmem := List.mem_of_mem_filter (List.getElem_mem hi)
  exact not_mem_lineEnds_of_line (fun _ hc => isBlank_of_mem_tokenize hmem hc) (i + 1)

theorem read_ofText (text source : String) :
    read (ofText text source) =
      some (((tokenize text source).filter (!·.isEnd)).map fun t => (t.kind, t.lexeme)) := by
  refine read_unlines fun t ht n => ?_
  obtain ⟨hmem, hend⟩ := Token.mem_filter_isEnd.mp ht
  exact feed_not_mem_line hmem hend n

end Listing

/-- A listing is unambiguous. No lexeme holds a blank or anything that ends a line, so a
listing has one line for each token, whether it is cut at line feeds or at everything that ends
a line, and the kinds and texts of the tokens can be read back from it. Two listings are the
same if these are. And a run of the command that is not verbose writes such a listing, unless
some token holds a surrogate. -/
theorem listing_unambiguous :
    (∀ text source, ∀ t ∈ tokenize text source, ∀ c ∈ t.lexeme.toList,
      isBlank c = false ∧ c ∉ lineEnds) ∧
    (∀ text source,
      let found := (tokenize text source).filter (!·.isEnd)
      let ls := found.mapIdx fun i t => s!"Token {i + 1} - {t.text}"
      (Listing.ofText text source).toList.splitOn '\n' = ls.map String.toList ++ [[]] ∧
        splitLines (Listing.ofText text source) = ls ∧
        Listing.read (Listing.ofText text source) =
          some (found.map fun t => (t.kind, t.lexeme))) ∧
    (∀ text source text' source',
      Listing.ofText text source = Listing.ofText text' source' ↔
        ((tokenize text source).filter (!·.isEnd)).map (fun t => (t.kind, t.lexeme)) =
          ((tokenize text' source').filter (!·.isEnd)).map fun t => (t.kind, t.lexeme)) ∧
    ∀ (args : List String) (a : Command.Arguments) (setting? : String → Option String)
      (look : String → Place) (codecs : Encoding.Codecs) (input : String) (s : Scanner)
      (ts : List Token),
      Command.Arguments.read args = .ok a → a.notice = none → a.verbose = false →
      Command.inputOf look a.inputs = .ok input →
      Scanner.ofFile look (Path.tidy input) (Command.Job.ofArguments a setting? input).options
        codecs = .ok s → s.drain.all = .ok ts →
      (∀ t ∈ ts.filter (!·.isEnd), ∀ u, ¬ Command.HoldsSurrogate (Opening.surrogates look
        (Path.tidy input) (Command.Job.ofArguments a setting? input).options codecs) t u) →
      ∃ text, ts = tokenize text (Path.tidy input) ∧
        (Command.scan args setting? look codecs).output =
          Listing.ofText text (Path.tidy input) := by
  refine ⟨fun text source t ht c hc => ?_, fun text source => ?_, ?_, ?_⟩
  · have hblank := isBlank_of_mem_tokenize ht hc
    refine ⟨hblank, fun hmem => ?_⟩
    rw [isBlank_of_mem_lineEnds hmem] at hblank
    cases hblank
  · have hfound (t : Token) (ht : t ∈ (tokenize text source).filter (!·.isEnd)) :=
      Token.mem_filter_isEnd.mp ht
    exact ⟨Listing.splitOn_unlines fun l hl => Listing.feed_not_mem_of_mem_lines hfound hl,
      Listing.splitLines_unlines fun l hl => Listing.not_mem_lineEnds_of_mem_lines hl,
      Listing.read_ofText text source⟩
  · intro text source text' source'
    constructor
    · intro h
      have hread := congrArg Listing.read h
      rw [Listing.read_ofText, Listing.read_ofText] at hread
      exact Option.some.inj hread
    · exact fun h => congrArg Listing.unlines (Listing.lines_eq_of_map_eq h)
  · intro args a setting? look codecs input s ts hargs hnotice hverbose hinput hfile hall hnone
    obtain ⟨text, rfl⟩ := Scanner.exists_text_of_all hfile hall
    have hscan : Command.scan args setting? look codecs = _ :=
      Command.scan_of_all hargs hnotice hinput hfile hall hnone
    have hout := congrArg Command.Outcome.output hscan
    rw [hverbose, if_neg Bool.false_ne_true, String.append_empty] at hout
    exact ⟨text, rfl, hout⟩

/-- Three tokens of a file that touch one another are told apart in its listing. -/
theorem listing_unambiguous_touching :
    let look := FileTree.look ⟨[(["a.kay"], [0x78, 0x3C, 0x3D, 0x31, 0x61])], []⟩
    (∃ s ts, Scanner.ofFile look (Path.tidy "a.kay") = .ok s ∧ s.drain.all = .ok ts) ∧
      Listing.read (Command.scan ["a.kay"] (fun _ => none) look).output =
        some [(.identifier, "x"), (.operator, "<="), (.other, "1a")] := by
  intro look
  have hargs : Command.Arguments.read ["a.kay"] = .ok { inputs := ["a.kay"] } := by decide +kernel
  have hinput : Command.inputOf look ["a.kay"] = .ok "a.kay" := by decide +kernel
  have hscan : (Scanner.ofFile look (Path.tidy "a.kay")).map (·.drain.all) =
      .ok (.ok [⟨.identifier, "x", 1, 1, 0, "a.kay"⟩, ⟨.operator, "<=", 1, 2, 1, "a.kay"⟩,
        ⟨.other, "1a", 1, 4, 3, "a.kay"⟩, ⟨.endOfStream, "EOF", 1, 6, 5, "a.kay"⟩]) := by
    decide +kernel
  obtain ⟨s, hs, hall⟩ := Scanner.exists_of_map_all hscan
  obtain ⟨-, hlisting, -, hcommand⟩ := listing_unambiguous
  obtain ⟨text, htext, houtput⟩ :=
    hcommand _ _ (fun _ => none) look .empty _ s _ hargs rfl rfl hinput hs hall
      fun t _ u => Command.not_holdsSurrogate_of_defaults t u
  obtain ⟨-, -, hread⟩ := hlisting text (Path.tidy "a.kay")
  refine ⟨⟨s, _, hs, hall⟩, ?_⟩
  rw [houtput, hread, ← htext]
  rfl

end KayLex
