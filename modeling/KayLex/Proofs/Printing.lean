import KayLex.Proofs.Grammar.Spelling
import KayLex.Proofs.Scanner.Tokens

/-!
Printing and scanning are inverse to each other. A text that is printed from lexemes
holds these lexemes again: each of them ends at the blank behind it, and the separator
is a gap that the scanner skips to its end. Nothing else can be scanned from any text,
so what a scan finds can always be printed.
-/

namespace KayLex

namespace Grammar

open Text Lexicon

variable {p : Position} {c d : Char} {cs rest gap body lexeme : List Char} {k : Kind}

/-! ### Gaps are skipped to their end -/

theorem afterBlock_append (hbody : ¬ blockEnd <:+: body ++ ['*']) :
    afterBlock (body ++ (blockEnd ++ rest)) = rest := by
  induction body with
  | nil => rfl
  | cons c body ih =>
      rw [List.cons_append, blockEnd_infix_cons, not_or] at hbody
      rw [List.cons_append, afterBlock]
      · exact ih hbody.2
      · -- A star and a slash in front would already be an end within the body.
        rintro tail rfl htail
        apply hbody.1
        rw [blockEnd_prefix_iff]
        cases body with
        | nil => simp [blockEnd] at htail
        | cons e body =>
            obtain ⟨rfl, -⟩ := List.cons.inj htail
            exact ⟨body ++ ['*'], rfl⟩

theorem skip_append_of_gap (h : Gap false gap) : skip (gap ++ cs) = skip cs := by
  generalize hfinal : false = final at h
  induction h with
  | nil => rfl
  | blank hc _ ih => rw [List.cons_append, skip_blank hc, ih hfinal]
  | @line _ body e rest hbody he _ ih =>
      have hdrop : (body ++ e :: (rest ++ cs)).dropWhile (!endsLine ·) = e :: (rest ++ cs) := by
        rw [List.dropWhile_append_of_pos (List.all_eq_true.mp hbody),
          List.dropWhile_cons_of_neg (by simp [he])]
      rw [List.cons_append, List.cons_append, skip_line, List.append_assoc, List.cons_append, hdrop]
      exact ih hfinal
  | lineToEnd => cases hfinal
  | block hbody _ ih =>
      rw [List.cons_append, List.cons_append, skip_block, List.append_assoc, List.append_assoc,
        afterBlock_append hbody, ih hfinal]
  | blockToEnd => cases hfinal

/-! ### Lexemes end at a blank -/

/-- The text is at its end, or there is a blank in front. -/
def Ends (cs : List Char) : Prop := ∀ d ∈ cs.head?, isBlank d = true

theorem ends_nil : Ends [] := by simp [Ends]

theorem Ends.head?_ne (h : Ends cs) (hd : isBlank d = false) : cs.head? ≠ some d := by
  intro hhead
  rw [h d hhead] at hd
  cases hd

theorem Spells.longest (h : Spells k lexeme) (hrest : Ends rest) :
    longest (lexeme ++ rest) = some (k, lexeme) := by
  refine longest_append lexeme h.ne_nil (kindOf?_of_spells h) fun more hne hmore => ?_
  obtain ⟨d, tail, rfl⟩ := List.exists_cons_of_ne_nil hne
  obtain ⟨beyond, rfl⟩ := hmore
  exact kindOf?_append_of_isBlank h.ne_nil (hrest d rfl)

/-- No gap begins where a lexeme begins; a slash stands alone, because a blank follows. -/
theorem Spells.skip (h : Spells k lexeme) (hrest : Ends rest) :
    skip (lexeme ++ rest) = lexeme ++ rest := by
  obtain ⟨c, tail, rfl⟩ := List.exists_cons_of_ne_nil h.ne_nil
  have hblank := h.isBlank (List.mem_cons_self ..)
  by_cases hslash : c = '/'
  · subst hslash
    have hlongest := h.longest ends_nil
    rw [List.append_nil, longest_slash] at hlongest
    cases hlongest
    exact skip_slash (hrest.head?_ne (by decide)) (hrest.head?_ne (by decide))
  · exact skip_of_ne_slash hblank hslash

theorem lexemesFrom_of_spells (hgap : Gap false gap) (h : Spells k lexeme) (hrest : Ends rest) :
    lexemesFrom p (gap ++ (lexeme ++ rest)) =
      (⟨p.afterAll gap, k, lexeme⟩ :: (lexemesFrom (p.afterAll (gap ++ lexeme)) rest).1,
        (lexemesFrom (p.afterAll (gap ++ lexeme)) rest).2) := by
  obtain ⟨c, tail, rfl⟩ := List.exists_cons_of_ne_nil h.ne_nil
  have hskip : Grammar.skip (gap ++ (c :: tail ++ rest)) = c :: (tail ++ rest) := by
    rw [skip_append_of_gap hgap, h.skip hrest, List.cons_append]
  exact lexemesFrom_of_longest (by rw [hskip, List.cons_append]) hskip (h.longest hrest) rfl

/-! ### Printed texts -/

theorem Separator.gap_chars (s : Separator) : Gap false s.chars := .blank s.isBlank_blank s.isGap

theorem Separator.ends (s : Separator) (cs : List Char) : Ends (s.chars ++ cs) := by
  intro d hd
  cases hd
  exact s.isBlank_blank

theorem lexemesFrom_print (separators : Nat → Separator) (xs : List Spelling)
    (hgap : Gap false gap) :
    (lexemesFrom p (gap ++ print separators xs)).1.map (fun x => (x.kind, x.lexeme)) =
      xs.map fun x => (x.kind, x.chars) := by
  fun_induction print separators xs generalizing p gap with
  | case1 =>
      have hskip : skip (gap ++ []) = [] := by rw [skip_append_of_gap hgap, skip_nil]
      rw [lexemesFrom_of_gap hskip]
      rfl
  | case2 separators x =>
      have h := lexemesFrom_of_spells (p := p) hgap x.spells ends_nil
      rw [List.append_nil] at h
      rw [h, lexemesFrom_of_gap skip_nil]
      rfl
  | case3 separators x y rest ih =>
      rw [lexemesFrom_of_spells hgap x.spells ((separators 0).ends _), List.map_cons,
        ih (separators 0).gap_chars]
      rfl

end Grammar

/-- Scanning a printed text gives back the lexemes that were printed, whatever separates
them; and what is scanned from any text are lexemes that can be printed. -/
theorem tokenize_print (source : String) :
    (∀ (separators : Nat → Grammar.Separator) (xs : List Grammar.Spelling),
      (tokenize (String.ofList (Grammar.print separators xs)) source).map
          (fun t => (t.kind, t.lexeme)) =
        xs.map (fun x => (x.kind, String.ofList x.chars)) ++
          [(Kind.endOfStream, Token.endLexeme)]) ∧
      ∀ text : String, ∀ t ∈ tokenize text source, t.isEnd = false →
        Grammar.Spells t.kind t.lexeme.toList := by
  refine ⟨fun separators xs => ?_, fun text t ht hend => ?_⟩
  · have hlexemes := Grammar.lexemesFrom_print (p := {}) separators xs .nil
    have hpairs := congrArg (List.map (Prod.map id String.ofList)) hlexemes
    rw [List.nil_append, List.map_map, List.map_map] at hpairs
    rw [tokenize_eq_lexemes, String.toList_ofList, List.map_append, List.map_map]
    exact congrArg (· ++ [(Kind.endOfStream, Token.endLexeme)]) hpairs
  · rw [tokenize_eq_lexemes] at ht
    rcases List.mem_append.mp ht with ht | ht
    · obtain ⟨x, hx, rfl⟩ := List.mem_map.mp ht
      rw [Found.token, String.toList_ofList]
      exact Grammar.spells_of_valid (Grammar.valid_of_mem_lexemesFrom hx).1
    · rw [List.mem_singleton.mp ht] at hend
      cases hend

end KayLex
