import KayLex.Proofs.Grammar.Boundaries
import KayLex.Text.LineBreak
import Mathlib.Data.List.Forall2

/-!
Texts with other line breaks. A line break is a blank whatever it is made of, it ends a line
comment, and it has no part in the end of a block comment. So a gap stays a gap and a lexeme
stays what it is when the line breaks of a text are replaced, and it only remains to be said
where the lexemes stand: behind the same text, with its line breaks replaced.

As long as every line break goes on to have a line feed, lines and columns are not changed by
that, and offsets only by the carriage returns that have been put in.
-/

namespace KayLex

namespace Grammar

open Text Lexicon

variable {breaks : Nat → LineBreak} {c e : Char} {cs rest gap : List Char} {final : Bool}

/-! ### Gaps -/

theorem Gap.skip (h : Gap final gap) : skip gap = [] := by
  induction h with
  | nil => exact skip_nil
  | blank hc _ ih => rw [skip_blank hc, ih]
  | line hbody he _ ih =>
      rw [skip_line, List.dropWhile_append_of_pos (List.all_eq_true.mp hbody),
        List.dropWhile_cons_of_neg (by simp [he])]
      exact ih
  | lineToEnd hbody =>
      rw [skip_line, List.dropWhile_eq_nil_iff.mpr (List.all_eq_true.mp hbody), skip_nil]
  | block hbody _ ih => rw [skip_block, afterBlock_append hbody, ih]
  | @blockToEnd body hbody =>
      rcases afterBlock_cases body with ⟨inner, hinner, -⟩ | ⟨hnil, -⟩
      · exact absurd ⟨inner, afterBlock body, by rw [List.append_assoc, ← hinner]⟩ hbody
      · rw [skip_block, hnil, skip_nil]

theorem Gap.lineBreak (b : LineBreak) (h : Gap final rest) : Gap final (b.chars ++ rest) := by
  cases b with
  | feed => exact .blank (by decide) h
  | returnFeed => exact .blank (by decide) (.blank (by decide) h)
  | carriageReturn => exact .blank (by decide) h

/-- In front of a text there is the same character, or one blank in the place of another. -/
theorem resumes_rebreak (breaks : Nat → LineBreak) (cs : List Char) :
    Resumes cs (rebreak breaks cs) := by
  cases cs with
  | nil => exact .inl rfl
  | cons c cs =>
      by_cases hc : c = '\n'
      · subst hc
        refine .inr fun d hd => ?_
        rw [rebreak_feed] at hd
        cases hb : breaks 0 <;> rw [hb] at hd <;> cases hd <;> decide
      · exact .inl (by rw [rebreak_cons hc, List.head?_cons, List.head?_cons])

theorem exists_rebreak_of_endsLine (he : endsLine e = true) (breaks : Nat → LineBreak)
    (cs : List Char) : ∃ e' cs', rebreak breaks (e :: cs) = e' :: cs' ∧ endsLine e' = true := by
  by_cases hfeed : e = '\n'
  · subst hfeed
    rw [rebreak_feed]
    cases breaks 0 <;> exact ⟨_, _, rfl, by decide⟩
  · exact ⟨e, _, rebreak_cons hfeed, he⟩

theorem not_mem_of_not_endsLine (h : cs.all (!endsLine ·) = true) : '\n' ∉ cs := by
  intro hmem
  exact absurd (List.all_eq_true.mp h _ hmem) (by decide)

theorem blockEnd_infix_of_rebreak (h : blockEnd <:+: rebreak breaks cs) : blockEnd <:+: cs := by
  induction cs generalizing breaks with
  | nil => exact h
  | cons c cs ih =>
      rw [blockEnd_infix_cons]
      by_cases hc : c = '\n'
      · subst hc
        rw [rebreak_feed] at h
        right
        cases hb : breaks 0 <;>
          simp only [hb, LineBreak.chars, List.cons_append, List.nil_append, blockEnd_infix_cons,
            blockEnd_prefix_iff, List.cons.injEq, Char.reduceEq, false_and, exists_false,
            false_or] at h <;> exact ih h
      · rw [rebreak_cons hc, blockEnd_infix_cons] at h
        rcases h with h | h
        · left
          obtain ⟨tail, hstar⟩ := blockEnd_prefix_iff.mp h
          obtain ⟨rfl, hslash⟩ := List.cons.inj hstar
          -- The slash behind the star is no line break, so it has been there before.
          rcases resumes_rebreak breaks cs with hhead | hends
          · rw [hslash, List.head?_cons] at hhead
            obtain ⟨tail', rfl⟩ := List.head?_eq_some_iff.mp hhead.symm
            exact blockEnd_prefix_iff.mpr ⟨tail', rfl⟩
          · rw [hslash] at hends
            exact absurd (hends '/' rfl) (by decide)
        · exact .inr (ih h)

theorem Gap.rebreak (h : Gap final gap) (breaks : Nat → LineBreak) :
    Gap final (rebreak breaks gap) := by
  induction h generalizing breaks with
  | nil => exact .nil
  | @blank _ c rest hc _ ih =>
      by_cases hfeed : c = '\n'
      · subst hfeed
        rw [rebreak_feed]
        exact (ih _).lineBreak _
      · rw [rebreak_cons hfeed]
        exact .blank hc (ih _)
  | @line _ body e rest hbody he _ ih =>
      obtain ⟨e', rest', heq, he'⟩ :=
        exists_rebreak_of_endsLine he (breaksBehind body breaks) rest
      have hrest := ih (breaksBehind body breaks)
      rw [heq] at hrest
      rw [rebreak_cons (by decide), rebreak_cons (by decide), rebreak_append, heq,
        rebreak_of_not_mem (not_mem_of_not_endsLine hbody)]
      exact .line hbody he' hrest
  | lineToEnd hbody =>
      rw [rebreak_cons (by decide), rebreak_cons (by decide),
        rebreak_of_not_mem (not_mem_of_not_endsLine hbody)]
      exact .lineToEnd hbody
  | @block _ body rest hbody _ ih =>
      have hstar : '\n' ∉ ['*'] := by decide
      have hend : '\n' ∉ blockEnd := by decide
      have hinner : ¬ blockEnd <:+: Text.rebreak breaks body ++ ['*'] := by
        have happend := rebreak_append breaks body ['*']
        rw [rebreak_of_not_mem hstar] at happend
        rw [← happend]
        exact mt blockEnd_infix_of_rebreak hbody
      rw [rebreak_cons (by decide), rebreak_cons (by decide), rebreak_append,
        rebreak_append _ blockEnd, rebreak_of_not_mem hend]
      exact .block hinner (ih _)
  | blockToEnd hbody =>
      rw [rebreak_cons (by decide), rebreak_cons (by decide)]
      exact .blockToEnd (mt blockEnd_infix_of_rebreak hbody)

/-! ### Lexemes -/

/-- The lexeme `x` of a text is the lexeme `x'` of the text with other line breaks: it is the
same, and it stands behind the same part of the text. -/
structure Rebroken (breaks : Nat → LineBreak) (text : List Char) (x x' : Found) : Prop where
  kind_eq : x'.kind = x.kind
  lexeme_eq : x'.lexeme = x.lexeme
  exists_front : ∃ front, front <+: text ∧ x.start = ({} : Position).afterAll front ∧
    x'.start = ({} : Position).afterAll (rebreak breaks front)

theorem rebroken_lexemesFrom (breaks : Nat → LineBreak) (front cs : List Char) :
    List.Forall₂ (Rebroken breaks (front ++ cs)) (lexemesFrom (({} : Position).afterAll front) cs).1
      (lexemesFrom (({} : Position).afterAll (rebreak breaks front))
        (rebreak (breaksBehind front breaks) cs)).1 := by
  induction hn : cs.length using Nat.strong_induction_on generalizing front cs with
  | _ n ih =>
      rcases lexemesFrom_cases (({} : Position).afterAll front) cs with
        ⟨hgap, -, heq⟩ | ⟨gap, kind, c, tail, beyond, rfl, hgap, hskip, hvalid, hlongest, heq⟩
      · rw [heq, lexemesFrom_of_gap (hgap.rebreak _).skip]
        exact .nil
      · have hlexeme : '\n' ∉ c :: tail := by
          intro hmem
          exact absurd ((spells_of_valid hvalid).isBlank hmem) (by decide)
        have hlt : beyond.length < n := by
          rw [← hn]
          simp only [List.length_append, List.length_cons]
          omega
        have hgap' := hgap.rebreak (breaksBehind front breaks)
        rw [skip_append_of_gap hgap, ← skip_append_of_gap hgap'] at hskip
        have hbehind : breaksBehind (front ++ gap ++ c :: tail) breaks =
            breaksBehind gap (breaksBehind front breaks) := by
          rw [breaksBehind_append, breaksBehind_append, breaksBehind_of_not_mem hlexeme]
        have hfront : rebreak breaks (front ++ gap ++ c :: tail) = rebreak breaks front ++
            (rebreak (breaksBehind front breaks) gap ++ c :: tail) := by
          rw [rebreak_append, rebreak_append, rebreak_of_not_mem hlexeme, List.append_assoc]
        have hsplit : rebreak (breaksBehind front breaks) (gap ++ c :: (tail ++ beyond)) =
            rebreak (breaksBehind front breaks) gap ++
              c :: (tail ++ rebreak (breaksBehind gap (breaksBehind front breaks)) beyond) := by
          rw [rebreak_append, ← List.cons_append, rebreak_append, rebreak_of_not_mem hlexeme,
            breaksBehind_of_not_mem hlexeme, List.cons_append]
        have hrest := ih beyond.length hlt (front ++ gap ++ c :: tail) beyond rfl
        rw [hbehind, hfront, Position.afterAll_append, Position.afterAll_append,
          Position.afterAll_append] at hrest
        rw [heq, hsplit, (resumes_rebreak _ beyond).lexemesFrom hgap' hskip hlongest]
        refine .cons ⟨rfl, rfl, front ++ gap, by simp, ?_, ?_⟩ ?_
        · rw [Position.afterAll_append]
        · rw [rebreak_append, Position.afterAll_append]
        · simpa using hrest

/-! ### Places -/

/-- Line breaks that all have a line feed in them leave the lines and columns as they were. -/
theorem place_afterAll_rebreak (hbreaks : ∀ i, breaks i ≠ .carriageReturn) (cs : List Char)
    {p p' : Position} (hline : p'.line = p.line) (hcolumn : p'.column = p.column) :
    (p'.afterAll (rebreak breaks cs)).line = (p.afterAll cs).line ∧
      (p'.afterAll (rebreak breaks cs)).column = (p.afterAll cs).column := by
  induction cs generalizing breaks p p' with
  | nil => exact ⟨hline, hcolumn⟩
  | cons c cs ih =>
      by_cases hc : c = '\n'
      · subst hc
        rw [rebreak_feed, Position.afterAll_append]
        have hbehind (b : LineBreak) (hb : b ≠ .carriageReturn) :
            (p'.afterAll b.chars).line = (p.after '\n').line ∧
              (p'.afterAll b.chars).column = (p.after '\n').column := by
          cases b with
          | feed | returnFeed => simp [LineBreak.chars, Position.after, hline]
          | carriageReturn => exact absurd rfl hb
        obtain ⟨hline', hcolumn'⟩ := hbehind (breaks 0) (hbreaks 0)
        exact ih (fun i => hbreaks (i + 1)) hline' hcolumn'
      · rw [rebreak_cons hc, Position.afterAll_cons, Position.afterAll_cons]
        refine ih hbreaks ?_ ?_ <;> simp [Position.after, hc, hline, hcolumn]

theorem length_rebreak (hbreaks : ∀ i, breaks i ≠ .carriageReturn) (hcs : '\r' ∉ cs) :
    (rebreak breaks cs).length = cs.length + (rebreak breaks cs).count '\r' := by
  induction cs generalizing breaks with
  | nil => rfl
  | cons c cs ih =>
      rw [List.mem_cons, not_or] at hcs
      by_cases hc : c = '\n'
      · subst hc
        have hbehind (b : LineBreak) (hb : b ≠ .carriageReturn) :
            b.chars.length = 1 + b.chars.count '\r' := by
          cases b with
          | feed | returnFeed => rfl
          | carriageReturn => exact absurd rfl hb
        have hrest := ih (fun i => hbreaks (i + 1)) hcs.2
        have hfirst := hbehind (breaks 0) (hbreaks 0)
        rw [rebreak_feed, List.length_append, List.count_append, List.length_cons]
        omega
      · rw [rebreak_cons hc, List.length_cons, List.length_cons,
          List.count_cons_of_ne (Ne.symm hcs.1), ih hbreaks hcs.2]
        omega

/-- All tokens of a text come from lexemes that correspond, the sentinel from one at the end. -/
theorem exists_rebroken_tokens (text source : String) (breaks : Nat → LineBreak) :
    ∃ found found', List.Forall₂ (Rebroken breaks text.toList) found found' ∧
      tokenize text source = found.map (Found.token source) ∧
      tokenize (String.ofList (rebreak breaks text.toList)) source =
        found'.map (Found.token source) := by
  have hsentinel : Rebroken breaks text.toList
      ⟨({} : Position).afterAll text.toList, .endOfStream, Token.endLexeme.toList⟩
      ⟨({} : Position).afterAll (rebreak breaks text.toList), .endOfStream,
        Token.endLexeme.toList⟩ :=
    ⟨rfl, rfl, text.toList, List.prefix_refl _, rfl, rfl⟩
  refine ⟨_, _, List.rel_append (rebroken_lexemesFrom breaks [] text.toList)
    (.cons hsentinel .nil), ?_, ?_⟩
  · rw [tokenize_eq_lexemes, last_lexemesFrom, List.map_append]
    rfl
  · rw [tokenize_eq_lexemes, last_lexemesFrom, String.toList_ofList, List.map_append]
    rfl

end Grammar

open Grammar Text

/-- The line breaks of a text do not matter to its tokens: with others in their place there
are the same kinds and lexemes in the same order. If none of them is a carriage return alone,
all tokens keep their lines and columns too, and the carriage returns in front of a token are
what its offset grows by. -/
theorem tokenize_rebreak (text source : String) (breaks : Nat → LineBreak) :
    List.Forall₂ (fun t t' : Token => t'.kind = t.kind ∧ t'.lexeme = t.lexeme)
        (tokenize text source)
        (tokenize (String.ofList (rebreak breaks text.toList)) source) ∧
      ('\r' ∉ text.toList → (∀ i, breaks i ≠ .carriageReturn) →
        List.Forall₂
          (fun t t' : Token => t'.line = t.line ∧ t'.column = t.column ∧
            ∃ front, front <+: rebreak breaks text.toList ∧ t'.offset = front.length ∧
              t'.offset = t.offset + front.count '\r')
          (tokenize text source)
          (tokenize (String.ofList (rebreak breaks text.toList)) source)) := by
  obtain ⟨found, found', hrebroken, htokens, htokens'⟩ :=
    exists_rebroken_tokens text source breaks
  rw [htokens, htokens', List.forall₂_map_left_iff, List.forall₂_map_right_iff,
    List.forall₂_map_left_iff, List.forall₂_map_right_iff]
  constructor
  · refine hrebroken.imp fun x x' h => ?_
    rw [Found.token, Found.token, h.kind_eq, h.lexeme_eq]
    exact ⟨rfl, rfl⟩
  · intro hreturn hbreaks
    refine hrebroken.imp fun x x' h => ?_
    obtain ⟨front, ⟨behind, hfront⟩, hstart, hstart'⟩ := h.exists_front
    obtain ⟨hline, hcolumn⟩ := place_afterAll_rebreak hbreaks front
      (rfl : ({} : Position).line = ({} : Position).line) rfl
    have hnone : '\r' ∉ front := by
      intro hmem
      exact hreturn (hfront ▸ List.mem_append_left _ hmem)
    have hlength := length_rebreak hbreaks hnone
    refine ⟨by simp [Found.token, hstart, hstart', hline],
      by simp [Found.token, hstart, hstart', hcolumn], rebreak breaks front, ?_, ?_, ?_⟩
    · exact ⟨rebreak (breaksBehind front breaks) behind, by rw [← rebreak_append, hfront]⟩
    · simp [Found.token, hstart']
    · simp only [Found.token, hstart, hstart', Position.offset_afterAll]
      omega

/-- Line breaks behind a line comment, in a block comment and between two signs. -/
theorem tokenize_rebreak_mixed :
    '\r' ∉ "a // b\n/* *\n/ */ <\n=".toList ∧
      (∀ i, (fun i => if i = 1 then .feed else .returnFeed : Nat → LineBreak) i ≠
        .carriageReturn) ∧
      String.ofList (rebreak (fun i => if i = 1 then .feed else .returnFeed)
        "a // b\n/* *\n/ */ <\n=".toList) = "a // b\r\n/* *\n/ */ <\r\n=" ∧
      List.Forall₂
        (fun t t' : Token => t'.line = t.line ∧ t'.column = t.column ∧
          ∃ front, front <+: "a // b\r\n/* *\n/ */ <\r\n=".toList ∧ t'.offset = front.length ∧
            t'.offset = t.offset + front.count '\r')
        (tokenize "a // b\n/* *\n/ */ <\n=" "s")
        (tokenize "a // b\r\n/* *\n/ */ <\r\n=" "s") := by
  have hreturn : '\r' ∉ "a // b\n/* *\n/ */ <\n=".toList := by decide
  have hbreaks : ∀ i, (fun i => if i = 1 then .feed else .returnFeed : Nat → LineBreak) i ≠
      .carriageReturn := by
    intro i
    dsimp only
    split <;> decide
  have htext : String.ofList (rebreak (fun i => if i = 1 then .feed else .returnFeed)
      "a // b\n/* *\n/ */ <\n=".toList) = "a // b\r\n/* *\n/ */ <\r\n=" := by decide
  have h := (tokenize_rebreak "a // b\n/* *\n/ */ <\n=" "s" _).2 hreturn hbreaks
  rw [htext, ← String.toList_ofList (l := rebreak _ _), htext] at h
  exact ⟨hreturn, hbreaks, htext, h⟩

end KayLex
