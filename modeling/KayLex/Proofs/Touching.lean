import KayLex.Proofs.Grammar.Boundaries

/-!
Lexemes that touch. Two lexemes are found again in the text that they make side by side,
unless the first one goes on with the first character of the second, or the two open a
comment. Nothing behind that character matters, since it is all that the scanner looks at
before it takes the first lexeme for finished.
-/

namespace KayLex

namespace Grammar

open Text Lexicon

variable {p : Position} {cs ds : List Char} {k l : Kind}

/-- Two lexemes that are taken for something else when nothing stands between them: word
characters go on in word characters, a sign is the first one of an operator, or a slash opens a
comment. -/
def Clash (first second : List Char) : Prop :=
  (∃ c ∈ first.head?, ∃ d ∈ second.head?, (isLetter c = true ∨ isDecimalDigit c = true) ∧
    (isLetter d = true ∨ isDecimalDigit d = true ∨ d = '_')) ∨
  (∃ c, ∃ d ∈ second.head?, first = [c] ∧ String.ofList [c, d] ∈ operators) ∨
  first = ['/'] ∧ (second.head? = some '/' ∨ second.head? = some '*')

/-! ### One lexeme -/

theorem lexemesFrom_of_alone (hne : cs ≠ []) (hskip : skip cs = cs)
    (hlongest : longest cs = some (k, cs)) :
    lexemesFrom p cs = ([⟨p, k, cs⟩], p.afterAll cs) := by
  obtain ⟨c, tail, rfl⟩ := List.exists_cons_of_ne_nil hne
  have hgap : c :: tail = [] ++ skip (c :: tail) := by rw [hskip, List.nil_append]
  have h := lexemesFrom_of_longest (p := p) hgap hskip hlongest (List.append_nil _).symm
  rwa [lexemesFrom_of_gap skip_nil] at h

theorem alone_of_lexemesFrom
    (h : (lexemesFrom p cs).1.map (fun x => (x.kind, x.lexeme)) = [(k, cs)]) :
    cs ≠ [] ∧ skip cs = cs ∧ longest cs = some (k, cs) := by
  rcases lexemesFrom_cases p cs with
    ⟨-, -, heq⟩ | ⟨gap, kind, c, tail, beyond, hcs, -, hskip, -, hlongest, heq⟩
  · rw [heq] at h
    cases h
  · rw [heq, List.map_cons] at h
    obtain ⟨hpair, -⟩ := List.cons.inj h
    obtain ⟨rfl, hlexeme⟩ := Prod.mk.inj hpair
    -- The lexeme is as long as the text, so nothing stands before it or behind it.
    have hlength := congrArg List.length hcs
    rw [← hlexeme] at hlength
    simp only [List.length_append, List.length_cons] at hlength
    obtain rfl : beyond = [] := List.eq_nil_of_length_eq_zero (by omega)
    rw [List.append_nil] at hskip hlongest
    exact ⟨hlexeme ▸ List.cons_ne_nil c tail, hlexeme ▸ hskip, hlexeme ▸ hlongest⟩

/-! ### Two lexemes -/

theorem front_of_lexemesFrom
    (h : (lexemesFrom p (cs ++ ds)).1.map (fun x => (x.kind, x.lexeme)) = [(k, cs), (l, ds)]) :
    skip (cs ++ ds) = cs ++ ds ∧ longest (cs ++ ds) = some (k, cs) := by
  rcases lexemesFrom_cases p (cs ++ ds) with
    ⟨-, -, heq⟩ | ⟨gap, kind, c, tail, beyond, hcs, -, hskip, -, hlongest, heq⟩
  · rw [heq] at h
    cases h
  · rw [heq, List.map_cons] at h
    obtain ⟨hpair, hrest⟩ := List.cons.inj h
    obtain ⟨rfl, rfl⟩ := Prod.mk.inj hpair
    obtain ⟨y, more, hmore, hy, -⟩ := List.map_eq_cons_iff.mp hrest
    obtain ⟨-, -, before, last, hbeyond, -⟩ :=
      valid_of_mem_lexemesFrom (hmore ▸ List.mem_cons_self .. : y ∈ _)
    obtain ⟨-, rfl⟩ := Prod.mk.inj hy
    -- The two lexemes are as long as the text, so there is no room for a gap.
    have hlength := congrArg List.length hcs
    rw [hbeyond] at hlength
    simp only [List.length_append, List.length_cons] at hlength
    obtain rfl : gap = [] := List.eq_nil_of_length_eq_zero (by omega)
    rw [List.nil_append] at hcs
    exact ⟨(hcs ▸ hskip : skip (c :: tail ++ y.lexeme) = _).trans hcs.symm, hcs ▸ hlongest⟩

/-- Side by side, two lexemes are found just if no gap begins with the first one, and it is not
the beginning of a longer lexeme. -/
theorem lexemesFrom_append_iff (hcs : cs ≠ []) (hds : ds ≠ []) (hskip : skip ds = ds)
    (hlongest : longest ds = some (l, ds)) :
    (lexemesFrom p (cs ++ ds)).1.map (fun x => (x.kind, x.lexeme)) = [(k, cs), (l, ds)] ↔
      skip (cs ++ ds) = cs ++ ds ∧ longest (cs ++ ds) = some (k, cs) := by
  refine ⟨front_of_lexemesFrom, ?_⟩
  rintro ⟨hfront, hfirst⟩
  obtain ⟨c, tail, rfl⟩ := List.exists_cons_of_ne_nil hcs
  have hgap : c :: tail ++ ds = [] ++ skip (c :: tail ++ ds) := by rw [hfront, List.nil_append]
  rw [lexemesFrom_of_longest hgap hfront hfirst rfl, lexemesFrom_of_alone hds hskip hlongest]
  rfl

theorem clash_iff :
    Clash cs ds ↔ (∃ d ∈ ds.head?, Fuses cs d) ∨
      cs = ['/'] ∧ (ds.head? = some '/' ∨ ds.head? = some '*') := by
  rw [Clash, ← or_assoc]
  refine or_congr_left ?_
  simp only [Fuses, isWordChar, Bool.or_eq_true, beq_iff_eq, or_assoc]
  constructor
  · rintro (⟨c, hc, d, hd, hfirst, hsecond⟩ | ⟨c, d, hd, hcs, hop⟩)
    · exact ⟨d, hd, .inl ⟨⟨c, hc, hfirst⟩, hsecond⟩⟩
    · exact ⟨d, hd, .inr ⟨c, hcs, hop⟩⟩
  · rintro ⟨d, hd, ⟨⟨c, hc, hfirst⟩, hsecond⟩ | ⟨c, hcs, hop⟩⟩
    · exact .inl ⟨c, hc, d, hd, hfirst, hsecond⟩
    · exact .inr ⟨c, d, hd, hcs, hop⟩

/-- Behind a text that no gap begins, more text makes up one only if the text is a slash and the
two open a comment. -/
theorem skip_append_iff (hne : cs ≠ []) (hskip : skip cs = cs) :
    skip (cs ++ ds) = cs ++ ds ↔
      ¬ (cs = ['/'] ∧ (ds.head? = some '/' ∨ ds.head? = some '*')) := by
  obtain ⟨c, tail, rfl⟩ := List.exists_cons_of_ne_nil hne
  rw [skip_eq_self_iff] at hskip
  obtain ⟨hblank, hslash⟩ := hskip
  rw [List.cons_append, skip_eq_self_iff]
  cases tail with
  | nil => simp [hblank]
  | cons e tail => simpa [hblank] using hslash

theorem front_iff_not_clash (hcs : cs ≠ []) (hskip : skip cs = cs) (hk : kindOf? cs = some k) :
    skip (cs ++ ds) = cs ++ ds ∧ longest (cs ++ ds) = some (k, cs) ↔ ¬ Clash cs ds := by
  rw [skip_append_iff hcs hskip, longest_append_iff hk, clash_iff, not_or, and_comm]
  simp only [not_exists, not_and]

end Grammar

open Grammar

/-! ### Tokens -/

/-- The text is scanned as one token, which shows all of it. -/
def StandsAlone (source : String) (kind : Kind) (text : String) : Prop :=
  (tokenize text source).map (fun t => (t.kind, t.lexeme)) =
    [(kind, text), (.endOfStream, Token.endLexeme)]

instance (source : String) (kind : Kind) (text : String) :
    Decidable (StandsAlone source kind text) :=
  inferInstanceAs (Decidable (_ = _))

theorem map_tokenize_eq_iff (text source : String) (lexemes : List (Kind × List Char)) :
    (tokenize text source).map (fun t => (t.kind, t.lexeme)) =
        lexemes.map (Prod.map id String.ofList) ++ [(.endOfStream, Token.endLexeme)] ↔
      (lexemesFrom {} text.toList).1.map (fun x => (x.kind, x.lexeme)) = lexemes := by
  have htokens : (tokenize text source).map (fun t => (t.kind, t.lexeme)) =
      ((lexemesFrom {} text.toList).1.map (fun x => (x.kind, x.lexeme))).map
          (Prod.map id String.ofList) ++ [(.endOfStream, Token.endLexeme)] := by
    rw [tokenize_eq_lexemes, List.map_append, List.map_map, List.map_map]
    rfl
  rw [htokens, List.append_cancel_right_eq]
  refine ⟨fun h => ?_, fun h => by rw [h]⟩
  have hchars := congrArg (List.map (Prod.map id String.toList)) h
  rw [List.map_map, List.map_map] at hchars
  simpa [Function.comp_def, Prod.map] using hchars

theorem StandsAlone.lexeme {source text : String} {kind : Kind}
    (h : StandsAlone source kind text) :
    text.toList ≠ [] ∧ skip text.toList = text.toList ∧
      longest text.toList = some (kind, text.toList) := by
  apply alone_of_lexemesFrom (p := {})
  rw [← map_tokenize_eq_iff text source]
  simpa [StandsAlone] using h

/-- Two lexemes that touch are scanned as these two just if they do not clash. -/
theorem tokenize_touching_iff {source a b : String} {k l : Kind} (ha : StandsAlone source k a)
    (hb : StandsAlone source l b) :
    (tokenize (a ++ b) source).map (fun t => (t.kind, t.lexeme)) =
        [(k, a), (l, b), (.endOfStream, Token.endLexeme)] ↔
      ¬ Clash a.toList b.toList := by
  obtain ⟨hane, haskip, halongest⟩ := ha.lexeme
  obtain ⟨hbne, hbskip, hblongest⟩ := hb.lexeme
  obtain ⟨-, hk⟩ := prefix_of_longest halongest
  have htokens := map_tokenize_eq_iff (a ++ b) source [(k, a.toList), (l, b.toList)]
  simp only [List.map_cons, List.map_nil, Prod.map_apply, id_eq, String.ofList_toList,
    List.cons_append, List.nil_append, String.toList_append] at htokens
  rw [htokens, lexemesFrom_append_iff hane hbne hbskip hblongest,
    front_iff_not_clash hane haskip hk]

/-- Behind an operator of two characters an equals sign stands for itself, and a lone colon takes
it even from an operator. -/
theorem tokenize_touching_equals :
    StandsAlone "s" .operator ">=" ∧ StandsAlone "s" .operator "==" ∧ StandsAlone "s" .other ":" ∧
      (tokenize (">=" ++ "==") "s").map (fun t => (t.kind, t.lexeme)) =
        [(.operator, ">="), (.operator, "=="), (.endOfStream, Token.endLexeme)] ∧
      (tokenize (":" ++ "==") "s").map (fun t => (t.kind, t.lexeme)) ≠
        [(.other, ":"), (.operator, "=="), (.endOfStream, Token.endLexeme)] := by
  have hequals : StandsAlone "s" .operator "==" := by decide +kernel
  have hmore : StandsAlone "s" .operator ">=" := by decide +kernel
  have hcolon : StandsAlone "s" .other ":" := by decide +kernel
  refine ⟨hmore, hequals, hcolon, (tokenize_touching_iff hmore hequals).mpr ?_, fun h => ?_⟩
  · rintro (⟨c, hc, d, -, hword, -⟩ | ⟨c, d, -, hc, -⟩ | ⟨hslash, -⟩)
    · cases hc
      revert hword
      decide
    · cases hc
    · cases hslash
  · refine (tokenize_touching_iff hcolon hequals).mp h (.inr (.inl ⟨':', '=', rfl, rfl, ?_⟩))
    decide

end KayLex
