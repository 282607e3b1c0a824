import KayLex.Proofs.Grammar.Coverage
import KayLex.Proofs.Grammar.Spelling
import KayLex.Proofs.Scanner.Tokens
import Mathlib.Data.List.DropRight

/-!
Where tokens stand. The position of a cursor is kept up step by step; here it is said
of the whole text. The line is told by the line breaks in front, the column by the
characters behind the last one of them. So a reader who cuts the text into lines
finds every token in its line at its column. Only the line feed cuts: the text is not
asked for any other character.
-/

namespace KayLex

/-! ### Lines of a text -/

namespace Text

def lastLine (cs : List Char) : List Char := cs.rtakeWhile (· ≠ '\n')

theorem lastLine_concat (cs : List Char) (c : Char) :
    lastLine (cs ++ [c]) = if c = '\n' then [] else lastLine cs ++ [c] := by
  rw [lastLine, List.rtakeWhile_concat]
  by_cases hc : c = '\n' <;> simp [hc, lastLine]

theorem length_splitOn (cs : List Char) : (cs.splitOn '\n').length = cs.count '\n' + 1 := by
  induction cs with
  | nil => rfl
  | cons c cs ih =>
      rw [List.splitOn_cons_eq_if_modifyHead, List.count_cons]
      split <;> simp [ih]

theorem getElem?_zero_splitOn (cs : List Char) :
    (cs.splitOn '\n')[0]? = some (cs.takeWhile (· ≠ '\n')) := by
  induction cs with
  | nil => rfl
  | cons c cs ih =>
      rw [List.splitOn_cons_eq_if_modifyHead, List.takeWhile_cons]
      by_cases hc : c = '\n'
      · simp [hc]
      · obtain ⟨line, rest, hlines⟩ := List.exists_cons_of_ne_nil (List.splitOn_ne_nil '\n' cs)
        rw [hlines] at ih ⊢
        cases ih
        simp [hc]

/-- The line in which a text is cut, with the part in front of the cut and the part behind. -/
theorem getElem?_splitOn (front beyond : List Char) :
    ((front ++ beyond).splitOn '\n')[front.count '\n']? =
      some (lastLine front ++ beyond.takeWhile (· ≠ '\n')) := by
  induction front using List.reverseRecOn generalizing beyond with
  | nil => exact getElem?_zero_splitOn beyond
  | append_singleton front c ih =>
      rw [List.append_assoc, List.singleton_append, List.count_append, lastLine_concat]
      by_cases hc : c = '\n'
      · subst hc
        rw [List.splitOn_append_cons_self, List.getElem?_append_right (by simp [length_splitOn]),
          length_splitOn]
        simpa using getElem?_zero_splitOn beyond
      · rw [if_neg hc, List.count_singleton, if_neg (by simpa using hc), Nat.add_zero, ih,
          List.takeWhile_cons_of_pos (by simpa using hc), List.append_assoc,
          List.singleton_append]

end Text

/-! ### Positions -/

namespace Position

open Text

variable {p q r : Position} {cs : List Char}

theorem line_afterAll (p : Position) (cs : List Char) :
    (p.afterAll cs).line = p.line + cs.count '\n' := by
  induction cs generalizing p with
  | nil => rfl
  | cons c cs ih =>
      rw [afterAll_cons, ih, after, List.count_cons]
      split
      · next hc => simp [hc]; omega
      · next hc => simp [hc]

theorem column_afterAll (cs : List Char) :
    (({} : Position).afterAll cs).column = (lastLine cs).length + 1 := by
  induction cs using List.reverseRecOn with
  | nil => rfl
  | append_singleton cs c ih =>
      rw [afterAll_append, afterAll_cons, afterAll_nil, after, lastLine_concat]
      split
      · rfl
      · rw [List.length_append, ih]
        rfl

/-- A position comes earlier in the order in which a text is read. -/
def Before (p q : Position) : Prop := p.line < q.line ∨ p.line = q.line ∧ p.column < q.column

theorem Before.trans (hpq : Before p q) (hqr : Before q r) : Before p r := by
  unfold Before at *
  omega

theorem before_after (p : Position) (c : Char) : Before p (p.after c) := by
  unfold Before after
  split <;> simp

theorem before_afterAll (p : Position) (hne : cs ≠ []) : Before p (p.afterAll cs) := by
  induction cs generalizing p with
  | nil => exact absurd rfl hne
  | cons c cs ih =>
      cases cs with
      | nil => exact before_after p c
      | cons d cs => exact (before_after p c).trans (ih (p.after c) (List.cons_ne_nil d cs))

end Position

/-! ### Tokens -/

namespace Grammar

open Text

variable {text source : String} {t : Token}

theorem exists_start (ht : t ∈ tokenize text source) :
    ∃ front beyond, text.toList = front ++ beyond ∧ t.offset = front.length ∧
      t.line = (({} : Position).afterAll front).line ∧
      t.column = (({} : Position).afterAll front).column ∧
      (t.isEnd = false → t.lexeme.toList <+: beyond ∧ '\n' ∉ t.lexeme.toList) := by
  rw [tokenize_eq_lexemes] at ht
  rcases List.mem_append.mp ht with ht | ht
  · obtain ⟨x, hx, rfl⟩ := List.mem_map.mp ht
    obtain ⟨hvalid, -, front, beyond, htext, hstart⟩ := valid_of_mem_lexemesFrom hx
    refine ⟨front, x.lexeme ++ beyond, htext, ?_, ?_, ?_, fun _ => ?_⟩
    · rw [Found.token, hstart, Position.offset_afterAll, Nat.zero_add]
    · rw [Found.token, hstart]
    · rw [Found.token, hstart]
    · rw [Found.token, String.toList_ofList]
      refine ⟨List.prefix_append .., fun hmem => ?_⟩
      have hblank := (spells_of_valid hvalid).isBlank hmem
      rw [show Text.isBlank '\n' = true by decide] at hblank
      cases hblank
  · rw [List.mem_singleton.mp ht, Token.sentinel, Found.token, last_lexemesFrom]
    refine ⟨text.toList, [], by simp, ?_, rfl, rfl, fun hend => ?_⟩
    · rw [Position.offset_afterAll, Nat.zero_add]
    · cases hend

theorem length_lexeme_pos {x : Found} (hne : x.lexeme ≠ []) (source : String) :
    0 < (x.token source).lexeme.length := by
  rw [Found.token, String.length_ofList]
  exact List.length_pos_iff.mpr hne

theorem pairwise_offset (text source : String) :
    (tokenize text source).Pairwise fun a b => a.offset < b.offset := by
  obtain ⟨hcovers, -⟩ := covers_lexemesFrom source text.toList [] (p := {}) rfl
  rw [tokenize_eq_lexemes, List.pairwise_append]
  refine ⟨?_, List.pairwise_singleton .., ?_⟩
  · refine hcovers.pairwise.imp_of_mem fun ha _ hab => ?_
    obtain ⟨x, hx, rfl⟩ := List.mem_map.mp ha
    have := length_lexeme_pos (valid_of_mem_lexemesFrom hx).2.1 source
    omega
  · intro a ha b hb
    obtain ⟨x, hx, rfl⟩ := List.mem_map.mp ha
    obtain ⟨-, hne, front, beyond, htext, hstart⟩ := valid_of_mem_lexemesFrom hx
    have hpos := List.length_pos_iff.mpr hne
    have hlength := congrArg List.length htext
    simp only [List.length_append] at hlength
    rw [List.mem_singleton.mp hb, Token.sentinel, Found.token, Found.token, last_lexemesFrom,
      hstart, Position.offset_afterAll, Position.offset_afterAll]
    show ((0 + front.length : Nat) : Int) < ((0 + text.toList.length : Nat) : Int)
    omega

theorem before_of_length_lt {cs front front' beyond beyond' : List Char}
    (h : cs = front ++ beyond) (h' : cs = front' ++ beyond') (hlt : front.length < front'.length) :
    (({} : Position).afterAll front).Before (({} : Position).afterAll front') := by
  have hprefix : front <+: front' :=
    List.prefix_of_prefix_length_le ⟨beyond, h.symm⟩ ⟨beyond', h'.symm⟩ (Nat.le_of_lt hlt)
  obtain ⟨between, rfl⟩ := hprefix
  rw [Position.afterAll_append]
  refine Position.before_afterAll _ fun hnil => ?_
  simp [hnil] at hlt

/-- What stands behind a place in a text is found in its line, up to the next line break. -/
theorem prefix_line {front beyond lexeme : List Char} (hlexeme : lexeme <+: beyond)
    (hbreak : '\n' ∉ lexeme) :
    ∃ line, ((front ++ beyond).splitOn '\n')[front.count '\n']? = some line ∧
      lexeme <+: line.drop (lastLine front).length := by
  obtain ⟨rest, rfl⟩ := hlexeme
  refine ⟨_, getElem?_splitOn front _, ?_⟩
  have hall : ∀ c ∈ lexeme, decide (c ≠ '\n') = true := by
    intro c hc
    simpa using fun h : c = '\n' => hbreak (h ▸ hc)
  rw [List.drop_left' rfl, List.takeWhile_append_of_pos hall]
  exact List.prefix_append ..

end Grammar

/-- The line and column of every token of a text are told by the text in front of it, and
only line feeds count as line breaks; so a lexeme is found in its line at its column, and
tokens come in the order of lines and columns. -/
theorem tokenize_places (text source : String) :
    (∀ t ∈ tokenize text source, ∃ front beyond, text.toList = front ++ beyond ∧
      t.offset = front.length ∧ t.line = 1 + front.count '\n' ∧
      t.column = 1 + (Text.lastLine front).length ∧
      (t.isEnd = false → ∃ line, (text.toList.splitOn '\n')[front.count '\n']? = some line ∧
        t.lexeme.toList <+: line.drop (Text.lastLine front).length)) ∧
      (tokenize text source).Pairwise fun a b =>
        a.line < b.line ∨ a.line = b.line ∧ a.column < b.column := by
  refine ⟨fun t ht => ?_, ?_⟩
  · obtain ⟨front, beyond, htext, hoffset, hline, hcolumn, hlexeme⟩ := Grammar.exists_start ht
    refine ⟨front, beyond, htext, hoffset, ?_, ?_, fun hend => ?_⟩
    · rw [hline, Position.line_afterAll]
      rfl
    · rw [hcolumn, Position.column_afterAll, Nat.add_comm]
      rfl
    · obtain ⟨hfront, hbreak⟩ := hlexeme hend
      rw [htext]
      exact Grammar.prefix_line hfront hbreak
  · refine (Grammar.pairwise_offset text source).imp_of_mem fun ha hb hab => ?_
    obtain ⟨front, beyond, htext, hoffset, hline, hcolumn, -⟩ := Grammar.exists_start ha
    obtain ⟨front', beyond', htext', hoffset', hline', hcolumn', -⟩ := Grammar.exists_start hb
    rw [hoffset, hoffset'] at hab
    have hbefore := Grammar.before_of_length_lt htext htext' (by omega)
    unfold Position.Before at hbefore
    rw [hline, hline', hcolumn, hcolumn']
    omega

end KayLex
