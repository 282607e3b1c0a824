import KayLex.Proofs.Grammar.Boundaries
import KayLex.Proofs.Moving
import KayLex.Proofs.Places

/-!
What happens when a text goes on. A token that something stands behind is settled, since
one character of that is all the scanner looks at. A line break settles everything in front
of it, because no token and no gap goes on across it but a block comment; so the lines of a
text can be scanned one by one, unless one of them ends within such a comment.
-/

namespace KayLex

namespace Grammar

open Text Lexicon

variable {p : Position} {cs rest gap front body : List Char} {final : Bool}

/-! ### Gaps -/

theorem lexemesFrom_of_skip (h : skip (gap ++ cs) = skip cs) :
    lexemesFrom p (gap ++ cs) = lexemesFrom (p.afterAll gap) cs := by
  rcases lexemesFrom_cases (p.afterAll gap) cs with
    ⟨-, hskip, heq⟩ | ⟨inner, kind, c, tail, beyond, rfl, -, hskip, -, hlongest, heq⟩
  · rw [heq, lexemesFrom_of_gap (h.trans hskip), Position.afterAll_append]
  · have hcs : gap ++ (inner ++ c :: (tail ++ beyond)) =
        (gap ++ inner) ++ skip (gap ++ (inner ++ c :: (tail ++ beyond))) := by
      rw [h, hskip, List.append_assoc]
    rw [heq, lexemesFrom_of_longest hcs (h.trans hskip) hlongest rfl, Position.afterAll_append,
      List.append_assoc, Position.afterAll_append]

/-- A block comment opens at the end of a gap, and nothing ends it. -/
def Opens (cs gap body : List Char) : Prop :=
  cs = gap ++ '/' :: '*' :: body ∧ Gap false gap ∧ ¬ blockEnd <:+: body

/-- A line break ends a gap, and is skipped with it, unless a block comment is open. -/
theorem skip_line_of_gap (h : Gap final gap) (hclosed : ∀ front body, ¬ Opens gap front body) :
    skip (gap ++ '\n' :: cs) = skip cs := by
  induction h with
  | nil => exact skip_blank (by decide)
  | @blank _ c rest hc _ ih =>
      rw [List.cons_append, skip_blank hc]
      refine ih fun front body => ?_
      rintro ⟨rfl, hfront, hbody⟩
      exact hclosed (c :: front) body ⟨rfl, .blank hc hfront, hbody⟩
  | @line _ comment e rest hcomment he _ ih =>
      have hdrop : (comment ++ e :: (rest ++ '\n' :: cs)).dropWhile (!endsLine ·) =
          e :: (rest ++ '\n' :: cs) := by
        rw [List.dropWhile_append_of_pos (List.all_eq_true.mp hcomment),
          List.dropWhile_cons_of_neg (by simp [he])]
      rw [List.cons_append, List.cons_append, skip_line, List.append_assoc, List.cons_append, hdrop]
      refine ih fun front body => ?_
      rintro ⟨hrest, hfront, hbody⟩
      -- What ends the line comment is no slash, so it belongs to the gap in front.
      cases front with
      | nil =>
          cases hrest
          exact absurd he (by decide)
      | cons e' front =>
          obtain ⟨rfl, rfl⟩ := List.cons.inj hrest
          exact hclosed ('/' :: '/' :: (comment ++ e :: front)) body
            ⟨by simp, .line hcomment he hfront, hbody⟩
  | lineToEnd hcomment =>
      rw [List.cons_append, List.cons_append, skip_line,
        List.dropWhile_append_of_pos (List.all_eq_true.mp hcomment),
        List.dropWhile_cons_of_neg (by decide)]
      exact skip_blank (by decide)
  | @block _ comment rest hcomment _ ih =>
      rw [List.cons_append, List.cons_append, skip_block, List.append_assoc, List.append_assoc,
        afterBlock_append hcomment]
      refine ih fun front body => ?_
      rintro ⟨rfl, hfront, hbody⟩
      exact hclosed ('/' :: '*' :: (comment ++ (blockEnd ++ front))) body
        ⟨by simp, .block hcomment hfront, hbody⟩
  | @blockToEnd comment hcomment => exact absurd ⟨rfl, .nil, hcomment⟩ (hclosed [] comment)

theorem lexemesFrom_line_of_gap (h : Gap final gap)
    (hclosed : ∀ front body, ¬ Opens gap front body) :
    lexemesFrom p (gap ++ '\n' :: cs) = lexemesFrom (p.afterAll (gap ++ ['\n'])) cs := by
  have hskip : skip (gap ++ ['\n'] ++ cs) = skip cs := by
    rw [List.append_assoc, List.singleton_append]
    exact skip_line_of_gap h hclosed
  rw [← lexemesFrom_of_skip hskip, List.append_assoc, List.singleton_append]

/-! ### The last gap -/

/-- The offset behind the last lexeme of a text. -/
def reach (cs : List Char) : Nat := stopFrom {} (lexemesFrom {} cs).1

/-- The text ends within a block comment that opens at the offset `n`, somewhere behind the
last lexeme. -/
def EndsInComment (cs : List Char) (n : Nat) : Prop :=
  ∃ gap body, Opens (cs.drop (reach cs)) gap body ∧ n = reach cs + gap.length

/-- Behind the last lexeme there is a gap, and the lexemes stay however that is resumed. -/
theorem exists_last_gap (cs : List Char) :
    ∃ front last, cs = front ++ last ∧ reach cs = front.length ∧ Gap true last ∧
      ∀ rest', Resumes last rest' →
        (lexemesFrom {} (front ++ rest')).1 =
          (lexemesFrom {} cs).1 ++ (lexemesFrom (({} : Position).afterAll front) rest').1 := by
  obtain ⟨front, last, hcs, hstop, hdrop, hresumes⟩ :=
    exists_cut (Nat.le_refl (lexemesFrom {} cs).1.length)
  rw [List.take_length] at hstop hresumes
  rw [List.drop_length] at hdrop
  refine ⟨front, last, hcs, hstop.trans (Nat.zero_add _), ?_, hresumes⟩
  rcases lexemesFrom_cases (({} : Position).afterAll front) last with ⟨hgap, -⟩ | h
  · exact hgap
  · obtain ⟨_, _, _, _, _, -, -, -, -, -, heq⟩ := h
    rw [heq] at hdrop
    cases hdrop

theorem le_offset_of_mem_lexemesFrom {x : Found} (hx : x ∈ (lexemesFrom p cs).1) :
    p.offset ≤ x.start.offset := by
  obtain ⟨-, -, front, -, -, hstart⟩ := valid_of_mem_lexemesFrom hx
  rw [hstart, Position.offset_afterAll]
  exact Nat.le_add_right _ _

/-- Behind an open comment there are lexemes only if it ends, and then behind its end. -/
theorem exists_end_of_mem {x : Found} (hgap : Gap false gap)
    (hx : x ∈ (lexemesFrom p (gap ++ '/' :: '*' :: body)).1) :
    ∃ comment beyond, body = comment ++ (blockEnd ++ beyond) ∧
      ¬ blockEnd <:+: comment ++ ['*'] ∧
      p.offset + (gap.length + (2 + (comment.length + 2))) ≤ x.start.offset := by
  rcases afterBlock_cases body with ⟨comment, hbody, hfirst⟩ | ⟨hnil, -⟩
  · refine ⟨comment, afterBlock body, hbody, hfirst, ?_⟩
    have hskip : skip (gap ++ '/' :: '*' :: (comment ++ blockEnd) ++ afterBlock body) =
        skip (afterBlock body) := by
      rw [List.append_assoc, skip_append_of_gap hgap, List.cons_append, List.cons_append,
        skip_block, List.append_assoc, afterBlock_append hfirst]
    have hsplit : gap ++ '/' :: '*' :: body =
        gap ++ '/' :: '*' :: (comment ++ blockEnd) ++ afterBlock body := by
      conv => lhs; rw [hbody]
      simp
    rw [hsplit, lexemesFrom_of_skip hskip] at hx
    have hle := le_offset_of_mem_lexemesFrom hx
    simp only [Position.offset_afterAll, List.length_append, List.length_cons, blockEnd,
      List.length_nil] at hle
    omega
  · rw [lexemesFrom_of_gap (by rw [skip_append_of_gap hgap, skip_block, hnil, skip_nil])] at hx
    cases hx

/-! ### Lexemes in front -/

/-- A lexeme that ends before the end of a text stays where and what it is. -/
theorem getElem?_lexemesFrom_append {i : Nat} {x : Found} (hx : (lexemesFrom {} cs).1[i]? = some x)
    (hstop : x.stop < cs.length) (more : List Char) :
    (lexemesFrom {} (cs ++ more)).1[i]? = some x := by
  have hlt : i < (lexemesFrom {} cs).1.length := (List.getElem?_eq_some_iff.mp hx).1
  obtain ⟨front, rest, hcs, hfront, -, hresumes⟩ := exists_cut (Nat.succ_le_of_lt hlt)
  have hlast : stopFrom {} ((lexemesFrom {} cs).1.take (i + 1)) = x.stop := by
    simp [stopFrom, List.getLast?_take, hx]
  rw [hlast, Nat.zero_add] at hfront
  -- The character behind the lexeme is one of the text itself.
  obtain ⟨c, tail, rfl⟩ : ∃ c tail, rest = c :: tail := by
    apply List.exists_cons_of_ne_nil
    rintro rfl
    rw [hcs, List.append_nil] at hstop
    omega
  have hmore : cs ++ more = front ++ (c :: tail ++ more) := by rw [hcs, List.append_assoc]
  rw [hmore, hresumes (c :: tail ++ more) (.inl rfl), List.getElem?_append_left (by simp; omega),
    List.getElem?_take_of_lt (Nat.lt_succ_self i), hx]

end Grammar

open Grammar

/-! ### Tokens in front -/

/-- A token that ends before the end of a text, which the sentinel does not, stays where and
what it is whatever is appended to the text. -/
theorem tokenize_append_settled {a : String} {i : Nat} {t : Token} (source : String)
    (ht : (tokenize a source)[i]? = some t) (hend : t.offset + t.lexeme.length < a.length)
    (b : String) : (tokenize (a ++ b) source)[i]? = some t := by
  rw [tokenize_eq_lexemes, List.getElem?_append] at ht
  rw [tokenize_eq_lexemes, String.toList_append]
  split at ht
  · rw [List.getElem?_map] at ht
    obtain ⟨x, hx, rfl⟩ := Option.map_eq_some_iff.mp ht
    have hstop : x.stop < a.toList.length := by
      simp only [Found.token, String.length_ofList] at hend
      rw [Found.stop, String.length_toList]
      omega
    have hx' := getElem?_lexemesFrom_append hx hstop b.toList
    rw [List.getElem?_append_left (by simpa using (List.getElem?_eq_some_iff.mp hx').1),
      List.getElem?_map, hx']
    rfl
  · -- The sentinel stands at the very end.
    rw [List.mem_singleton.mp (List.mem_of_getElem? ht), last_lexemesFrom, Token.sentinel,
      Found.token, Position.offset_afterAll, String.length_toList] at hend
    simp only [Nat.zero_add] at hend
    omega

/-- A slash that turns out to open a comment changes nothing in front of it. -/
theorem tokenize_append_settled_slash :
    (tokenize "x/**/3a /" "s")[1]? = some ⟨.other, "3a", 1, 6, 5, "s"⟩ ∧
      (5 + "3a".length : Int) < "x/**/3a /".length ∧
      (tokenize ("x/**/3a /" ++ "/ y") "s")[1]? = some ⟨.other, "3a", 1, 6, 5, "s"⟩ := by
  have ht : (tokenize "x/**/3a /" "s")[1]? = some ⟨.other, "3a", 1, 6, 5, "s"⟩ := by
    decide +kernel
  have hend : (5 + "3a".length : Int) < "x/**/3a /".length := by decide
  exact ⟨ht, hend, tokenize_append_settled "s" ht hend "/ y"⟩

/-! ### Lines -/

theorem resumes_append_line (last cs : List Char) : Resumes last (last ++ '\n' :: cs) := by
  cases last with
  | nil =>
      refine .inr fun d hd => ?_
      cases hd
      decide
  | cons c last => exact .inl rfl

/-- Behind a line break the tokens of a text are those of what follows its last lexeme. -/
theorem exists_tokenize_append_line (a b source : String) :
    ∃ front last, a.toList = front ++ last ∧ reach a.toList = front.length ∧ Gap true last ∧
      tokenize (a ++ "\n" ++ b) source = (tokenize a source).dropLast ++
        ((lexemesFrom (({} : Position).afterAll front) (last ++ '\n' :: b.toList)).1.map
            (Found.token source) ++
          [.sentinel source (({} : Position).afterAll (a.toList ++ '\n' :: b.toList))]) := by
  obtain ⟨front, last, hcs, hreach, hgap, hresumes⟩ := exists_last_gap a.toList
  refine ⟨front, last, hcs, hreach, hgap, ?_⟩
  have htext : (a ++ "\n" ++ b).toList = a.toList ++ '\n' :: b.toList := by simp
  have hfound : (lexemesFrom {} (a.toList ++ '\n' :: b.toList)).1 =
      (lexemesFrom {} a.toList).1 ++
        (lexemesFrom (({} : Position).afterAll front) (last ++ '\n' :: b.toList)).1 := by
    rw [← hresumes _ (resumes_append_line last b.toList), ← List.append_assoc, ← hcs]
  rw [tokenize_eq_lexemes, htext, last_lexemesFrom, hfound, dropLast_tokenize, List.map_append,
    List.append_assoc]

theorem Token.movedTo_line (cs : List Char) (t : Token) :
    t.movedTo (({} : Position).afterAll (cs ++ ['\n'])) =
      { t with line := t.line + (1 + cs.count '\n'), offset := t.offset + (cs.length + 1) } := by
  have hline := Position.line_afterAll {} (cs ++ ['\n'])
  have hoffset := Position.offset_afterAll {} (cs ++ ['\n'])
  have hcolumn : (({} : Position).afterAll (cs ++ ['\n'])).column = 1 := by
    rw [Position.afterAll_append]
    rfl
  rw [List.count_append] at hline
  rw [List.length_append] at hoffset
  unfold Token.movedTo
  rw [hline, hoffset, hcolumn]
  simp only [Token.mk.injEq, true_and, and_true, List.count_singleton_self, List.length_singleton]
  refine ⟨by omega, ?_, by omega⟩
  split <;> omega

/-- The lines of a text can be scanned one by one, unless a block comment is open at the end
of one. Then the tokens before the line break stay, and further ones come only behind the
end of the comment. -/
theorem tokenize_append_line (a b source : String) :
    ((∀ n, ¬ EndsInComment a.toList n) →
      tokenize (a ++ "\n" ++ b) source =
        (tokenize a source).dropLast ++ (tokenize b source).map fun t =>
          { t with
            line := t.line + (1 + a.toList.count '\n')
            offset := t.offset + (a.length + 1) }) ∧
    ∀ n, EndsInComment a.toList n →
      ∃ later, tokenize (a ++ "\n" ++ b) source = (tokenize a source).dropLast ++ later ∧
        ∀ t ∈ later, t.isEnd = false → ∃ comment beyond,
          (a ++ "\n" ++ b).toList.drop (n + 2) = comment ++ (blockEnd ++ beyond) ∧
          ¬ blockEnd <:+: comment ++ ['*'] ∧ n + 2 + (comment.length + 2) ≤ t.offset := by
  obtain ⟨front, last, hcs, hreach, hgap, htokens⟩ := exists_tokenize_append_line a b source
  have hlast : a.toList.drop (reach a.toList) = last := by
    rw [hreach]
    conv => lhs; rw [hcs]
    exact List.drop_left' rfl
  refine ⟨fun hclosed => ?_, ?_⟩
  · have hlexemes : lexemesFrom (({} : Position).afterAll front) (last ++ '\n' :: b.toList) =
        lexemesFrom (({} : Position).afterAll (a.toList ++ ['\n'])) b.toList := by
      rw [lexemesFrom_line_of_gap hgap, ← Position.afterAll_append, ← List.append_assoc, ← hcs]
      intro inner body hopens
      exact hclosed _ ⟨inner, body, hlast ▸ hopens, rfl⟩
    have hend : ({} : Position).afterAll (a.toList ++ '\n' :: b.toList) =
        (({} : Position).afterAll (a.toList ++ ['\n'])).afterAll b.toList := by
      rw [← Position.afterAll_append, List.append_assoc, List.singleton_append]
    rw [htokens, hlexemes, hend, tokens_within, String.ofList_toList, ← String.length_toList]
    exact congrArg _ (List.map_congr_left fun t _ => Token.movedTo_line a.toList t)
  · rintro n ⟨inner, body, hopens, rfl⟩
    rw [hlast] at hopens
    obtain ⟨rfl, hinner, -⟩ := hopens
    refine ⟨_, htokens, fun t ht hend => ?_⟩
    rcases List.mem_append.mp ht with ht | ht
    · obtain ⟨x, hx, rfl⟩ := List.mem_map.mp ht
      rw [List.append_assoc, List.cons_append, List.cons_append] at hx
      obtain ⟨comment, beyond, hbody, hfirst, hle⟩ := exists_end_of_mem hinner hx
      refine ⟨comment, beyond, ?_, hfirst, ?_⟩
      · have htext : (a ++ "\n" ++ b).toList =
            (front ++ inner ++ ['/', '*']) ++ (body ++ '\n' :: b.toList) := by simp [hcs]
        rw [htext, hbody]
        exact List.drop_left' (by simp [hreach, Nat.add_assoc])
      · rw [Position.offset_afterAll, Nat.zero_add] at hle
        dsimp only [Found.token]
        omega
    · rw [List.mem_singleton.mp ht] at hend
      cases hend

/-- A line comment is over with its line, a block comment is not. -/
theorem tokenize_append_line_comments :
    (∀ n, ¬ EndsInComment "x // y".toList n) ∧ EndsInComment "x /* y".toList 2 ∧
      tokenize ("x // y" ++ "\n" ++ "z") "s" =
        (tokenize "x // y" "s").dropLast ++ (tokenize "z" "s").map (fun t =>
          { t with line := t.line + (1 + 0), offset := t.offset + (6 + 1) }) ∧
      ∃ later, tokenize ("x /* y" ++ "\n" ++ "*/ z") "s" =
          (tokenize "x /* y" "s").dropLast ++ later ∧
        ∀ t ∈ later, t.isEnd = false → 9 ≤ t.offset := by
  have hline : ∀ n, ¬ EndsInComment "x // y".toList n := by
    rintro n ⟨gap, body, ⟨hrest, -, -⟩, -⟩
    have hlast : "x // y".toList.drop (reach "x // y".toList) = " // y".toList := by
      decide +kernel
    have hstar : '*' ∈ " // y".toList := by
      rw [← hlast, hrest]
      simp
    exact absurd hstar (by decide)
  have hblock : EndsInComment "x /* y".toList 2 := by
    have hreach : reach "x /* y".toList = 1 := by decide +kernel
    rw [EndsInComment, hreach]
    exact ⟨[' '], [' ', 'y'], ⟨by decide, .blank (by decide) .nil, by decide⟩, rfl⟩
  obtain ⟨later, hlater, htokens⟩ := (tokenize_append_line "x /* y" "*/ z" "s").2 2 hblock
  refine ⟨hline, hblock, (tokenize_append_line "x // y" "z" "s").1 hline, later, hlater, ?_⟩
  intro t ht hend
  obtain ⟨comment, beyond, hsplit, -, hle⟩ := htokens t ht hend
  have hstar : " y\n*/ z".toList[comment.length]? = some '*' := by
    have hdrop : ("x /* y" ++ "\n" ++ "*/ z").toList.drop (2 + 2) = " y\n*/ z".toList := by decide
    rw [← hdrop, hsplit, List.getElem?_append_right (Nat.le_refl _), Nat.sub_self]
    rfl
  have hlong : ∀ k < 3, " y\n*/ z".toList[k]? ≠ some '*' := by decide
  by_contra hlt
  exact hlong comment.length (by omega) hstar

end KayLex
