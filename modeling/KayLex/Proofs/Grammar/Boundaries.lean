import KayLex.Proofs.Printing

/-!
Where a lexeme ends. A longest lexeme is told by itself and the one character behind it:
either the two go together, and then the lexeme is not the longest, or they do not, and
then nothing further behind matters. The same holds of the places where no gap begins.

So the lexemes of a text can be cut off from what follows them. Any other text that goes on
with the same character has the same lexemes up to there, and so has one that goes on with
a blank or not at all, since these end every lexeme.
-/

namespace KayLex

def Found.stop (x : Found) : Nat := x.start.offset + x.lexeme.length

namespace Grammar

open Text Lexicon

variable {p : Position} {c d : Char} {cs rest rest' gap tail beyond lexeme : List Char} {k : Kind}

/-! ### What goes together -/

/-- A lexeme goes on with the character behind it: it is made of word characters and the
character is one, or the two are an operator. -/
def Fuses (lexeme : List Char) (d : Char) : Prop :=
  (∃ c ∈ lexeme.head?, isLetter c = true ∨ isDecimalDigit c = true) ∧ isWordChar d = true ∨
    ∃ c, lexeme = [c] ∧ String.ofList [c, d] ∈ operators

theorem not_fuses_of_isBlank (hd : isBlank d = true) : ¬ Fuses lexeme d := by
  rintro (⟨-, hword⟩ | ⟨c, -, hop⟩)
  · rw [isBlank_of_isWordChar hword] at hd
    cases hd
  · rw [isBlank_of_mem_operators hop (by simp)] at hd
    cases hd

theorem isSome_kindOf?_word (hc : isLetter c = true ∨ isDecimalDigit c = true) :
    (kindOf? (c :: cs)).isSome = cs.all isWordChar := by
  rcases hc with hletter | hdigit
  · rw [kindOf?_of_isLetter hletter]
    cases cs.all isWordChar <;> rfl
  · rw [kindOf?_of_isDecimalDigit hdigit]
    have hall : (cs.takeWhile isDecimalDigit).all isWordChar = true :=
      List.all_eq_true.mpr fun d hd => isWordChar_of_isDecimalDigit (List.mem_takeWhile_imp hd)
    have hsplit := List.takeWhile_append_dropWhile (p := isDecimalDigit) (l := cs)
    cases hrest : cs.dropWhile isDecimalDigit with
    | nil =>
        rw [hrest, List.append_nil] at hsplit
        rw [← hsplit, hall]
        rfl
    | cons d rest =>
        have hd : isDecimalDigit d = false := by
          have := List.head?_dropWhile_not isDecimalDigit cs
          rwa [hrest] at this
        have hspoils : spoilsNumeral d = isWordChar d := by simp [spoilsNumeral, isWordChar, hd]
        rw [← hsplit, hrest, List.all_append, hall, List.all_cons, ← hspoils]
        cases hword : spoilsNumeral d && rest.all isWordChar <;> simp [hword]

theorem symbol_cases (hletter : isLetter c = false) (hdigit : isDecimalDigit c = false)
    (hk : kindOf? (c :: tail) = some k) :
    tail = [] ∨ ∃ e, tail = [e] ∧ String.ofList [c, e] ∈ operators := by
  match tail with
  | [] => exact .inl rfl
  | [e] =>
      rw [kindOf?_pair hletter hdigit] at hk
      split at hk
      · next hop => exact .inr ⟨e, rfl, hop⟩
      · cases hk
  | e :: f :: tail =>
      rw [kindOf?_long hletter hdigit] at hk
      cases hk

theorem fuses_word_iff (hc : isLetter c = true ∨ isDecimalDigit c = true) :
    Fuses (c :: tail) d ↔ isWordChar d = true := by
  refine ⟨?_, fun hd => .inl ⟨⟨c, rfl, hc⟩, hd⟩⟩
  rintro (⟨-, hd⟩ | ⟨e, he, hop⟩)
  · exact hd
  · cases he
    have hword : isWordChar c = true := hc.elim isWordChar_of_isLetter isWordChar_of_isDecimalDigit
    exact absurd (mem_signs_of_mem_operators hop) (not_mem_signs_of_isWordChar hword)

theorem fuses_symbol_iff (hc : ¬ (isLetter c = true ∨ isDecimalDigit c = true)) :
    Fuses (c :: tail) d ↔ tail = [] ∧ String.ofList [c, d] ∈ operators := by
  constructor
  · rintro (⟨⟨e, he, hword⟩, -⟩ | ⟨e, he, hop⟩)
    · cases he
      exact absurd hword hc
    · cases he
      exact ⟨rfl, hop⟩
  · rintro ⟨rfl, hop⟩
    exact .inr ⟨c, rfl, hop⟩

/-- Whether a lexeme and more text are a lexeme again is told by the first character of it:
it has to go together with the lexeme. -/
theorem fuses_of_isSome_kindOf? (hk : kindOf? lexeme = some k)
    (h : (kindOf? (lexeme ++ d :: rest)).isSome = true) : Fuses lexeme d := by
  cases lexeme with
  | nil =>
      rw [show kindOf? [] = none by decide] at hk
      cases hk
  | cons c tail =>
      rw [List.cons_append] at h
      by_cases hc : isLetter c = true ∨ isDecimalDigit c = true
      · rw [isSome_kindOf?_word hc] at h
        rw [fuses_word_iff hc]
        exact List.all_eq_true.mp h d (by simp)
      · obtain ⟨hletter, hdigit⟩ : isLetter c = false ∧ isDecimalDigit c = false := by
          simpa using hc
        rw [fuses_symbol_iff hc]
        rcases symbol_cases hletter hdigit hk with rfl | ⟨e, rfl, -⟩
        · rw [List.nil_append] at h
          rcases symbol_cases hletter hdigit (Option.eq_some_of_isSome h) with hnil | ⟨e, he, hop⟩
          · cases hnil
          · cases he
            exact ⟨rfl, hop⟩
        · rw [List.singleton_append, kindOf?_long hletter hdigit] at h
          cases h

theorem isSome_kindOf?_of_fuses (hk : kindOf? lexeme = some k) (h : Fuses lexeme d) :
    (kindOf? (lexeme ++ [d])).isSome = true := by
  cases lexeme with
  | nil =>
      rw [show kindOf? [] = none by decide] at hk
      cases hk
  | cons c tail =>
      rw [List.cons_append]
      by_cases hc : isLetter c = true ∨ isDecimalDigit c = true
      · have htail : tail.all isWordChar = true := by
          rw [← isSome_kindOf?_word hc, hk]
          rfl
        rw [isSome_kindOf?_word hc, List.all_append, htail]
        simpa using (fuses_word_iff hc).mp h
      · obtain ⟨hletter, hdigit⟩ : isLetter c = false ∧ isDecimalDigit c = false := by
          simpa using hc
        obtain ⟨rfl, hop⟩ := (fuses_symbol_iff hc).mp h
        rw [List.nil_append, kindOf?_pair hletter hdigit, if_pos hop]
        rfl

/-! ### The longest lexeme -/

theorem length_le_of_longest {longer : List Char} (h : longest cs = some (k, longer))
    (hfront : lexeme <+: cs) (hsome : (kindOf? lexeme).isSome = true) :
    lexeme.length ≤ longer.length := by
  have hle := hfront.length_le
  rw [List.prefix_iff_eq_take.mp hfront] at hsome
  have hbound {n : Nat} (hn : lexeme.length ≤ n) (h : longestUpTo cs n = some (k, longer)) :
      lexeme.length ≤ longer.length := by
    induction n with
    | zero => omega
    | succ n ih =>
        unfold longestUpTo at h
        split at h
        · cases h
          rw [List.length_take]
          omega
        · next hnone =>
          have hne : lexeme.length ≠ n + 1 := by
            intro heq
            rw [heq, hnone] at hsome
            cases hsome
          exact ih (by omega) h
  exact hbound hle h

theorem longest_append_iff (hk : kindOf? lexeme = some k) :
    longest (lexeme ++ rest) = some (k, lexeme) ↔ ∀ d ∈ rest.head?, ¬ Fuses lexeme d := by
  have hne : lexeme ≠ [] := by
    rintro rfl
    rw [show kindOf? [] = none by decide] at hk
    cases hk
  constructor
  · intro h d hd hfuses
    obtain ⟨tail, rfl⟩ := List.head?_eq_some_iff.mp hd
    have hfront : lexeme ++ [d] <+: lexeme ++ d :: tail := ⟨tail, by simp⟩
    have hle := length_le_of_longest h hfront (isSome_kindOf?_of_fuses hk hfuses)
    rw [List.length_append, List.length_singleton] at hle
    omega
  · intro h
    refine longest_append lexeme hne hk fun more hmore hfront => ?_
    obtain ⟨d, tail, rfl⟩ := List.exists_cons_of_ne_nil hmore
    obtain ⟨beyond, rfl⟩ := hfront
    rw [← Option.not_isSome_iff_eq_none]
    exact fun hsome => h d rfl (fuses_of_isSome_kindOf? hk hsome)

/-! ### Where no gap begins -/

theorem skip_eq_self_iff :
    skip (c :: rest) = c :: rest ↔
      isBlank c = false ∧ (c = '/' → rest.head? ≠ some '/' ∧ rest.head? ≠ some '*') := by
  constructor
  · intro h
    refine ⟨isBlank_of_skip h, ?_⟩
    rintro rfl
    have hlonger (body : List Char) (hle : (skip ('/' :: rest)).length ≤ body.length)
        (hbody : rest.length = body.length + 1) : False := by
      rw [h, List.length_cons, hbody] at hle
      omega
    constructor
    · intro hhead
      obtain ⟨body, rfl⟩ := List.head?_eq_some_iff.mp hhead
      refine hlonger body ?_ List.length_cons
      rw [skip_line]
      exact Nat.le_trans (length_skip_le _) (List.dropWhile_sublist _).length_le
    · intro hhead
      obtain ⟨body, rfl⟩ := List.head?_eq_some_iff.mp hhead
      refine hlonger body ?_ List.length_cons
      rw [skip_block]
      exact Nat.le_trans (length_skip_le _) (length_afterBlock_le _)
  · rintro ⟨hblank, hslash⟩
    by_cases hc : c = '/'
    · subst hc
      exact skip_slash (hslash rfl).1 (hslash rfl).2
    · exact skip_of_ne_slash hblank hc

/-! ### Going on in another way -/

/-- A text can stand in the place of another one behind a lexeme: it begins with the same
character, or with a blank, or it is empty. -/
def Resumes (rest rest' : List Char) : Prop := rest'.head? = rest.head? ∨ Ends rest'

theorem Resumes.append (h : Resumes rest rest') (front : List Char) :
    Resumes (front ++ rest) (front ++ rest') := by
  cases front with
  | nil => exact h
  | cons c front => exact .inl rfl

theorem Resumes.longest (lexeme : List Char) (h : Resumes rest rest')
    (hl : Grammar.longest (lexeme ++ rest) = some (k, lexeme)) :
    Grammar.longest (lexeme ++ rest') = some (k, lexeme) := by
  obtain ⟨-, hk⟩ := prefix_of_longest hl
  rw [longest_append_iff hk] at hl ⊢
  rcases h with hhead | hends
  · rwa [hhead]
  · exact fun d hd => not_fuses_of_isBlank (hends d hd)

theorem Resumes.skip (h : Resumes rest rest') (hs : Grammar.skip (c :: rest) = c :: rest) :
    Grammar.skip (c :: rest') = c :: rest' := by
  rw [skip_eq_self_iff] at hs ⊢
  refine ⟨hs.1, fun hc => ?_⟩
  rcases h with hhead | hends
  · rw [hhead]
    exact hs.2 hc
  · exact ⟨hends.head?_ne isBlank_slash, hends.head?_ne (by decide)⟩

/-- The lexeme behind a gap is found in whatever way the text goes on. -/
theorem Resumes.lexemesFrom (h : Resumes beyond rest') (hgap : Gap false gap)
    (hs : Grammar.skip (gap ++ c :: (tail ++ beyond)) = c :: (tail ++ beyond))
    (hl : Grammar.longest (c :: (tail ++ beyond)) = some (k, c :: tail)) :
    lexemesFrom p (gap ++ c :: (tail ++ rest')) =
      (⟨p.afterAll gap, k, c :: tail⟩ ::
          (lexemesFrom (p.afterAll (gap ++ c :: tail)) rest').1,
        (lexemesFrom (p.afterAll (gap ++ c :: tail)) rest').2) := by
  rw [skip_append_of_gap hgap] at hs
  have hskip : Grammar.skip (gap ++ c :: (tail ++ rest')) = c :: (tail ++ rest') := by
    rw [skip_append_of_gap hgap]
    exact (h.append tail).skip hs
  exact lexemesFrom_of_longest (by rw [hskip]) hskip (h.longest (c :: tail) hl) rfl

/-! ### Cutting a text behind its first lexemes -/

/-- The offset behind the last of some lexemes of a text that starts at `p`. -/
def stopFrom (p : Position) (found : List Found) : Nat :=
  (found.getLast?.map Found.stop).getD p.offset

theorem stopFrom_cons (p : Position) (x : Found) (found : List Found) :
    stopFrom p (x :: found) = (found.getLast?.map Found.stop).getD x.stop := by
  rw [stopFrom, List.getLast?_cons]
  cases found.getLast? <;> rfl

/-- A text can be cut behind its first `n` lexemes: they end at the cut, the others are those
of the text behind it, and they stay whatever else that text is resumed with. -/
theorem exists_cut {n : Nat} (hn : n ≤ (lexemesFrom p cs).1.length) :
    ∃ front rest, cs = front ++ rest ∧
      stopFrom p ((lexemesFrom p cs).1.take n) = p.offset + front.length ∧
      (lexemesFrom (p.afterAll front) rest).1 = (lexemesFrom p cs).1.drop n ∧
      ∀ rest', Resumes rest rest' →
        (lexemesFrom p (front ++ rest')).1 =
          (lexemesFrom p cs).1.take n ++ (lexemesFrom (p.afterAll front) rest').1 := by
  induction n generalizing p cs with
  | zero => exact ⟨[], cs, rfl, rfl, rfl, fun rest' _ => rfl⟩
  | succ n ih =>
      rcases lexemesFrom_cases p cs with
        ⟨-, -, heq⟩ | ⟨gap, kind, c, tail, beyond, rfl, hgap, hskip, -, hlongest, heq⟩
      · rw [heq] at hn
        cases hn
      · rw [heq] at hn ⊢
        obtain ⟨front, rest, rfl, hstop, hdrop, hresumes⟩ := ih (Nat.le_of_succ_le_succ hn)
        refine ⟨gap ++ c :: tail ++ front, rest, by simp, ?_, ?_, fun rest' hrest' => ?_⟩
        · have hend : Found.stop ⟨p.afterAll gap, kind, c :: tail⟩ =
              (p.afterAll (gap ++ c :: tail)).offset := by
            rw [Found.stop, Position.offset_afterAll, Position.offset_afterAll, List.length_append,
              Nat.add_assoc]
          rw [List.take_succ_cons, stopFrom_cons, hend]
          refine hstop.trans ?_
          rw [Position.offset_afterAll, Nat.add_assoc, ← List.length_append]
        · rw [Position.afterAll_append, hdrop]
          rfl
        · have h := (hrest'.append front).lexemesFrom (p := p) hgap hskip hlongest
          rw [List.append_assoc, List.append_assoc, List.cons_append, h, hresumes rest' hrest',
            Position.afterAll_append _ (gap ++ c :: tail) front]
          rfl

end Grammar

end KayLex
