import KayLex.Proofs.Grammar.Gaps
import KayLex.Proofs.Grammar.Longest

/-!
The lexemes of a text, one at a time. A text is either a gap and nothing else, or a
gap, the longest lexeme behind it, and a text that is taken apart in the same way.
Everything that is proved of all lexemes of a text goes along these two cases.
-/

namespace KayLex.Grammar

open Text Lexicon

variable {p : Position} {c : Char} {cs rest gap lexeme beyond : List Char} {kind : Kind}

/-! ### There is always a longest lexeme -/

theorem wordKind_ne_endOfStream (cs : List Char) : wordKind cs ≠ .endOfStream := by
  unfold wordKind
  repeat' split
  all_goals simp

theorem kindOf?_ne_endOfStream (h : kindOf? cs = some kind) : kind ≠ .endOfStream := by
  obtain ⟨rule, -, rfl⟩ := Option.map_eq_some_iff.mp h
  cases rule
  case word => exact Rule.kind_word cs ▸ wordKind_ne_endOfStream cs
  all_goals simp [Rule.kind]

theorem Valid.kind_ne_endOfStream (h : Valid kind cs) : kind ≠ .endOfStream :=
  kindOf?_ne_endOfStream h.1

theorem isSome_kindOf?_single (c : Char) : (kindOf? [c]).isSome := by
  rw [kindOf?, Option.isSome_map, ruleFor?, List.find?_isSome]
  exact ⟨.single, by simp [Rule.all], rfl⟩

theorem isSome_longestUpTo {m n : Nat} (hm : 0 < m) (hmn : m ≤ n)
    (hk : (kindOf? (cs.take m)).isSome) : (longestUpTo cs n).isSome := by
  induction n with
  | zero => omega
  | succ n ih =>
      unfold longestUpTo
      split
      · rfl
      · next hnone =>
        have hne : m ≠ n + 1 := by
          rintro rfl
          rw [hnone] at hk
          cases hk
        exact ih (by omega)

theorem exists_longest (c : Char) (rest : List Char) :
    ∃ kind tail beyond, rest = tail ++ beyond ∧
      longest (c :: rest) = some (kind, c :: tail) := by
  have hsome : (longest (c :: rest)).isSome :=
    isSome_longestUpTo (m := 1) (by omega) (by simp) (isSome_kindOf?_single c)
  obtain ⟨⟨kind, lexeme⟩, hl⟩ := Option.isSome_iff_exists.mp hsome
  obtain ⟨⟨beyond, hbeyond⟩, hk⟩ := prefix_of_longest hl
  have hpos := length_pos_of_longest hl
  cases lexeme with
  | nil => cases hpos
  | cons d tail =>
      obtain ⟨rfl, hrest⟩ := List.cons.inj hbeyond
      exact ⟨kind, tail, beyond, hrest.symm, hl⟩

theorem length_of_ruleFor?_single (h : ruleFor? cs = some .single) : cs.length = 1 :=
  of_decide_eq_true (List.find?_some (p := (Rule.admits · cs)) h)

/-- What is found behind a gap is valid, because no blank stands there. -/
theorem valid_of_longest (hblank : isBlank c = false)
    (hl : longest (c :: rest) = some (kind, lexeme)) : Valid kind lexeme := by
  obtain ⟨⟨beyond, hbeyond⟩, hk⟩ := prefix_of_longest hl
  refine ⟨hk, fun hsingle => ?_⟩
  obtain ⟨d, rfl⟩ := List.length_eq_one_iff.mp (length_of_ruleFor?_single hsingle)
  obtain ⟨rfl, -⟩ := List.cons.inj hbeyond
  simp [hblank]

/-! ### Taking a text apart -/

theorem lexemesFrom_of_gap (h : skip cs = []) : lexemesFrom p cs = ([], p.afterAll cs) := by
  rw [lexemesFrom]
  split
  · simp [h]
  · next hs =>
    rw [h] at hs
    cases hs

theorem lexemesFrom_of_longest (hcs : cs = gap ++ skip cs) (hs : skip cs = c :: rest)
    (hl : longest (c :: rest) = some (kind, lexeme)) (hrest : c :: rest = lexeme ++ beyond) :
    lexemesFrom p cs =
      (⟨p.afterAll gap, kind, lexeme⟩ :: (lexemesFrom (p.afterAll (gap ++ lexeme)) beyond).1,
        (lexemesFrom (p.afterAll (gap ++ lexeme)) beyond).2) := by
  have hgap : cs.take (cs.length - (skip cs).length) = gap := by
    have hlen : cs.length - (skip cs).length = gap.length := by
      have := congrArg List.length hcs
      rw [List.length_append] at this
      omega
    rw [hlen]
    conv => lhs; rw [hcs]
    exact List.take_left' rfl
  rw [lexemesFrom]
  split
  · next h =>
    rw [hs] at h
    cases h
  · next d tail h =>
    rw [hs] at h
    cases h
    split
    · next h =>
      rw [hl] at h
      cases h
    · next h =>
      rw [hl] at h
      cases h
      rw [hgap, Position.afterAll_append, hrest, List.drop_left' rfl]

theorem lexemesFrom_cases (p : Position) (cs : List Char) :
    (Gap true cs ∧ skip cs = [] ∧ lexemesFrom p cs = ([], p.afterAll cs)) ∨
      ∃ gap kind c tail beyond, cs = gap ++ c :: (tail ++ beyond) ∧ Gap false gap ∧
        skip cs = c :: (tail ++ beyond) ∧ Valid kind (c :: tail) ∧
        longest (c :: (tail ++ beyond)) = some (kind, c :: tail) ∧
        lexemesFrom p cs =
          (⟨p.afterAll gap, kind, c :: tail⟩ ::
              (lexemesFrom (p.afterAll (gap ++ c :: tail)) beyond).1,
            (lexemesFrom (p.afterAll (gap ++ c :: tail)) beyond).2) := by
  obtain ⟨gap, hcs, hgap⟩ := exists_gap cs
  cases hs : skip cs with
  | nil =>
      rw [hs] at hcs hgap
      rw [List.append_nil] at hcs
      exact .inl ⟨hcs ▸ hgap, rfl, lexemesFrom_of_gap hs⟩
  | cons c rest =>
      obtain ⟨kind, tail, beyond, rfl, hl⟩ := exists_longest c rest
      have hvalid := valid_of_longest (isBlank_of_skip hs) hl
      refine .inr ⟨gap, kind, c, tail, beyond, ?_, ?_, rfl, hvalid, hl,
        lexemesFrom_of_longest hcs hs hl rfl⟩
      · rw [← hs]
        exact hcs
      · rwa [hs] at hgap

/-- Induction along a text: it is a gap, or a gap with the longest lexeme behind it and another
text. -/
theorem lexemesFrom_induction {motive : Position → List Char → List Found × Position → Prop}
    (hgap : ∀ p cs, Gap true cs → motive p cs ([], p.afterAll cs))
    (hlexeme : ∀ p gap kind c tail beyond found last, Gap false gap → Valid kind (c :: tail) →
      motive (p.afterAll (gap ++ c :: tail)) beyond (found, last) →
      motive p (gap ++ c :: (tail ++ beyond)) (⟨p.afterAll gap, kind, c :: tail⟩ :: found, last))
    (p : Position) (cs : List Char) : motive p cs (lexemesFrom p cs) := by
  induction hn : cs.length using Nat.strong_induction_on generalizing p cs with
  | _ n ih =>
      rcases lexemesFrom_cases p cs with
        ⟨hfinal, -, heq⟩ | ⟨gap, kind, c, tail, beyond, rfl, hfront, -, hvalid, -, heq⟩
      · rw [heq]
        exact hgap p cs hfinal
      · rw [heq]
        refine hlexeme p gap kind c tail beyond _ _ hfront hvalid (ih beyond.length ?_ _ _ rfl)
        rw [← hn]
        simp only [List.length_append, List.length_cons]
        omega

theorem valid_of_mem_lexemesFrom {x : Found} (hx : x ∈ (lexemesFrom p cs).1) :
    Valid x.kind x.lexeme ∧ x.lexeme ≠ [] ∧
      ∃ before beyond, cs = before ++ (x.lexeme ++ beyond) ∧ x.start = p.afterAll before := by
  refine lexemesFrom_induction
    (motive := fun p cs r => x ∈ r.1 → Valid x.kind x.lexeme ∧ x.lexeme ≠ [] ∧
      ∃ before beyond, cs = before ++ (x.lexeme ++ beyond) ∧ x.start = p.afterAll before)
    ?_ ?_ p cs hx
  · intro p cs _ hx
    cases hx
  · intro p gap kind c tail beyond found last _ hvalid ih hx
    rcases List.mem_cons.mp hx with rfl | hx
    · exact ⟨hvalid, List.cons_ne_nil _ _, gap, beyond, by simp, rfl⟩
    · obtain ⟨hvalid, hne, before, rest, rfl, hstart⟩ := ih hx
      refine ⟨hvalid, hne, gap ++ c :: tail ++ before, rest, by simp, ?_⟩
      rw [hstart, ← Position.afterAll_append]

theorem kind_of_mem_lexemesFrom {x : Found} (hx : x ∈ (lexemesFrom p cs).1) :
    x.kind ≠ .endOfStream :=
  (valid_of_mem_lexemesFrom hx).1.kind_ne_endOfStream

theorem last_lexemesFrom (p : Position) (cs : List Char) :
    (lexemesFrom p cs).2 = p.afterAll cs := by
  refine lexemesFrom_induction (motive := fun p cs r => r.2 = p.afterAll cs) ?_ ?_ p cs
  · intro p cs _
    rfl
  · intro p gap kind c tail beyond found last _ _ ih
    rw [ih, ← Position.afterAll_append]
    simp

end KayLex.Grammar
