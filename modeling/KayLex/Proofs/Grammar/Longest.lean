import KayLex.Grammar.LongestMatch
import KayLex.Proofs.Grammar.Kinds

/-!
The longest lexeme at the front of a text, found without a search. It is enough to
show one prefix that is a lexeme and that no longer one is; by the first character
there are four ways in which that comes about.
-/

namespace KayLex.Grammar

open Text Lexicon

variable {c d : Char} {cs rest lexeme : List Char} {k : Kind}

/-! ### What makes a prefix the longest -/

theorem longestUpTo_eq_some {m n : Nat} (hm : 0 < m) (hmn : m ≤ n)
    (hk : kindOf? (cs.take m) = some k)
    (hmax : ∀ i, m < i → i ≤ n → kindOf? (cs.take i) = none) :
    longestUpTo cs n = some (k, cs.take m) := by
  induction n with
  | zero => omega
  | succ n ih =>
      unfold longestUpTo
      by_cases hlast : m = n + 1
      · subst hlast
        rw [hk]
      · rw [hmax (n + 1) (by omega) (by omega)]
        exact ih (by omega) fun i hi hin => hmax i hi (by omega)

theorem longest_append (lexeme : List Char) (hne : lexeme ≠ []) (hk : kindOf? lexeme = some k)
    (hmax : ∀ more, more ≠ [] → more <+: rest → kindOf? (lexeme ++ more) = none) :
    longest (lexeme ++ rest) = some (k, lexeme) := by
  have htake : (lexeme ++ rest).take lexeme.length = lexeme := List.take_left' rfl
  have hpos : 0 < lexeme.length := List.length_pos_iff.mpr hne
  have hle : lexeme.length ≤ (lexeme ++ rest).length := by simp
  have h := longestUpTo_eq_some hpos hle (htake.symm ▸ hk) fun i hlow hhigh => ?_
  · rwa [htake] at h
  · have hi : i = lexeme.length + (i - lexeme.length) := by omega
    rw [hi, List.take_length_add_append]
    refine hmax _ ?_ (List.take_prefix _ _)
    intro hnil
    have := congrArg List.length hnil
    simp only [List.length_take, List.length_append, List.length_nil] at this hhigh
    omega

theorem prefix_of_longest (h : longest cs = some (k, lexeme)) :
    lexeme <+: cs ∧ kindOf? lexeme = some k := by
  unfold longest at h
  generalize cs.length = n at h
  induction n with
  | zero => cases h
  | succ n ih =>
      unfold longestUpTo at h
      split at h
      · next hk =>
        cases h
        exact ⟨List.take_prefix _ _, hk⟩
      · exact ih h

/-! ### Words and numerals -/

theorem exists_cons_of_prefix_dropWhile {p : Char → Bool} {more : List Char} (hne : more ≠ [])
    (h : more <+: rest.dropWhile p) : ∃ d tail, more = d :: tail ∧ p d = false := by
  obtain ⟨beyond, hmore⟩ := h
  cases more with
  | nil => exact absurd rfl hne
  | cons d tail =>
      have hd := List.head?_dropWhile_not p rest
      rw [← hmore] at hd
      exact ⟨d, tail, rfl, hd⟩

theorem longest_word (h : isLetter c = true) :
    longest (c :: rest) =
      some (wordKind (c :: rest.takeWhile isWordChar), c :: rest.takeWhile isWordChar) := by
  have hsplit : c :: rest = (c :: rest.takeWhile isWordChar) ++ rest.dropWhile isWordChar := by
    simp
  rw [hsplit]
  refine longest_append _ (by simp) ?_ ?_
  · rw [kindOf?_of_isLetter h, if_pos (List.all_takeWhile ..)]
  · intro more hne hmore
    obtain ⟨d, tail, rfl, hd⟩ := exists_cons_of_prefix_dropWhile hne hmore
    rw [List.cons_append, kindOf?_of_isLetter h]
    simp [hd]

theorem dropWhile_takeWhile_append {p : Char → Bool} {d : Char} {tail : List Char}
    (hd : p d = false) : (rest.takeWhile p ++ d :: tail).dropWhile p = d :: tail := by
  rw [List.dropWhile_append_of_pos fun a ha => List.mem_takeWhile_imp ha,
    List.dropWhile_cons_of_neg (by simp [hd])]

theorem longest_numeral (h : isDecimalDigit c = true)
    (hrest : (rest.dropWhile isDecimalDigit).head?.any spoilsNumeral = false) :
    longest (c :: rest) =
      some (.literal, c :: rest.takeWhile isDecimalDigit) := by
  have hsplit : c :: rest =
      (c :: rest.takeWhile isDecimalDigit) ++ rest.dropWhile isDecimalDigit := by simp
  rw [hsplit]
  refine longest_append _ (by simp) ?_ ?_
  · rw [kindOf?_of_isDecimalDigit h,
      List.dropWhile_eq_nil_iff.mpr fun a ha => List.mem_takeWhile_imp ha]
  · intro more hne hmore
    obtain ⟨d, tail, rfl, hd⟩ := exists_cons_of_prefix_dropWhile hne hmore
    obtain ⟨beyond, hbeyond⟩ := hmore
    rw [← hbeyond] at hrest
    have hspoils : spoilsNumeral d = false := hrest
    rw [List.cons_append, kindOf?_of_isDecimalDigit h, dropWhile_takeWhile_append hd]
    simp [hspoils]

theorem longest_malformed (h : isDecimalDigit c = true)
    (hrest : (rest.dropWhile isDecimalDigit).head?.any spoilsNumeral = true) :
    longest (c :: rest) =
      some (.other, c :: (rest.takeWhile isDecimalDigit ++
        (rest.dropWhile isDecimalDigit).takeWhile isWordChar)) := by
  cases htail : rest.dropWhile isDecimalDigit with
  | nil =>
      rw [htail] at hrest
      cases hrest
  | cons d tail =>
      rw [htail] at hrest
      have hspoils : spoilsNumeral d = true := hrest
      have hd := isDecimalDigit_of_spoilsNumeral hspoils
      have hdword := isWordChar_of_spoilsNumeral hspoils
      have hsplit : c :: rest =
          (c :: (rest.takeWhile isDecimalDigit ++ d :: tail.takeWhile isWordChar)) ++
            tail.dropWhile isWordChar := by
        simp [← htail]
      rw [List.takeWhile_cons_of_pos hdword]
      rw [hsplit]
      refine longest_append _ (by simp) ?_ ?_
      · rw [kindOf?_of_isDecimalDigit h, dropWhile_takeWhile_append hd]
        simp [hspoils]
      · intro more hne hmore
        obtain ⟨e, beyond, rfl, he⟩ := exists_cons_of_prefix_dropWhile hne hmore
        rw [List.cons_append, List.append_assoc, List.cons_append, kindOf?_of_isDecimalDigit h,
          dropWhile_takeWhile_append hd]
        simp [he]

/-! ### Signs -/

section Symbol

variable (hletter : isLetter c = false) (hdigit : isDecimalDigit c = false)
include hletter hdigit

theorem longest_pair (h : String.ofList [c, d] ∈ operators) :
    longest (c :: d :: rest) = some (.operator, [c, d]) := by
  refine longest_append [c, d] (by simp) ?_ ?_
  · rw [kindOf?_pair hletter hdigit, if_pos h]
  · intro more hne _
    obtain ⟨e, tail, rfl⟩ := List.exists_cons_of_ne_nil hne
    exact kindOf?_long hletter hdigit

theorem longest_alone (hk : kindOf? [c] = some k)
    (h : ∀ d, rest.head? = some d → String.ofList [c, d] ∉ operators) :
    longest (c :: rest) = some (k, [c]) := by
  apply longest_append [c] (by simp) hk
  intro more hne hmore
  obtain ⟨d, tail, rfl⟩ := List.exists_cons_of_ne_nil hne
  obtain ⟨beyond, rfl⟩ := hmore
  cases tail with
  | nil => exact (kindOf?_pair hletter hdigit).trans (if_neg (h d rfl))
  | cons e tail => exact kindOf?_long hletter hdigit

end Symbol

theorem longest_slash (rest : List Char) :
    longest ('/' :: rest) = some (.operator, ['/']) := by
  apply longest_alone (by decide) (by decide) (by decide)
  intro d _
  rw [mem_operators_pair]
  simp [comparisonSigns]

end KayLex.Grammar
