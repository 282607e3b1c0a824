import KayLex.Grammar.Lexeme
import KayLex.Proofs.Text.Classes
import Mathlib.Data.List.TakeWhile

/-!
The kind of a lexeme, told by its first character. A letter leaves only the rule for
words, a digit only those for numerals, and behind any other character there is room
for one more at most, which has to complete an operator.
-/

namespace KayLex.Grammar

open Text Lexicon

variable {c d : Char} {cs : List Char}

/-! ### Operators as characters -/

theorem ofList_mem_iff {texts : List String} :
    String.ofList cs ∈ texts ↔ cs ∈ texts.map String.toList := by
  rw [List.mem_map]
  constructor
  · exact fun h => ⟨_, h, String.toList_ofList⟩
  · rintro ⟨s, hs, rfl⟩
    rwa [String.ofList_toList]

theorem mem_operators_single :
    String.ofList [c] ∈ operators ↔ c = '/' ∨ c ∈ comparisonSigns ∨ c ∈ arithmeticSigns := by
  rw [ofList_mem_iff]
  simp [operators, comparisonSigns, arithmeticSigns]
  grind

theorem mem_operators_pair :
    String.ofList [c, d] ∈ operators ↔
      (c = ':' ∨ c ∈ comparisonSigns) ∧ d = '=' ∨ (c = '&' ∨ c = '|') ∧ d = c := by
  rw [ofList_mem_iff]
  simp [operators, comparisonSigns]
  grind

theorem not_mem_operators_long {e : Char} : String.ofList (c :: d :: e :: cs) ∉ operators := by
  rw [ofList_mem_iff]
  simp [operators]

theorem mem_signs_of_mem_operators (h : String.ofList (c :: cs) ∈ operators) : c ∈ signs := by
  rw [ofList_mem_iff] at h
  have hall : (operators.map String.toList).all (fun cs => cs.head?.any (signs.contains ·)) =
      true := by decide
  simpa using List.all_eq_true.mp hall _ h

theorem mem_signs_of_mem_separators (h : c ∈ separators) : c ∈ signs := by
  simp [signs, h]

theorem not_mem_signs_of_isWordChar (h : isWordChar c = true) : c ∉ signs := by
  intro hc
  rw [isWordChar_of_mem_signs hc] at h
  cases h

/-! ### The rules one after the other -/

theorem not_mem_booleans_of_mem_keywords (h : String.ofList cs ∈ keywords) :
    String.ofList cs ∉ booleans := by
  have hall : keywords.all (· ∉ booleans) = true := by decide
  exact of_decide_eq_true (List.all_eq_true.mp hall _ h)

/-- No word is both reserved and a literal, so the order in which this is asked makes no
difference. -/
theorem Rule.kind_word (cs : List Char) : Rule.word.kind cs = wordKind cs := by
  rw [Rule.kind, wordKind]
  by_cases hkeyword : String.ofList cs ∈ keywords
  · rw [if_pos hkeyword, if_neg (not_mem_booleans_of_mem_keywords hkeyword), if_pos hkeyword]
  · rw [if_neg hkeyword, if_neg hkeyword]

theorem kindOf?_eq (cs : List Char) :
    kindOf? cs =
      if Rule.word.admits cs then some (wordKind cs)
      else if Rule.numeral.admits cs then some .literal
      else if Rule.malformedNumeral.admits cs then some .other
      else if Rule.operator.admits cs then some .operator
      else if Rule.separator.admits cs then some .separator
      else if Rule.single.admits cs then some .other
      else none := by
  simp only [kindOf?, ruleFor?, Rule.all, List.find?_cons, List.find?_nil, ← Rule.kind_word]
  repeat' split
  all_goals simp_all [Rule.kind]

theorem admits_numeral_of_isDecimalDigit (cs : List Char) (h : isDecimalDigit c = false) :
    Rule.numeral.admits (c :: cs) = false ∧ Rule.malformedNumeral.admits (c :: cs) = false := by
  constructor <;> simp [Rule.admits, h]

theorem admits_symbol_of_isWordChar (cs : List Char) (h : isWordChar c = true) :
    Rule.operator.admits (c :: cs) = false ∧ Rule.separator.admits (c :: cs) = false := by
  have hc := not_mem_signs_of_isWordChar h
  constructor
  · exact decide_eq_false fun hop => hc (mem_signs_of_mem_operators hop)
  · refine decide_eq_false fun hsep => hc ?_
    obtain ⟨s, hs, heq⟩ := List.mem_map.mp hsep
    cases heq
    exact mem_signs_of_mem_separators hs

/-! ### The three kinds of beginnings -/

theorem kindOf?_of_isLetter (h : isLetter c = true) :
    kindOf? (c :: cs) = if cs.all isWordChar then some (wordKind (c :: cs)) else none := by
  obtain ⟨hnum, hmal⟩ := admits_numeral_of_isDecimalDigit cs (isDecimalDigit_of_isLetter h)
  obtain ⟨hop, hsep⟩ := admits_symbol_of_isWordChar cs (isWordChar_of_isLetter h)
  have hword : Rule.word.admits (c :: cs) = cs.all isWordChar := by simp [Rule.admits, h]
  rw [kindOf?_eq, hnum, hmal, hop, hsep, hword]
  cases cs with
  | nil => rfl
  | cons d cs => simp [Rule.admits]

theorem kindOf?_of_isDecimalDigit (h : isDecimalDigit c = true) :
    kindOf? (c :: cs) =
      match cs.dropWhile isDecimalDigit with
      | [] => some .literal
      | d :: rest => if spoilsNumeral d && rest.all isWordChar then some .other else none := by
  have hletter : isLetter c = false := by
    rw [Bool.eq_false_iff]
    intro hl
    rw [isDecimalDigit_of_isLetter hl] at h
    cases h
  obtain ⟨hop, hsep⟩ := admits_symbol_of_isWordChar cs (isWordChar_of_isDecimalDigit h)
  have hword : Rule.word.admits (c :: cs) = false := by simp [Rule.admits, hletter]
  rw [kindOf?_eq, hword, hop, hsep]
  cases hrest : cs.dropWhile isDecimalDigit with
  | nil =>
      have hnum : Rule.numeral.admits (c :: cs) = true := by
        simpa [Rule.admits, h] using List.dropWhile_eq_nil_iff.mp hrest
      rw [hnum]
      rfl
  | cons d rest =>
      have hnum : Rule.numeral.admits (c :: cs) = false := by
        rw [Bool.eq_false_iff]
        intro hall
        have hall : ∀ x ∈ cs, isDecimalDigit x = true := by simpa [Rule.admits, h] using hall
        rw [List.dropWhile_eq_nil_iff.mpr hall] at hrest
        cases hrest
      have hmal : Rule.malformedNumeral.admits (c :: cs) =
          (spoilsNumeral d && rest.all isWordChar) := by
        simp [Rule.admits, h, hrest]
      have hsingle : Rule.single.admits (c :: cs) = false := by
        cases cs with
        | nil => cases hrest
        | cons e cs => rfl
      rw [hnum, hmal, hsingle]
      rfl

section Symbol

variable (hletter : isLetter c = false) (hdigit : isDecimalDigit c = false)
include hletter hdigit

theorem kindOf?_symbol :
    kindOf? (c :: cs) =
      if Rule.operator.admits (c :: cs) then some .operator
      else if Rule.separator.admits (c :: cs) then some .separator
      else if cs = [] then some .other
      else none := by
  have hword : Rule.word.admits (c :: cs) = false := by simp [Rule.admits, hletter]
  obtain ⟨hnum, hmal⟩ := admits_numeral_of_isDecimalDigit cs hdigit
  rw [kindOf?_eq, hword, hnum, hmal]
  simp [Rule.admits]

theorem kindOf?_single :
    kindOf? [c] = some (if String.ofList [c] ∈ operators then .operator
      else if c ∈ separators then .separator else .other) := by
  rw [kindOf?_symbol hletter hdigit]
  simp only [Rule.admits, decide_eq_true_eq, List.mem_map, List.cons.injEq, and_true,
    exists_eq_right, if_true]
  repeat' split
  all_goals rfl

theorem kindOf?_pair :
    kindOf? [c, d] = if String.ofList [c, d] ∈ operators then some .operator else none := by
  rw [kindOf?_symbol hletter hdigit]
  simp only [Rule.admits, decide_eq_true_eq]
  simp

theorem kindOf?_long {e : Char} : kindOf? (c :: d :: e :: cs) = none := by
  rw [kindOf?_symbol hletter hdigit]
  simp only [Rule.admits, not_mem_operators_long, decide_false]
  simp

end Symbol

end KayLex.Grammar
