import KayLex.Proofs.Cursor.Ahead
import KayLex.Proofs.Grammar.Longest
import KayLex.Proofs.Scanner.Loops

/-!
The branches of the scanner behind the first character of a lexeme. Each of them
completes the longest lexeme of the text, although none of them compares lengths:
one character of lookahead is enough to know that no rule reaches further.
-/

namespace KayLex.Reading

open Cursor Grammar Text Lexicon

variable {p : Position} {c next : Char} {rest : List Char} {alone k : Kind}

theorem passes_looking (rest : List Char) (q : Char → Bool) :
    Passes p (looking q) [] (rest.head?.any q) rest := by
  intro k hk hp
  refine ⟨k, ?_, hk, hp⟩
  have hc : k.current = rest.head?.map .single := Ahead.current_eq hk
  rw [looking, hc]
  cases rest.head? <;> simp

/-- Behind the character `c` and before `rest`, the action completes the longest lexeme of
the text that they make. -/
def Completes (p : Position) (x : Reading (Kind × List Char)) (c : Char) (rest : List Char) :
    Prop :=
  ∃ kind tail beyond, rest = tail ++ beyond ∧ longest (c :: rest) = some (kind, c :: tail) ∧
    Passes p x tail (kind, c :: tail) beyond

/-! ### Words and numerals -/

theorem completes_word (h : isLetter c = true) : Completes p (word (.single c)) c rest :=
  ⟨_, _, _, List.takeWhile_append_dropWhile.symm, longest_word h,
    (passes_run isWordChar rest).bind_pure⟩

theorem completes_numeral (h : isDecimalDigit c = true) :
    Completes p (numeral (.single c)) c rest := by
  have hrun := passes_run (p := p) isDecimalDigit rest
  have hlook := passes_looking (p := p.afterAll (rest.takeWhile isDecimalDigit))
    (rest.dropWhile isDecimalDigit) spoilsNumeral
  cases hspoilt : (rest.dropWhile isDecimalDigit).head?.any spoilsNumeral with
  | false =>
      rw [hspoilt] at hlook
      refine ⟨_, _, _, List.takeWhile_append_dropWhile.symm, longest_numeral h hspoilt, ?_⟩
      rw [← List.append_nil (rest.takeWhile isDecimalDigit)]
      refine hrun.bind (hlook.test_false ?_)
      rw [List.append_nil]
      exact .pure _
  | true =>
      rw [hspoilt] at hlook
      have htail := passes_run (p := p.afterAll (rest.takeWhile isDecimalDigit)) isWordChar
        (rest.dropWhile isDecimalDigit)
      refine ⟨_, _, (rest.dropWhile isDecimalDigit).dropWhile isWordChar, ?_,
        longest_malformed h hspoilt, ?_⟩
      · rw [List.append_assoc, List.takeWhile_append_dropWhile, List.takeWhile_append_dropWhile]
      · refine Passes.bind ?_ (Passes.test_true ?_ htail.bind_pure)
        · rwa [List.takeWhile_append_dropWhile]
        · rwa [List.takeWhile_append_dropWhile]

/-! ### Signs -/

section Symbol

variable (hletter : isLetter c = false) (hdigit : isDecimalDigit c = false)
include hletter hdigit

theorem completes_pure (hk : kindOf? [c] = some k)
    (hpair : ∀ d, String.ofList [c, d] ∉ operators) : Completes p (pure (k, [c])) c rest :=
  ⟨k, [], rest, rfl, longest_alone hletter hdigit hk fun d _ => hpair d, .pure _⟩

theorem completes_doubled (hk : kindOf? [c] = some alone)
    (hpair : ∀ d, String.ofList [c, d] ∈ operators ↔ d = next) :
    Completes p (doubled (.single c) (.single next) alone) c rest := by
  by_cases hnext : rest.head? = some next
  · obtain ⟨beyond, rfl⟩ := List.head?_eq_some_iff.mp hnext
    refine ⟨.operator, [next] ++ [], beyond, rfl,
      longest_pair hletter hdigit ((hpair next).mpr rfl), ?_⟩
    exact (passes_accept next).bind_true (.pure _)
  · refine ⟨alone, [], rest, rfl, longest_alone hletter hdigit hk ?_, ?_⟩
    · intro d hd hop
      rw [(hpair d).mp hop] at hd
      exact hnext hd
    · exact (passes_accept_of_ne hnext).test_false (.pure _)

/-- A lone slash is left to the gap, which has to look behind it anyway. -/
theorem completes_symbol (hslash : c ≠ '/') : Completes p (symbol (.single c)) c rest := by
  have hkind := kindOf?_single hletter hdigit
  rw [symbol_single]
  split
  · next hc =>
    subst hc
    refine completes_doubled hletter hdigit (by decide) fun d => ?_
    rw [mem_operators_pair]
    simp
  split
  · next hc =>
    refine completes_doubled hletter hdigit ?_ fun d => ?_
    · rcases hc with rfl | rfl <;> decide
    · rw [mem_operators_pair]
      rcases hc with rfl | rfl <;> simp [comparisonSigns]
  split
  · next hcolon hamp hc =>
    refine completes_doubled hletter hdigit ?_ fun d => ?_
    · rw [hkind, if_pos (mem_operators_single.mpr (.inr (.inl hc)))]
    · rw [mem_operators_pair]
      simp [hc, hamp]
  · next hcolon hamp hcomp =>
    -- From here on nothing can follow, so the kind is that of the character alone.
    have hpair (d : Char) : String.ofList [c, d] ∉ operators := by
      rw [mem_operators_pair]
      simp [hcolon, hamp, hcomp]
    split
    · next hc =>
      refine completes_pure hletter hdigit ?_ hpair
      rw [hkind, if_pos (mem_operators_single.mpr (.inr (.inr hc)))]
    · next harith =>
      have hop : String.ofList [c] ∉ operators := by
        rw [mem_operators_single]
        simp [hslash, hcomp, harith]
      split
      · next hc => exact completes_pure hletter hdigit (by rw [hkind, if_neg hop, if_pos hc]) hpair
      · next hc => exact completes_pure hletter hdigit (by rw [hkind, if_neg hop, if_neg hc]) hpair

end Symbol

theorem completes_lexeme (hslash : c ≠ '/') : Completes p (lexeme (.single c)) c rest := by
  rw [lexeme, Piece.all_single, Piece.all_single]
  cases hletter : isLetter c with
  | true => exact completes_word hletter
  | false =>
      cases hdigit : isDecimalDigit c with
      | true => exact completes_numeral hdigit
      | false => exact completes_symbol hletter hdigit hslash

end KayLex.Reading
