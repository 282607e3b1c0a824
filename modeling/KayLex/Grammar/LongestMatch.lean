import KayLex.Grammar.Gap
import KayLex.Grammar.Lexeme

/-!
The tokens of a text, said of the whole text: behind each gap stands the longest
prefix that any rule admits. This looks at every prefix of what is left, which no
scanner could afford; it is the measure of what the scanner finds with one
character of lookahead.
-/

namespace KayLex.Grammar

-- The equations that the matches below bind serve the proof that a text ends.
set_option linter.unusedVariables false

/-- The longest prefix of at most `n` characters that is a lexeme, with its kind. -/
def longestUpTo (cs : List Char) : Nat → Option (Kind × List Char)
  | 0 => none
  | n + 1 =>
    match kindOf? (cs.take (n + 1)) with
    | some k => some (k, cs.take (n + 1))
    | none => longestUpTo cs n

def longest (cs : List Char) : Option (Kind × List Char) := longestUpTo cs cs.length

theorem length_pos_of_longest {c : Char} {cs lexeme : List Char} {k : Kind}
    (h : longest (c :: cs) = some (k, lexeme)) : 0 < lexeme.length := by
  unfold longest at h
  generalize (c :: cs).length = n at h
  induction n with
  | zero => cases h
  | succ n ih =>
    unfold longestUpTo at h
    split at h
    · cases h
      simp
    · exact ih h

/-- The lexemes of a text that starts at a position, and the position behind it. -/
def lexemesFrom (p : Position) (cs : List Char) : List Found × Position :=
  let start := p.afterAll (cs.take (cs.length - (skip cs).length))
  match hs : skip cs with
  | [] => ([], start)
  | c :: rest =>
    match hl : longest (c :: rest) with
    | none => ([], start)
    | some (kind, lexeme) =>
      let (found, last) :=
        lexemesFrom (start.afterAll lexeme) ((c :: rest).drop lexeme.length)
      (⟨start, kind, lexeme⟩ :: found, last)
termination_by cs.length
decreasing_by
  have hle := length_skip_le cs
  have hpos := length_pos_of_longest hl
  rw [hs] at hle
  simp only [List.length_cons, List.length_drop] at hle ⊢
  omega

/-- The tokens of a text by longest match, the sentinel last. -/
def tokens (source : String) (cs : List Char) : List Token :=
  let (found, last) := lexemesFrom {} cs
  found.map (Found.token source) ++ [.sentinel source last]

end KayLex.Grammar
