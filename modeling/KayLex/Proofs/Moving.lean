import KayLex.Proofs.Scanner.Tokens
import Mathlib.Data.List.Induction

/-!
Texts that start in the middle. The lexemes of a text do not depend on where the text
starts, only their places do: offsets and lines are moved by a constant, and columns are
moved as long as the first line lasts.
-/

namespace KayLex

/-! ### Places -/

namespace Position

/-- The place `q` of a text that starts at the place `p`. -/
def within (p q : Position) : Position where
  line := p.line + (q.line - 1)
  column := if q.line = 1 then p.column + (q.column - 1) else q.column
  offset := p.offset + q.offset

theorem one_le_afterAll (cs : List Char) :
    1 ≤ (({} : Position).afterAll cs).line ∧ 1 ≤ (({} : Position).afterAll cs).column := by
  induction cs using List.reverseRecOn with
  | nil => exact ⟨Nat.le_refl _, Nat.le_refl _⟩
  | append_singleton cs c ih =>
      rw [afterAll_append, afterAll_cons, afterAll_nil, after]
      split
      · exact ⟨Nat.le_add_left _ _, Nat.le_refl _⟩
      · exact ⟨ih.1, Nat.le_add_left _ _⟩

theorem within_after {q : Position} (p : Position) (hline : 1 ≤ q.line) (hcolumn : 1 ≤ q.column)
    (c : Char) : p.within (q.after c) = (p.within q).after c := by
  unfold within after
  split
  · simp only [mk.injEq]
    refine ⟨by omega, if_neg (by omega), by omega⟩
  · simp only [mk.injEq]
    refine ⟨trivial, ?_, by omega⟩
    split <;> omega

theorem afterAll_eq_within (p : Position) (cs : List Char) :
    p.afterAll cs = p.within (({} : Position).afterAll cs) := by
  induction cs using List.reverseRecOn with
  | nil => rfl
  | append_singleton cs c ih =>
      obtain ⟨hline, hcolumn⟩ := one_le_afterAll cs
      rw [afterAll_append, afterAll_append, ih]
      exact (within_after p hline hcolumn c).symm

end Position

/-! ### Lexemes -/

def Found.within (p : Position) (x : Found) : Found := { x with start := p.within x.start }

namespace Grammar

variable {cs : List Char}

/-- The lexemes behind `front`, in a text that starts at the place `p`. -/
theorem lexemesFrom_afterAll (p : Position) (front cs : List Char) :
    (lexemesFrom (p.afterAll front) cs).1 =
      (lexemesFrom (({} : Position).afterAll front) cs).1.map (Found.within p) := by
  induction hn : cs.length using Nat.strong_induction_on generalizing front cs with
  | _ n ih =>
      rcases lexemesFrom_cases (p.afterAll front) cs with
        ⟨-, hskip, heq⟩ | ⟨gap, kind, c, tail, beyond, rfl, -, hskip, -, hlongest, heq⟩
      · rw [heq, lexemesFrom_of_gap hskip]
        rfl
      · have hlt : beyond.length < n := by
          rw [← hn]
          simp only [List.length_append, List.length_cons]
          omega
        rw [heq, lexemesFrom_of_longest (by rw [hskip]) hskip hlongest rfl]
        dsimp only
        rw [← Position.afterAll_append, ← Position.afterAll_append, ← Position.afterAll_append,
          ← Position.afterAll_append, ih beyond.length hlt _ _ rfl, List.map_cons, Found.within,
          ← Position.afterAll_eq_within]

theorem lexemesFrom_eq_map (p : Position) (cs : List Char) :
    (lexemesFrom p cs).1 = (lexemesFrom {} cs).1.map (Found.within p) :=
  lexemesFrom_afterAll p [] cs

end Grammar

/-! ### Tokens -/

def Token.movedTo (p : Position) (t : Token) : Token :=
  { t with
    line := t.line + (p.line - 1)
    column := if t.line = 1 then t.column + (p.column - 1) else t.column
    offset := t.offset + p.offset }

theorem Found.token_within {x : Found} (source : String) (p : Position) {front : List Char}
    (hstart : x.start = ({} : Position).afterAll front) :
    (x.within p).token source = (x.token source).movedTo p := by
  obtain ⟨hline, hcolumn⟩ := Position.one_le_afterAll front
  rw [← hstart] at hline hcolumn
  unfold Found.token Token.movedTo Found.within Position.within
  simp only [Token.mk.injEq, true_and, and_true]
  refine ⟨by omega, ?_, by omega⟩
  split <;> split <;> omega

theorem tokens_within (source : String) (p : Position) (cs : List Char) :
    (Grammar.lexemesFrom p cs).1.map (Found.token source) ++ [.sentinel source (p.afterAll cs)] =
      (tokenize (String.ofList cs) source).map (Token.movedTo p) := by
  have hsentinel : Token.sentinel source (p.afterAll cs) =
      (Token.sentinel source (({} : Position).afterAll cs)).movedTo p := by
    rw [Position.afterAll_eq_within]
    exact Found.token_within (x := ⟨({} : Position).afterAll cs, _, _⟩) source p rfl
  rw [tokenize_eq_lexemes, String.toList_ofList, Grammar.last_lexemesFrom, List.map_append,
    List.map_singleton, ← hsentinel, Grammar.lexemesFrom_eq_map p, List.map_map, List.map_map]
  refine congrArg (· ++ _) (List.map_congr_left fun x hx => ?_)
  obtain ⟨-, -, front, -, -, hstart⟩ := Grammar.valid_of_mem_lexemesFrom hx
  exact Found.token_within source p hstart

end KayLex
