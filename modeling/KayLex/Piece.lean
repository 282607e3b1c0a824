import KayLex.Position

/-!
Pieces of text, which a cursor passes one at a time. What a stream delivers are single
characters. A caller may put a longer text in the place of the next one, and that is
passed in one step too: it counts as one character of its line, whatever it holds.

A piece is never empty, and a class of characters holds a piece if it holds all of its
characters.
-/

namespace KayLex

/-- A text that is passed in one step. -/
structure Piece where
  first : Char
  rest : List Char := []
  deriving DecidableEq

namespace Piece

abbrev single (c : Char) : Piece := ⟨c, []⟩

def ofChars? : List Char → Option Piece
  | [] => none
  | c :: cs => some ⟨c, cs⟩

def chars (x : Piece) : List Char := x.first :: x.rest

def all (p : Char → Bool) (x : Piece) : Bool := x.chars.all p

@[simp] theorem chars_single (c : Char) : (single c).chars = [c] := rfl

@[simp] theorem all_single (p : Char → Bool) (c : Char) : (single c).all p = p c := by
  simp [all]

theorem ofChars?_eq_some_iff {cs : List Char} {x : Piece} :
    ofChars? cs = some x ↔ x.chars = cs := by
  cases cs with
  | nil => simp [ofChars?, chars]
  | cons c cs =>
    obtain ⟨first, rest⟩ := x
    simp [ofChars?, chars, eq_comm]

end Piece

namespace Position

/-- The position behind a piece. Only the line feed alone breaks a line. -/
def behind (p : Position) (x : Piece) : Position :=
  if x = .single '\n' then ⟨p.line + 1, 1, p.offset + 1⟩
  else ⟨p.line, p.column + 1, p.offset + 1⟩

@[simp] theorem behind_single (p : Position) (c : Char) : p.behind (.single c) = p.after c := by
  simp [behind, after]

@[simp] theorem offset_behind (p : Position) (x : Piece) : (p.behind x).offset = p.offset + 1 := by
  unfold behind
  split <;> rfl

end Position

end KayLex
