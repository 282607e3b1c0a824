/-!
Positions in a text. A position counts what has been passed: the characters
before it give the offset, the line breaks among them give the line, and the
characters since the last line break give the column. Only the line feed breaks a
line; a carriage return or any other separator is a character like the rest.
-/

namespace KayLex

/-- A place between two characters of a text. -/
structure Position where
  /-- Number of the line, counted from 1. -/
  line : Nat := 1
  /-- Number of the next character in its line, counted from 1. -/
  column : Nat := 1
  /-- Number of characters passed. -/
  offset : Nat := 0
  deriving DecidableEq

namespace Position

def after (p : Position) (c : Char) : Position :=
  if c = '\n' then ⟨p.line + 1, 1, p.offset + 1⟩ else ⟨p.line, p.column + 1, p.offset + 1⟩

def afterAll (p : Position) (cs : List Char) : Position := cs.foldl after p

@[simp] theorem offset_after (p : Position) (c : Char) : (p.after c).offset = p.offset + 1 := by
  unfold after
  split <;> rfl

@[simp] theorem afterAll_nil (p : Position) : p.afterAll [] = p := rfl

@[simp] theorem afterAll_cons (p : Position) (c : Char) (cs : List Char) :
    p.afterAll (c :: cs) = (p.after c).afterAll cs := rfl

@[simp] theorem afterAll_append (p : Position) (cs ds : List Char) :
    p.afterAll (cs ++ ds) = (p.afterAll cs).afterAll ds := List.foldl_append ..

@[simp] theorem offset_afterAll (p : Position) (cs : List Char) :
    (p.afterAll cs).offset = p.offset + cs.length := by
  induction cs generalizing p with
  | nil => rfl
  | cons c cs ih => simp [ih]; omega

end Position

end KayLex
