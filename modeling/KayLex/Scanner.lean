import KayLex.Cursor
import KayLex.Lexicon

/-!
The scanner: it turns the characters of a cursor into tokens, one token at a time
and with the cursor's single character of lookahead.

Three loops do the work: `passWhile` passes a run of characters of one class,
`passBlock` passes a block comment to its end, and `passGap` alternates blanks and
comments until a token starts. A slash is passed before it is known whether it
opens a comment, so `passGap` is also where a lone slash is found.

A piece that is longer than a character can only be the first one that a lexeme or a
gap is made of, since all that is loaded behind it are characters. It begins what a
character would begin that all of its characters are like; a stretch of a row of
signs is one sign.

Once the end has been reached the scanner closes its cursor and answers the
sentinel from then on, always with the position where the cursor ended.
-/

namespace KayLex

-- The equations that the matches below bind serve the proofs that the loops end.
set_option linter.unusedVariables false

namespace Cursor

/-- Passes the pieces whose characters satisfy `p`, up to the first other one, and answers
the characters behind what was passed before (which is given latest first). -/
def passWhile (p : Char → Bool) (passed : List Char) (k : Cursor) : Outcome (List Char) :=
  match hc : k.current with
  | none => .ok passed.reverse k
  | some x =>
    if x.all p then
      match ha : advance k with
      | .ok _ k' => passWhile p (x.chars.reverse ++ passed) k'
      | .error f k' => .error f k'
    else .ok passed.reverse k
termination_by k.remaining
decreasing_by exact remaining_lt_of_advance hc ha

/-- Passes the rest of a block comment, up to and including the first star that a
slash follows, or to the end. -/
def passBlock (k : Cursor) : Outcome Unit :=
  match ha : advance k with
  | .error f k' => .error f k'
  | .ok none k' => .ok () k'
  | .ok (some x) k' =>
    if x = .single '*' then
      match hs : accept (.single '/') k' with
      | .error f k'' => .error f k''
      | .ok true k'' => .ok () k''
      | .ok false k'' => passBlock k''
    else passBlock k'
termination_by k.remaining
decreasing_by
  · exact Nat.lt_of_le_of_lt (remaining_le_of_accept hs)
      (remaining_lt_of_advance (current_of_advance ha) ha)
  · exact remaining_lt_of_advance (current_of_advance ha) ha

theorem remaining_le_of_passWhile {p : Char → Bool} {passed cs : List Char} {k k' : Cursor}
    (h : passWhile p passed k = .ok cs k') : k'.remaining ≤ k.remaining := by
  fun_induction passWhile p passed k with
  | case1 => cases h; exact Nat.le_refl _
  | case2 passed k x hc hp a k'' ha ih =>
    exact Nat.le_trans (ih h) (remaining_le_of_advance ha)
  | case3 => cases h
  | case4 => cases h; exact Nat.le_refl _

theorem remaining_le_of_passBlock {k k' : Cursor} {u : Unit} (h : passBlock k = .ok u k') :
    k'.remaining ≤ k.remaining := by
  fun_induction passBlock k with
  | case1 => cases h
  | case2 k k'' ha => cases h; exact remaining_le_of_advance ha
  | case3 => cases h
  | case4 k k'' k''' hs ha =>
    cases h
    exact Nat.le_trans (remaining_le_of_accept hs) (remaining_le_of_advance ha)
  | case5 k k'' k''' hs ha ih =>
    exact Nat.le_trans (ih h)
      (Nat.le_trans (remaining_le_of_accept hs) (remaining_le_of_advance ha))
  | case6 k x k'' ha hx ih => exact Nat.le_trans (ih h) (remaining_le_of_advance ha)

/-- Passes blanks and comments. If a slash that opens no comment is met, it has been
passed too, and the answer is where it stood. -/
def passGap (k : Cursor) : Outcome (Option Position) :=
  match hb : passWhile Text.isBlank [] k with
  | .error f k' => .error f k'
  | .ok _ k₁ =>
    if hc : k₁.current = some (.single '/') then
      match ha : advance k₁ with
      | .error f k' => .error f k'
      | .ok _ k₂ =>
        if k₂.current = some (.single '/') then
          match hl : passWhile (fun c => !Lexicon.endsLine c) [] k₂ with
          | .error f k' => .error f k'
          | .ok _ k₃ => passGap k₃
        else if k₂.current = some (.single '*') then
          match hs : advance k₂ with
          | .error f k' => .error f k'
          | .ok _ k₃ =>
            match hl : passBlock k₃ with
            | .error f k' => .error f k'
            | .ok _ k₄ => passGap k₄
        else .ok (some k₁.position) k₂
    else .ok none k₁
termination_by k.remaining
decreasing_by
  · have := remaining_le_of_passWhile hb
    have := remaining_lt_of_advance hc ha
    have := remaining_le_of_passWhile hl
    omega
  · have := remaining_le_of_passWhile hb
    have := remaining_lt_of_advance hc ha
    have := remaining_le_of_advance hs
    have := remaining_le_of_passBlock hl
    omega

end Cursor

namespace Reading

open Cursor

/-- `passWhile` as an action. -/
def run (p : Char → Bool) : Reading (List Char) := passWhile p []

/-- Whether the current piece satisfies `p`; the end satisfies nothing. -/
def looking (p : Char → Bool) : Reading Bool := fun k => .ok (k.current.any (·.all p)) k

def word (first : Piece) : Reading (Kind × List Char) := do
  let rest ← run Lexicon.isWordChar
  return (Lexicon.wordKind (first.chars ++ rest), first.chars ++ rest)

/-- The rest of a numeral. A letter or underscore behind the digits makes one
malformed lexeme of the digits and all word characters behind them. -/
def numeral (first : Piece) : Reading (Kind × List Char) := do
  let digits ← run Text.isDecimalDigit
  if ← looking Lexicon.spoilsNumeral then
    let tail ← run Lexicon.isWordChar
    return (.other, first.chars ++ (digits ++ tail))
  else
    return (.literal, first.chars ++ digits)

/-- The piece `x`, together with `next` if that follows. The two have the kind `operator`,
the one alone has the kind `alone`. -/
def doubled (x next : Piece) (alone : Kind) : Reading (Kind × List Char) := do
  if ← accept next then return (.operator, x.chars ++ next.chars) else return (alone, x.chars)

def symbol (x : Piece) : Reading (Kind × List Char) :=
  if x = .single ':' then doubled x (.single '=') .other
  else if x = .single '&' ∨ x = .single '|' then doubled x x .other
  else if Lexicon.isStretch x.chars Lexicon.comparisonSigns then
    doubled x (.single '=') .operator
  else if Lexicon.isStretch x.chars Lexicon.arithmeticSigns then return (.operator, x.chars)
  else if x ∈ Lexicon.separators.map .single then return (.separator, x.chars)
  else return (.other, x.chars)

theorem symbol_single (c : Char) :
    symbol (.single c) =
      if c = ':' then doubled (.single c) (.single '=') .other
      else if c = '&' ∨ c = '|' then doubled (.single c) (.single c) .other
      else if c ∈ Lexicon.comparisonSigns then doubled (.single c) (.single '=') .operator
      else if c ∈ Lexicon.arithmeticSigns then pure (.operator, [c])
      else if c ∈ Lexicon.separators then pure (.separator, [c])
      else pure (.other, [c]) := by
  simp [symbol]

/-- The lexeme whose first piece has been passed. -/
def lexeme (first : Piece) : Reading (Kind × List Char) :=
  if first.all Text.isLetter then word first
  else if first.all Text.isDecimalDigit then numeral first
  else symbol first

/-- The next lexeme behind blanks and comments, or nothing at the end. -/
def found : Reading (Option Found) := do
  match ← passGap with
  | some start => return some ⟨start, .operator, ['/']⟩
  | none =>
    let start := (← get).position
    match ← advance with
    | none => return none
    | some first =>
      let (kind, chars) ← lexeme first
      return some ⟨start, kind, chars⟩

end Reading

structure Scanner where
  cursor : Cursor
  /-- Whether the sentinel has been made. -/
  finished : Bool := false
  /-- How many tokens have been answered, the sentinel not counted. -/
  count : Nat := 0
  deriving DecidableEq

abbrev Scanner.Outcome (α : Type) := EStateM.Result Failure Scanner α

abbrev Scanning (α : Type) := EStateM Failure Scanner α

namespace Scanner

def onCursor {α : Type} (x : Reading α) : Scanning α := fun s =>
  match x s.cursor with
  | .ok a k => .ok a { s with cursor := k }
  | .error f k => .error f { s with cursor := k }

def sentinel (s : Scanner) : Token := .sentinel s.cursor.name s.cursor.position

/-- Counts a token, and puts it on record if it is malformed. -/
def answer (x : Found) : Scanning Token := fun s =>
  let token := x.token s.cursor.name
  let cursor := if token.isError then s.cursor.note (.malformed token) else s.cursor
  .ok token { s with cursor := cursor, count := s.count + 1 }

/-- Marks the scanner as finished, puts that on record and closes the cursor. -/
def finish : Scanning Token := fun s =>
  let token := s.sentinel
  let cursor := s.cursor.note (.ended token.location s.count)
  (do onCursor Cursor.close; return token : Scanning Token) { s with cursor, finished := true }

/-- The next token; at the end and ever after, the sentinel. -/
def next : Scanning Token := do
  let s ← get
  if s.finished then return s.sentinel
  match ← onCursor Reading.found with
  | some x => answer x
  | none => finish

end Scanner

end KayLex
