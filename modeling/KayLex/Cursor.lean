import KayLex.Action
import KayLex.Event
import KayLex.Piece
import KayLex.Stream

/-!
A cursor over a stream. It holds one character of lookahead, `current`, and the
position of that character; `current` is empty once the input is exhausted.
Everything else a cursor does is made of one step, `advance`, which passes the
current character and loads the next one. A caller may put another text in the place
of the current character, so what a cursor holds is in general a piece of text.

A failed read that ends the input is put on record and leaves the cursor at the
end. Any other failure goes to the caller, with the position already behind the
character that `current` still shows. A cursor that has been closed never reads
again.

Cursor actions are state actions that may fail, and the state they leave stays in
both cases. `remaining` bounds what can still be passed; every step that passes a
character lowers it, which is why the loops over a cursor end.
-/

namespace KayLex

/-- A reader of a stream with one character of lookahead. -/
structure Cursor where
  name : String
  stream : Stream
  /-- Whether closing the cursor closes the stream. -/
  owned : Bool
  closed : Bool := false
  /-- The next piece to pass, or nothing at the end. -/
  current : Option Piece := none
  position : Position := {}
  /-- The events so far, the latest first. -/
  journal : List Event := []
  deriving DecidableEq

abbrev Cursor.Outcome (α : Type) := EStateM.Result Failure Cursor α

abbrev Reading (α : Type) := EStateM Failure Cursor α

namespace Cursor

/-- What can still be passed: the items of the stream and the current piece. -/
def remaining (k : Cursor) : Nat := k.stream.items.length + if k.current.isSome then 1 else 0

def note (e : Event) (k : Cursor) : Cursor := { k with journal := e :: k.journal }

def load : Reading Unit := fun k =>
  if k.closed then .ok () { k with current := none }
  else
    match k.stream.read with
    | (.ok next, stream) => .ok () { k with stream := stream, current := next.map .single }
    | (.error f, stream) =>
      if f.endsInput then
        .ok () (note (.readFailed k.name k.position f)
          { k with stream := stream, current := none })
      else .error f { k with stream := stream }

/-- A cursor at the start of a stream, if its first read does not fail. -/
def start (name : String) (stream : Stream) (owned : Bool) : Except Failure Cursor :=
  match load { name := name, stream := stream, owned := owned } with
  | .ok _ k => .ok k
  | .error f _ => .error f

/-- The cursor at the start of a text. Reading a text never fails. -/
def ofChars (name : String) (cs : List Char) : Cursor :=
  { name := name
    stream := { items := cs.tail.map .char, reads := 1 }
    owned := true
    current := cs.head?.map .single }

/-- Passes the current piece and answers it; at the end it answers nothing and reads
nothing. -/
def advance : Reading (Option Piece) := fun k =>
  match k.current with
  | none => .ok none k
  | some x =>
    match load { k with position := k.position.behind x } with
    | .ok _ k' => .ok (some x) k'
    | .error f k' => .error f k'

/-- Passes the current piece if it is the given one, and tells whether it was. -/
def accept (x : Piece) : Reading Bool := fun k =>
  if k.current = some x then
    match advance k with
    | .ok _ k' => .ok true k'
    | .error f k' => .error f k'
  else .ok false k

/-- `accept` for a text. No piece is empty, so the empty text is never accepted. -/
def acceptText (text : List Char) : Reading Bool :=
  match Piece.ofChars? text with
  | some x => accept x
  | none => pure false

/-- The characters of what was passed; nothing was passed at the end. -/
def charsOf (passed : Option Piece) : List Char := (passed.map Piece.chars).getD []

/-- Advances so many times and answers what was passed, behind what was passed
before (which is given latest first). -/
def advanceBy (n : Nat) (passed : List Char) : Reading (List Char) :=
  match n with
  | 0 => pure passed.reverse
  | n + 1 => do
    let next ← advance
    advanceBy n ((charsOf next).reverse ++ passed)

/-- Closes the cursor, and the stream if it is owned. A second closing does nothing,
also if the first one failed. -/
def close : Reading Unit := fun k =>
  if k.closed then .ok () k
  else
    let k := { k with closed := true, current := none }
    if k.owned then
      match k.stream.close with
      | (none, stream) => .ok () (note (.closed k.name) { k with stream := stream })
      | (some f, stream) => .error f { k with stream := stream }
    else .ok () k

/-- Puts a text in the place of the current piece; the empty text makes it the end. Nothing
else changes. -/
def replace (text : List Char) (k : Cursor) : Cursor :=
  { k with current := Piece.ofChars? text }

def location (k : Cursor) : Location := ⟨k.name, k.position.line, k.position.column⟩

def atEnd (k : Cursor) : Bool := k.current.isNone

def describe (k : Cursor) : String :=
  let name := Text.quoted k.name
  let current := Text.quoted (String.ofList (charsOf k.current))
  s!"CharacterSource({name}, current={current}, {k.position.line}:{k.position.column})"

/-! ### What a step leaves to be passed

Loading can only shorten what remains, apart from the character that it loads in
place of an item of the stream. So passing a piece shortens it. -/

theorem remaining_le_of_load {k k' : Cursor} {u : Unit} (h : load k = .ok u k') :
    k'.remaining ≤ k.stream.items.length := by
  unfold load at h
  split at h
  · cases h
    simp [remaining]
  · split at h
    · next next stream hr =>
      cases h
      cases next with
      | none =>
        have := Stream.length_items_read_le k.stream
        rw [hr] at this
        simpa [remaining] using this
      | some c =>
        have := Stream.length_items_of_read hr
        simp only [remaining, Option.map_some, Option.isSome_some, if_true]
        omega
    · next f stream hr =>
      split at h
      · cases h
        have := Stream.length_items_read_le k.stream
        rw [hr] at this
        simpa [remaining, note] using this
      · cases h

theorem remaining_lt_of_advance {k k' : Cursor} {x : Piece} {a : Option Piece}
    (hc : k.current = some x) (h : advance k = .ok a k') : k'.remaining < k.remaining := by
  unfold advance at h
  rw [hc] at h
  dsimp only at h
  split at h
  · next hl =>
    cases h
    have := remaining_le_of_load hl
    simp only [remaining, hc, Option.isSome_some, if_true] at this ⊢
    omega
  · cases h

theorem remaining_le_of_advance {k k' : Cursor} {a : Option Piece} (h : advance k = .ok a k') :
    k'.remaining ≤ k.remaining := by
  cases hc : k.current with
  | some x => exact Nat.le_of_lt (remaining_lt_of_advance hc h)
  | none =>
    unfold advance at h
    rw [hc] at h
    cases h
    exact Nat.le_refl _

theorem current_of_advance {k k' : Cursor} {a : Option Piece} (h : advance k = .ok a k') :
    k.current = a := by
  unfold advance at h
  split at h
  · next hc =>
    cases h
    exact hc
  · next x hc =>
    split at h
    · cases h
      exact hc
    · cases h

theorem remaining_le_of_accept {k k' : Cursor} {x : Piece} {b : Bool}
    (h : accept x k = .ok b k') : k'.remaining ≤ k.remaining := by
  unfold accept at h
  split at h
  · split at h
    · next ha =>
      cases h
      exact remaining_le_of_advance ha
    · cases h
  · cases h
    exact Nat.le_refl _

end Cursor

end KayLex
