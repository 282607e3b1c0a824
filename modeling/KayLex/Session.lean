import KayLex.Drain

/-!
Sessions: a scanner that several consumers share. Tokens can be asked for one by
one, all at once, or through feeds that are opened at any time and pulled from in
any order; the cursor underneath can be moved, repositioned and closed from
outside at any point. All consumers draw on the one scanner, so whoever asks next
gets the next token.

A feed is exhausted once it has given the sentinel or a failure. A request that
fails leaves the session in the state it had come to, and the session goes on.
-/

namespace KayLex

structure Session where
  scanner : Scanner
  /-- For every feed, in the order of opening, whether it can still give tokens. -/
  feeds : List Bool := []
  deriving DecidableEq

inductive Request where
  | next
  | all
  | openFeed
  | pull (feed : Nat)
  | close
  /-- Passing so many pieces. -/
  | advance (count : Nat)
  /-- Passing the current piece if it is this text. -/
  | accept (text : List Char)
  /-- A text in the place of the current piece; the empty text is the end. -/
  | replace (text : List Char)
  deriving DecidableEq

inductive Reply where
  | token (t : Token)
  | tokens (ts : List Token)
  | chars (cs : List Char)
  | flag (b : Bool)
  | nothing
  deriving DecidableEq

abbrev Sharing (α : Type) := EStateM Failure Session α

namespace Session

def onScanner {α : Type} (x : Scanning α) : Sharing α := fun s =>
  match x s.scanner with
  | .ok a scanner => .ok a { s with scanner }
  | .error f scanner => .error f { s with scanner }

def onCursor {α : Type} (x : Reading α) : Sharing α := onScanner (Scanner.onCursor x)

def isOpen (feed : Nat) (s : Session) : Bool := s.feeds.getD feed false

def exhaust (feed : Nat) (s : Session) : Session := { s with feeds := s.feeds.set feed false }

/-- The next token of a feed, or nothing if it is exhausted. -/
def pull (feed : Nat) : Sharing Reply := fun s =>
  if s.isOpen feed then
    match onScanner Scanner.next s with
    | .ok t s' => .ok (.token t) (if t.isEnd then s'.exhaust feed else s')
    | .error f s' => .error f (s'.exhaust feed)
  else .ok .nothing s

/-- All tokens up to the sentinel; on a failure, only that. -/
def all : Sharing Reply := fun s =>
  let drained := s.scanner.drain
  match drained.all with
  | .ok ts => .ok (.tokens ts) { s with scanner := drained.scanner }
  | .error f => .error f { s with scanner := drained.scanner }

def serve : Request → Sharing Reply
  | .next => .token <$> onScanner Scanner.next
  | .all => all
  | .openFeed => fun s => .ok .nothing { s with feeds := s.feeds ++ [true] }
  | .pull feed => pull feed
  | .close => do onCursor Cursor.close; return .nothing
  | .advance count => .chars <$> onCursor (Cursor.advanceBy count [])
  | .accept text => .flag <$> onCursor (Cursor.acceptText text)
  | .replace text => do onCursor (modify (Cursor.replace text)); return .nothing

/-- Serves requests one after the other, failures or not, and answers each. -/
def serveAll : List Request → Session → List (Except Failure Reply) × Session
  | [], s => ([], s)
  | r :: rest, s =>
    match serve r s with
    | .ok reply s' =>
      let (replies, last) := serveAll rest s'
      (.ok reply :: replies, last)
    | .error f s' =>
      let (replies, last) := serveAll rest s'
      (.error f :: replies, last)

end Session

end KayLex
