import KayLex.Failure

/-!
Streams of characters. A stream is known by what its reads will answer: a
character or a failure for each read to come, and from then on either nothing at
all or one failure again and again. Reads and closings are counted, because how
often a stream is asked is part of what a reader promises.
-/

namespace KayLex

inductive Item where
  | char (c : Char)
  | fault (failure : Failure)
  deriving DecidableEq

structure Stream where
  /-- What the coming reads answer, one item to a read. -/
  items : List Item
  /-- What every read after those fails with; without it they answer nothing. -/
  thereafter : Option Failure := none
  /-- What closing fails with. -/
  closing : Option Failure := none
  reads : Nat := 0
  closes : Nat := 0
  deriving DecidableEq

namespace Stream

def ofChars (cs : List Char) : Stream := { items := cs.map .char }

/-- One read: a character, nothing at the end, or a failure. -/
def read (s : Stream) : Except Failure (Option Char) × Stream :=
  match s.items with
  | .char c :: rest => (.ok (some c), { s with items := rest, reads := s.reads + 1 })
  | .fault f :: rest => (.error f, { s with items := rest, reads := s.reads + 1 })
  | [] =>
    (match s.thereafter with
      | none => .ok none
      | some f => .error f, { s with reads := s.reads + 1 })

/-- One closing. The stream counts as closed even if that fails. -/
def close (s : Stream) : Option Failure × Stream :=
  (s.closing, { s with closes := s.closes + 1 })

def isClosed (s : Stream) : Bool := 0 < s.closes

@[simp] theorem reads_read (s : Stream) : s.read.2.reads = s.reads + 1 := by
  unfold read
  split <;> rfl

@[simp] theorem closes_read (s : Stream) : s.read.2.closes = s.closes := by
  unfold read
  split <;> rfl

theorem length_items_read_le (s : Stream) : s.read.2.items.length ≤ s.items.length := by
  unfold read
  split
  · next h => simp [h]
  · next h => simp [h]
  · exact Nat.le_refl _

theorem length_items_of_read {s s' : Stream} {c : Char} (h : s.read = (.ok (some c), s')) :
    s'.items.length + 1 = s.items.length := by
  unfold read at h
  split at h
  · next hi =>
    cases h
    simp [hi]
  · cases h
  · simp only [Prod.mk.injEq] at h
    obtain ⟨h, -⟩ := h
    split at h <;> cases h

end Stream

end KayLex
