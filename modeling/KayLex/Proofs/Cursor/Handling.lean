import KayLex.Proofs.Cursor.Walk

/-!
What becomes of the stream. Whoever holds a cursor can do four things to it: pass a piece,
put something on record, close it, and put a text of his own in front. A cursor has been
handled if any of these have happened to it, in any order and whether they failed or not.

A cursor counts as closed before its stream is asked to close, and it stays closed if the
stream fails to. So there is one moment at which a cursor is closed. Before it the stream
has not been closed, and behind it nothing is asked of the stream any more.
-/

namespace KayLex

namespace Cursor

open KayLex.Action

variable {k₀ k₁ k k' : Cursor} {passed : List Char}

/-! ### What loading and closing do to the stream -/

theorem stream_left_load (hclosed : k.closed = true) : (left (load k)).stream = k.stream := by
  rw [load, if_pos hclosed]
  rfl

theorem left_load_keeps (k : Cursor) :
    (left (load k)).name = k.name ∧ (left (load k)).owned = k.owned ∧
      (left (load k)).closed = k.closed ∧ (left (load k)).stream.closes = k.stream.closes := by
  have hcloses := Stream.closes_read k.stream
  unfold load
  split
  · exact ⟨rfl, rfl, rfl, rfl⟩
  · split
    · next hr =>
      rw [hr] at hcloses
      exact ⟨rfl, rfl, rfl, hcloses⟩
    · next hr =>
      rw [hr] at hcloses
      split <;> exact ⟨rfl, rfl, rfl, hcloses⟩

theorem start_keeps {name : String} {σ : Stream} {owned : Bool}
    (h : start name σ owned = .ok k) :
    k.name = name ∧ k.owned = owned ∧ k.closed = false ∧ k.stream.closes = σ.closes := by
  have hkeeps := left_load_keeps { name, stream := σ, owned }
  unfold start at h
  split at h
  · next hload =>
    cases h
    rwa [hload] at hkeeps
  · cases h

theorem left_advance_cases (k : Cursor) :
    left (advance k) = k ∨
      ∃ x, left (advance k) = left (load { k with position := k.position.behind x }) := by
  unfold advance
  split
  · exact .inl rfl
  · next x _ =>
    refine .inr ⟨x, ?_⟩
    split <;> next hl => exact (congrArg left hl).symm

theorem closed_left_advance (k : Cursor) : (left (advance k)).closed = k.closed := by
  rcases left_advance_cases k with hstay | ⟨x, hload⟩
  · rw [hstay]
  · rw [hload, (left_load_keeps _).2.2.1]

theorem stream_left_close (hopen : k.closed = false) :
    (left (close k)).stream = if k.owned then k.stream.close.2 else k.stream := by
  unfold close
  rw [if_neg (by simp [hopen])]
  dsimp only
  split
  · split <;> next hs => rw [hs]; rfl
  · rfl

theorem left_close_of_closed (hclosed : k.closed = true) : left (close k) = k := by
  rw [close, if_pos hclosed]
  rfl

theorem left_close_keeps (k : Cursor) :
    (left (close k)).name = k.name ∧ (left (close k)).owned = k.owned := by
  unfold close
  split
  · exact ⟨rfl, rfl⟩
  · dsimp only
    repeat' split
    all_goals exact ⟨rfl, rfl⟩

/-! ### Handling -/

/-- One thing happens to a cursor. -/
inductive Touch : Cursor → Cursor → Prop where
  | advance (k : Cursor) : Touch k (left (advance k))
  | note (e : Event) (k : Cursor) : Touch k (note e k)
  | close (k : Cursor) : Touch k (left (close k))
  | replace (text : List Char) (k : Cursor) : Touch k (replace text k)

/-- Any number of things happen to a cursor. -/
abbrev Handled : Cursor → Cursor → Prop := Relation.ReflTransGen Touch

theorem Walk.handled (h : Walk k₀ passed k) : Handled k₀ k := by
  induction h with
  | start => exact .refl
  | @pass _ k _ _ _ ha ih =>
      have htouch := Touch.advance k
      rw [ha] at htouch
      exact ih.tail htouch
  | @fail _ k _ _ _ ha ih =>
      have htouch := Touch.advance k
      rw [ha] at htouch
      exact ih.tail htouch
  | note _ _ ih => exact ih.tail (.note _ _)
  | close _ ih => exact ih.tail (.close _)

theorem Reaches.handled (h : Reaches k k') : Handled k k' := by
  obtain ⟨passed, hwalk⟩ := h
  exact hwalk.handled

theorem Touch.keeps (h : Touch k k') : k'.name = k.name ∧ k'.owned = k.owned := by
  cases h with
  | advance =>
      rcases left_advance_cases k with hstay | ⟨x, hload⟩
      · rw [hstay]
        exact ⟨rfl, rfl⟩
      · obtain ⟨hname, howned, -⟩ := left_load_keeps { k with position := k.position.behind x }
        rw [hload]
        exact ⟨hname, howned⟩
  | note | replace => exact ⟨rfl, rfl⟩
  | close => exact left_close_keeps k

theorem Touch.of_closed (h : Touch k k') (hclosed : k.closed = true) :
    k'.closed = true ∧ k'.stream = k.stream := by
  cases h with
  | advance =>
      refine ⟨(closed_left_advance k).trans hclosed, ?_⟩
      rcases left_advance_cases k with hstay | ⟨x, hload⟩
      · rw [hstay]
      · rw [hload]
        exact stream_left_load (k := { k with position := k.position.behind x }) hclosed
  | note | replace => exact ⟨hclosed, rfl⟩
  | close =>
      rw [left_close_of_closed hclosed]
      exact ⟨hclosed, rfl⟩

/-- An open cursor is closed by closing it only, and nothing else closes its stream. -/
theorem Touch.of_open (h : Touch k k') (hopen : k.closed = false) :
    k' = left (Cursor.close k) ∨ k'.closed = false ∧ k'.stream.closes = k.stream.closes := by
  cases h with
  | advance =>
      refine .inr ⟨(closed_left_advance k).trans hopen, ?_⟩
      rcases left_advance_cases k with hstay | ⟨x, hload⟩
      · rw [hstay]
      · rw [hload]
        exact (left_load_keeps _).2.2.2
  | note | replace => exact .inr ⟨hopen, rfl⟩
  | close => exact .inl rfl

theorem Handled.keeps (h : Handled k k') : k'.name = k.name ∧ k'.owned = k.owned := by
  induction h with
  | refl => exact ⟨rfl, rfl⟩
  | tail _ htouch ih =>
      obtain ⟨hname, howned⟩ := htouch.keeps
      exact ⟨hname.trans ih.1, howned.trans ih.2⟩

theorem Handled.of_closed (h : Handled k k') (hclosed : k.closed = true) :
    k'.closed = true ∧ k'.stream = k.stream := by
  induction h with
  | refl => exact ⟨hclosed, rfl⟩
  | tail _ htouch ih =>
      obtain ⟨hclosed', hstream⟩ := htouch.of_closed ih.1
      exact ⟨hclosed', hstream.trans ih.2⟩

/-! ### The moment of closing -/

/-- On its way from `k₀` to `k` the cursor was closed at `k₁`, where it was still open, and
since then nothing has been asked of the stream. -/
structure ClosedAt (k₀ k₁ k : Cursor) : Prop where
  before : Handled k₀ k₁
  isOpen : k₁.closed = false
  behind : Handled (left (Cursor.close k₁)) k
  stream_eq : k.stream = (left (Cursor.close k₁)).stream

/-- An open cursor is still open, and its stream has not been closed, or there was a moment
at which it was closed, and the stream had not been closed until then. -/
theorem Handled.cases_open (h : Handled k₀ k) (hopen : k₀.closed = false) :
    k.closed = false ∧ k.stream.closes = k₀.stream.closes ∨
      k.closed = true ∧ ∃ k₁, ClosedAt k₀ k₁ k ∧ k₁.stream.closes = k₀.stream.closes := by
  induction h with
  | refl => exact .inl ⟨hopen, rfl⟩
  | @tail k k' hhandled htouch ih =>
      rcases ih with ⟨hstill, hcloses⟩ | ⟨hclosed, k₁, hat, hcloses⟩
      · rcases htouch.of_open hstill with rfl | ⟨hstill', hcloses'⟩
        · exact .inr ⟨closed_left_close k, k, ⟨hhandled, hstill, .refl, rfl⟩, hcloses⟩
        · exact .inl ⟨hstill', hcloses'.trans hcloses⟩
      · obtain ⟨hclosed', hstream⟩ := htouch.of_closed hclosed
        exact .inr ⟨hclosed', k₁, ⟨hat.before, hat.isOpen, hat.behind.tail htouch,
          hstream.trans hat.stream_eq⟩, hcloses⟩

theorem Handled.closes_eq (h : Handled k₀ k) (hopen : k₀.closed = false) :
    k.stream.closes = k₀.stream.closes + if k₀.owned ∧ k.closed then 1 else 0 := by
  rcases h.cases_open hopen with ⟨hstill, hcloses⟩ | ⟨hclosed, k₁, hat, hcloses⟩
  · simp [hstill, hcloses]
  · rw [hat.stream_eq, stream_left_close hat.isOpen, ← hat.before.keeps.2, ← hcloses]
    cases howned : k₁.owned <;> simp [hclosed, Stream.close]

end Cursor

end KayLex
