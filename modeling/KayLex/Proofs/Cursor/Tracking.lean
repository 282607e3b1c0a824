import KayLex.Proofs.Cursor.Lookahead

/-!
Reads that fail for the caller to know. The cursor moves its position before it reads and
changes what it shows after that, so a read that fails in between leaves a cursor that shows
the same character as before and counts it as passed. When the caller goes on, it is passed,
and counted, once more.

`Tracks` says how far this goes. All that is passed is passed once, in the order of the
stream, and what is shown is the last character that was delivered. Only the position is
wrong: it is ahead of the characters by as many places as reads have failed.
-/

namespace KayLex

/-! ### Answers, by the number of the read -/

namespace Stream

variable {σ s : Stream} {n : Nat}

/-- What the read with a number answers, the first one being number zero. -/
def answer (s : Stream) (i : Nat) : Except Failure (Option Char) :=
  match s.items[i]? with
  | some (.char c) => .ok (some c)
  | some (.fault f) => .error f
  | none =>
    match s.thereafter with
    | none => .ok none
    | some f => .error f

def delivered (s : Stream) : Nat → List Char
  | 0 => []
  | n + 1 =>
    match s.answer n with
    | .ok (some c) => s.delivered n ++ [c]
    | .ok none | .error _ => s.delivered n

/-- How many of the first `n` reads fail in a way that does not end the input. -/
def raised (s : Stream) : Nat → Nat
  | 0 => 0
  | n + 1 =>
    match s.answer n with
    | .ok _ => s.raised n
    | .error f => if f.endsInput then s.raised n else s.raised n + 1

/-- What a cursor shows behind the first `n` reads. A read that fails for the caller leaves it
as it was. -/
def shown (s : Stream) : Nat → Option Char
  | 0 => none
  | n + 1 =>
    match s.answer n with
    | .ok c => c
    | .error f => if f.endsInput then none else s.shown n

/-- What a cursor shows each time when one of the first `n` reads is made. -/
def moved (s : Stream) : Nat → List Char
  | 0 => []
  | n + 1 => s.moved n ++ (s.shown n).toList

/-- What has become of the stream `σ` by `n` reads, whether it has been closed or not. -/
structure After (σ : Stream) (n : Nat) (s : Stream) : Prop where
  reads_eq : s.reads = σ.reads + n
  items_eq : s.items = σ.items.drop n
  thereafter_eq : s.thereafter = σ.thereafter

theorem After.refl (σ : Stream) : σ.After 0 σ := ⟨rfl, rfl, rfl⟩

theorem After.read (h : σ.After n s) : σ.After (n + 1) s.read.2 := by
  refine ⟨?_, ?_, ?_⟩
  · rw [reads_read, h.reads_eq, Nat.add_assoc]
  · rw [items_read, h.items_eq, List.drop_drop]
  · rw [thereafter_read, h.thereafter_eq]

theorem After.close (h : σ.After n s) : σ.After n s.close.2 :=
  ⟨h.reads_eq, h.items_eq, h.thereafter_eq⟩

theorem After.read_eq (h : σ.After n s) : s.read = (σ.answer n, s.read.2) := by
  have hhead : σ.items[n]? = s.items.head? := by rw [h.items_eq, List.head?_drop]
  unfold answer
  rw [hhead, ← h.thereafter_eq, Stream.read]
  cases s.items with
  | nil => rfl
  | cons item items => cases item <;> rfl

end Stream

/-! ### Cursors -/

namespace Cursor

open KayLex.Action

variable {σ : Stream} {name : String} {owned : Bool} {n : Nat} {passed : List Char}
  {k k' k₀ : Cursor}

/-- The cursor has passed some characters and has come to the state `k` by `n` reads. -/
structure Tracks (σ : Stream) (passed : List Char) (n : Nat) (k : Cursor) : Prop where
  stream : σ.After n k.stream
  isPrefix : passed <+: σ.delivered n
  /-- The position counts what has been passed, and something twice for each failure. -/
  sublist : List.Sublist passed (σ.moved n)
  length_eq : (σ.moved n).length = passed.length + σ.raised n
  position_eq : k.position = ({} : Position).afterAll (σ.moved n)
  /-- What is shown is the last character delivered, and it has not been passed. -/
  shows : k.current = none ∨ ∃ c, k.current = some (.single c) ∧ k.closed = false ∧
    σ.shown n = some c ∧ σ.delivered n = passed ++ [c]

theorem Tracks.offset_eq (h : Tracks σ passed n k) :
    k.position.offset = passed.length + σ.raised n := by
  rw [h.position_eq, Position.offset_afterAll, Nat.zero_add, h.length_eq]

/-- The position is that behind the characters as long as nothing has failed. -/
theorem Tracks.position_eq_iff (h : Tracks σ passed n k) :
    k.position = ({} : Position).afterAll passed ↔ σ.raised n = 0 := by
  constructor
  · intro hposition
    have hoffset := h.offset_eq
    rw [hposition, Position.offset_afterAll, Nat.zero_add] at hoffset
    omega
  · intro hnone
    have hlength := h.length_eq
    rw [hnone, Nat.add_zero] at hlength
    rw [h.position_eq, h.sublist.eq_of_length hlength.symm]

/-- The offset is that of the character which is shown as long as nothing has failed. -/
theorem Tracks.getElem?_offset_iff (h : Tracks σ passed n k) {c : Char}
    (hc : k.current = some (.single c)) :
    (σ.delivered n)[k.position.offset]? = some c ↔ σ.raised n = 0 := by
  rcases h.shows with hnone | ⟨d, hd, -, -, hdelivered⟩
  · rw [hc] at hnone
    cases hnone
  rw [hc] at hd
  cases hd
  rw [h.offset_eq, hdelivered]
  constructor
  · intro hget
    obtain ⟨hlt, -⟩ := List.getElem?_eq_some_iff.mp hget
    rw [List.length_append, List.length_singleton] at hlt
    omega
  · intro hnone
    rw [hnone, Nat.add_zero, List.getElem?_concat_length]

/-! #### Steps -/

theorem Tracks.note (h : Tracks σ passed n k) (e : Event) : Tracks σ passed n (note e k) :=
  ⟨h.stream, h.isPrefix, h.sublist, h.length_eq, h.position_eq, h.shows⟩

theorem Tracks.close (h : Tracks σ passed n k) : Tracks σ passed n (left (Cursor.close k)) := by
  have hshut (stream : Stream) (hstream : σ.After n stream) :
      Tracks σ passed n { k with stream, closed := true, current := none } :=
    ⟨hstream, h.isPrefix, h.sublist, h.length_eq, h.position_eq, .inl rfl⟩
  unfold Cursor.close
  split
  · exact h
  · dsimp only
    split
    · split
      · next hclose =>
        obtain ⟨-, rfl⟩ := Prod.mk.inj hclose
        exact (hshut _ h.stream.close).note _
      · next hclose =>
        obtain ⟨-, rfl⟩ := Prod.mk.inj hclose
        exact hshut _ h.stream.close
    · exact hshut _ h.stream

/-- Loading shows what the read answers, if it answers, or if it fails as the end of the input.
Any other failure goes to the caller and leaves what is shown as it is. -/
theorem load_cases (hopen : k.closed = false) (h : σ.After n k.stream) :
    (∃ next journal, load k =
        .ok () { k with stream := k.stream.read.2, current := next.map .single, journal } ∧
      σ.delivered (n + 1) = σ.delivered n ++ next.toList ∧ σ.raised (n + 1) = σ.raised n ∧
      σ.shown (n + 1) = next) ∨
    ∃ f, load k = .error f { k with stream := k.stream.read.2 } ∧
      σ.delivered (n + 1) = σ.delivered n ∧ σ.raised (n + 1) = σ.raised n + 1 ∧
      σ.shown (n + 1) = σ.shown n := by
  rw [load, if_neg (by simp [hopen]), h.read_eq, Stream.delivered, Stream.raised, Stream.shown]
  cases σ.answer n with
  | ok next =>
      refine .inl ⟨next, k.journal, rfl, ?_, rfl, rfl⟩
      cases next with
      | none => exact (List.append_nil _).symm
      | some c => rfl
  | error f =>
      cases hends : f.endsInput with
      | true =>
          refine .inl ⟨none, .readFailed k.name k.position f :: k.journal, ?_⟩
          simp [hends, note]
      | false =>
          refine .inr ⟨f, ?_⟩
          simp [hends]

/-- Behind a character that is passed the stream is read once more. If that fails for the caller,
the same character is shown at the next place. -/
theorem Tracks.advance_cases (h : Tracks σ passed n k) {x : Piece} (hx : k.current = some x) :
    (∃ k', advance k = .ok (some x) k' ∧ Tracks σ (passed ++ x.chars) (n + 1) k') ∨
      ∃ f k', advance k = .error f k' ∧ Tracks σ passed (n + 1) k' := by
  rcases h.shows with hnone | ⟨c, hc, hopen, hshown, hdelivered⟩
  · rw [hx] at hnone
    cases hnone
  obtain rfl : x = .single c := Option.some.inj (hx.symm.trans hc)
  have hmoved : σ.moved (n + 1) = σ.moved n ++ [c] := by
    rw [Stream.moved, hshown, Option.toList_some]
  have hlength : (σ.moved (n + 1)).length = passed.length + σ.raised n + 1 := by
    rw [hmoved, List.length_append, h.length_eq, List.length_singleton]
  have hposition : k.position.behind (.single c) = ({} : Position).afterAll (σ.moved (n + 1)) := by
    rw [Position.behind_single, h.position_eq, hmoved, Position.afterAll_append]
    rfl
  rw [advance_of_current hx, Piece.chars_single]
  rcases load_cases (k := { k with position := k.position.behind (.single c) }) hopen h.stream with
    ⟨next, journal, hload, hmore, hraised, hshown'⟩ | ⟨f, hload, hmore, hraised, hshown'⟩
  · rw [hload]
    refine .inl ⟨_, rfl, h.stream.read, ?_, ?_, ?_, hposition, ?_⟩
    · rw [hmore, hdelivered]
      exact List.prefix_append _ _
    · rw [hmoved]
      exact h.sublist.append_right [c]
    · rw [hlength, hraised, List.length_append, List.length_singleton]
      omega
    · cases next with
      | none => exact .inl rfl
      | some d => exact .inr ⟨d, rfl, hopen, hshown', by rw [hmore, hdelivered, Option.toList_some]⟩
  · rw [hload]
    refine .inr ⟨f, _, rfl, h.stream.read, ?_, ?_, ?_, hposition, ?_⟩
    · rw [hmore]
      exact h.isPrefix
    · rw [hmoved]
      exact h.sublist.trans (List.sublist_append_left _ _)
    · rw [hlength, hraised]
      omega
    · exact .inr ⟨c, hx, hopen, hshown'.trans hshown, hmore.trans hdelivered⟩

theorem Tracks.pass {a : Option Piece} (h : Tracks σ passed n k) (ha : advance k = .ok a k') :
    ∃ n', Tracks σ (passed ++ charsOf a) n' k' := by
  cases hc : k.current with
  | none =>
      rw [advance, hc] at ha
      cases ha
      exact ⟨n, by simpa [charsOf] using h⟩
  | some x =>
      rcases h.advance_cases hc with ⟨_, hadvance, hk'⟩ | ⟨_, _, hadvance, -⟩
      · rw [ha] at hadvance
        cases hadvance
        exact ⟨_, hk'⟩
      · rw [ha] at hadvance
        cases hadvance

theorem Tracks.fail {f : Failure} (h : Tracks σ passed n k) (ha : advance k = .error f k') :
    Tracks σ passed (n + 1) k' := by
  cases hc : k.current with
  | none =>
      rw [advance, hc] at ha
      cases ha
  | some x =>
      rcases h.advance_cases hc with ⟨_, hadvance, -⟩ | ⟨_, _, hadvance, hk'⟩
      · rw [ha] at hadvance
        cases hadvance
      · rw [ha] at hadvance
        cases hadvance
        exact hk'

/-! #### Histories -/

theorem Tracks.walk {before : List Char} (h : Tracks σ before n k₀) (hwalk : Walk k₀ passed k) :
    ∃ n', Tracks σ (before ++ passed) n' k := by
  induction hwalk with
  | start => exact ⟨n, by rwa [List.append_nil]⟩
  | pass _ ha ih =>
      obtain ⟨n₁, ih⟩ := ih
      rw [← List.append_assoc]
      exact ih.pass ha
  | fail _ ha ih =>
      obtain ⟨n₁, ih⟩ := ih
      exact ⟨n₁ + 1, ih.fail ha⟩
  | note _ _ ih =>
      obtain ⟨n₁, ih⟩ := ih
      exact ⟨n₁, ih.note _⟩
  | close _ ih =>
      obtain ⟨n₁, ih⟩ := ih
      exact ⟨n₁, ih.close⟩

theorem tracks_of_start (h : start name σ owned = .ok k) : Tracks σ [] 1 k := by
  rw [start] at h
  rcases load_cases (k := { name, stream := σ, owned }) rfl (.refl σ) with
    ⟨next, journal, hload, hdelivered, hraised, hshown⟩ | ⟨f, hload, -⟩
  · rw [hload] at h
    cases h
    refine ⟨(Stream.After.refl σ).read, List.nil_prefix, List.nil_sublist _, ?_, rfl, ?_⟩
    · rw [hraised]
      rfl
    · cases next with
      | none => exact .inl rfl
      | some c => exact .inr ⟨c, rfl, rfl, hshown, hdelivered⟩
  · rw [hload] at h
    cases h

end Cursor

end KayLex
