import KayLex.Proofs.Cursor.Ahead
import KayLex.Proofs.Cursor.Walk

/-!
One character of lookahead. A cursor that has passed some characters of its stream has
read these and one item more: the next character, which it shows, or what stands in the
place of one at the end. `Follows` says so, and that the position is the one behind what
has been passed, and that a failed read is on record once the cursor has met it.
-/

namespace KayLex

/-! ### Streams, read by read -/

namespace Stream

variable {s : Stream} {n : Nat}

@[simp] theorem items_read (s : Stream) : s.read.2.items = s.items.drop 1 := by
  unfold read
  split
  · next hi => rw [hi, List.drop_one, List.tail_cons]
  · next hi => rw [hi, List.drop_one, List.tail_cons]
  · next hi => rw [hi, List.drop_nil]

@[simp] theorem thereafter_read (s : Stream) : s.read.2.thereafter = s.thereafter := by
  unfold read
  split <;> rfl

theorem charsOf_drop (items : List Item) (hn : n ≤ (charsOf items).length) :
    charsOf (items.drop n) = (charsOf items).drop n ∧
      ∀ thereafter, fateOf thereafter (items.drop n) = fateOf thereafter items := by
  induction n generalizing items with
  | zero => exact ⟨rfl, fun _ => rfl⟩
  | succ n ih =>
      cases items with
      | nil => cases hn
      | cons item items =>
          cases item with
          | fault f => cases hn
          | char c => exact ih items (by simpa [charsOf] using hn)

end Stream

namespace Cursor

open KayLex.Action

variable {σ : Stream} {name : String} {passed : List Char} {k k' k₀ : Cursor}

/-- The warnings on record, the latest first. -/
def warnings (k : Cursor) : List Event := k.journal.filter (·.level = .warning)

@[simp] theorem warnings_note {e : Event} (he : e.level = .debug) (k : Cursor) :
    (note e k).warnings = k.warnings := by
  simp [warnings, note, he]

/-! ### Before and after a read -/

/-- A cursor that has to load what follows the characters `passed` of the stream `σ`. -/
structure Due (σ : Stream) (name : String) (passed : List Char) (k : Cursor) : Prop where
  isOpen : k.closed = false
  name_eq : k.name = name
  isPrefix : passed <+: σ.chars
  position_eq : k.position = ({} : Position).afterAll passed
  reads_eq : k.stream.reads = σ.reads + passed.length
  items_eq : k.stream.items = σ.items.drop passed.length
  thereafter_eq : k.stream.thereafter = σ.thereafter
  warnings_eq : k.warnings = []

/-- A cursor that has passed the characters `passed` of the stream `σ` and shows what
follows them, unless it has been closed. -/
structure Follows (σ : Stream) (name : String) (passed : List Char) (k : Cursor) : Prop where
  name_eq : k.name = name
  isPrefix : passed <+: σ.chars
  position_eq : k.position = ({} : Position).afterAll passed
  reads_eq : k.stream.reads = σ.reads + (passed.length + 1)
  items_eq : k.stream.items = σ.items.drop (passed.length + 1)
  thereafter_eq : k.stream.thereafter = σ.thereafter
  current_eq : k.current = if k.closed then none else σ.chars[passed.length]?.map .single
  warnings_eq : k.warnings =
    if passed = σ.chars then (σ.fate.map (.readFailed name k.position)).toList else []

theorem Follows.offset_eq (h : Follows σ name passed k) : k.position.offset = passed.length := by
  rw [h.position_eq, Position.offset_afterAll, Nat.zero_add]

theorem Follows.eq_take (h : Follows σ name passed k) :
    passed = σ.chars.take k.position.offset := by
  rw [h.offset_eq]
  exact List.prefix_iff_eq_take.mp h.isPrefix

theorem Follows.eq_of_position (h : Follows σ name passed k)
    (hposition : k.position = ({} : Position).afterAll σ.chars) : passed = σ.chars := by
  have hoffset := h.offset_eq
  rw [hposition, Position.offset_afterAll, Nat.zero_add] at hoffset
  exact h.isPrefix.eq_of_length hoffset.symm

theorem Due.stream (h : Due σ name passed k) :
    k.stream.chars = σ.chars.drop passed.length ∧ k.stream.fate = σ.fate := by
  obtain ⟨hchars, hfate⟩ := Stream.charsOf_drop σ.items h.isPrefix.length_le
  rw [Stream.chars, Stream.fate, h.items_eq, h.thereafter_eq]
  exact ⟨hchars, hfate _⟩

theorem Due.quiet (hquiet : σ.Quiet) (h : Due σ name passed k) : k.stream.Quiet :=
  fun f hf => hquiet f (h.stream.2 ▸ hf)

theorem Due.load (hquiet : σ.Quiet) (h : Due σ name passed k) :
    ∃ k', Cursor.load k = .ok () k' ∧ Follows σ name passed k' ∧ k'.closed = false := by
  obtain ⟨hchars, hfate⟩ := h.stream
  refine ⟨_, load_of_quiet h.isOpen (h.quiet hquiet), ?_, h.isOpen⟩
  refine ⟨h.name_eq, h.isPrefix, h.position_eq, ?_, ?_, ?_, ?_, ?_⟩
  · rw [Stream.reads_read, h.reads_eq, Nat.add_assoc]
  · rw [Stream.items_read, h.items_eq, List.drop_drop]
  · rw [Stream.thereafter_read, h.thereafter_eq]
  · dsimp only
    rw [if_neg (by simp [h.isOpen]), hchars, List.head?_drop]
  · have hwarnings := h.warnings_eq
    unfold Cursor.warnings at hwarnings ⊢
    dsimp only
    rw [List.filter_append, hwarnings, List.append_nil, hchars]
    obtain ⟨rest, hrest⟩ := h.isPrefix
    rw [← hrest, List.drop_left' rfl]
    cases rest with
    | nil =>
        rw [if_pos (List.append_nil passed).symm, onEnd, hfate, h.name_eq]
        cases σ.fate <;> rfl
    | cons c rest => simp [onEnd]

/-! ### Steps -/

theorem Follows.note {e : Event} (he : e.level = .debug) (h : Follows σ name passed k) :
    Follows σ name passed (note e k) :=
  ⟨h.name_eq, h.isPrefix, h.position_eq, h.reads_eq, h.items_eq, h.thereafter_eq, h.current_eq,
    (warnings_note he k).trans h.warnings_eq⟩

theorem Follows.close (h : Follows σ name passed k) :
    Follows σ name passed (left (Cursor.close k)) := by
  unfold Cursor.close
  split
  · exact h
  · have hshut (stream : Stream) (hitems : stream.items = k.stream.items)
        (hreads : stream.reads = k.stream.reads)
        (hthereafter : stream.thereafter = k.stream.thereafter) :
        Follows σ name passed { k with stream, closed := true, current := none } :=
      ⟨h.name_eq, h.isPrefix, h.position_eq, hreads ▸ h.reads_eq, hitems ▸ h.items_eq,
        hthereafter ▸ h.thereafter_eq, rfl, h.warnings_eq⟩
    dsimp only
    split
    · split
      · next hclose =>
        obtain ⟨-, rfl⟩ := Prod.mk.inj hclose
        exact (hshut k.stream.close.2 rfl rfl rfl).note rfl
      · next hclose =>
        obtain ⟨-, rfl⟩ := Prod.mk.inj hclose
        exact hshut k.stream.close.2 rfl rfl rfl
    · exact hshut k.stream rfl rfl rfl

theorem Follows.due {x : Piece} (h : Follows σ name passed k) (hx : k.current = some x) :
    Due σ name (passed ++ x.chars) { k with position := k.position.behind x } := by
  have hopen : k.closed = false := by
    cases hclosed : k.closed with
    | false => rfl
    | true =>
        rw [h.current_eq, if_pos hclosed] at hx
        cases hx
  rw [h.current_eq, if_neg (by simp [hopen])] at hx
  obtain ⟨c, hc, rfl⟩ := Option.map_eq_some_iff.mp hx
  have hlt : passed.length < σ.chars.length := (List.getElem?_eq_some_iff.mp hc).1
  have hnext : passed ++ [c] <+: σ.chars := by
    have hconcat := List.take_add_one (l := σ.chars) (i := passed.length)
    rw [← List.prefix_iff_eq_take.mp h.isPrefix, hc, Option.toList_some] at hconcat
    rw [← hconcat]
    exact List.take_prefix _ _
  refine ⟨hopen, h.name_eq, hnext, ?_, ?_, ?_, h.thereafter_eq, ?_⟩
  · rw [Position.behind_single, h.position_eq, Piece.chars_single, Position.afterAll_append]
    rfl
  · rw [h.reads_eq]
    simp
  · rw [h.items_eq]
    simp
  · have hne : passed ≠ σ.chars := fun heq => by simp [heq] at hlt
    exact h.warnings_eq.trans (if_neg hne)

/-- Advancing does not fail, and it passes the character that the cursor shows. -/
theorem Follows.advance (hquiet : σ.Quiet) (h : Follows σ name passed k) :
    ∃ k', Cursor.advance k = .ok k.current k' ∧
      Follows σ name (passed ++ charsOf k.current) k' := by
  cases hc : k.current with
  | none => exact ⟨k, by simp [Cursor.advance, hc], by simpa [charsOf] using h⟩
  | some x =>
      obtain ⟨k', hload, hk', -⟩ := (h.due hc).load hquiet
      exact ⟨k', by rw [advance_of_current hc, hload], hk'⟩

/-! ### Histories -/

theorem Follows.walk {before : List Char} (hquiet : σ.Quiet) (h : Follows σ name before k₀)
    (hwalk : Walk k₀ passed k) : Follows σ name (before ++ passed) k := by
  induction hwalk with
  | start => rwa [List.append_nil]
  | pass _ ha ih =>
      obtain ⟨k₁, hadv, hk₁⟩ := ih.advance hquiet
      rw [ha] at hadv
      cases hadv
      rwa [List.append_assoc] at hk₁
  | fail _ ha ih =>
      obtain ⟨k₁, hadv, -⟩ := ih.advance hquiet
      rw [ha] at hadv
      cases hadv
  | note _ he ih => exact ih.note he
  | close _ ih => exact ih.close

theorem exists_start (hquiet : σ.Quiet) (name : String) (owned : Bool) :
    ∃ k, start name σ owned = .ok k ∧ Follows σ name [] k ∧ k.closed = false := by
  have hdue : Due σ name [] { name := name, stream := σ, owned := owned } :=
    ⟨rfl, rfl, List.nil_prefix, rfl, rfl, rfl, rfl, rfl⟩
  obtain ⟨k, hload, hk⟩ := hdue.load hquiet
  exact ⟨k, by rw [start, hload], hk⟩

theorem Follows.ahead (hquiet : σ.Quiet) (h : Follows σ name passed k) (hopen : k.closed = false) :
    k.Ahead (σ.chars.drop passed.length) := by
  have hcurrent := h.current_eq
  rw [if_neg (by simp [hopen]), ← List.head?_drop] at hcurrent
  cases hrest : σ.chars.drop passed.length with
  | nil =>
      rw [hrest] at hcurrent
      exact hcurrent
  | cons c rest =>
      have hlt : passed.length + 1 ≤ σ.chars.length := by
        have := congrArg List.length hrest
        rw [List.length_drop, List.length_cons] at this
        omega
      obtain ⟨hchars, hfate⟩ := Stream.charsOf_drop σ.items hlt
      rw [hrest] at hcurrent
      refine ⟨hcurrent, hopen, ?_, ?_⟩
      · rw [Stream.chars, h.items_eq, hchars]
        show σ.chars.drop (passed.length + 1) = rest
        rw [← List.tail_drop, hrest, List.tail_cons]
      · intro f hf
        rw [Stream.fate, h.items_eq, h.thereafter_eq, hfate] at hf
        exact hquiet f hf

end Cursor

end KayLex
