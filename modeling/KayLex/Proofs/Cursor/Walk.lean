import KayLex.Proofs.Cursor.Steps

/-!
What becomes of a cursor, whoever uses it. It is advanced, something is put on record
about it, and it is closed; nothing else happens to it as long as nobody puts a text of
his own in front. `Walk` is the history of a cursor along such steps, with the characters
that it has passed, in the order in which `advance` has answered them. What every step
keeps holds of a cursor at any time.
-/

namespace KayLex

namespace Cursor

open KayLex.Action

variable {α : Type} {k₀ k k' : Cursor} {passed : List Char} {r : Outcome α}

/-! ### Closing -/

theorem closed_left_close (k : Cursor) : (left (close k)).closed = true := by
  unfold close
  split
  · assumption
  · dsimp only
    repeat' split
    all_goals rfl

theorem position_left_close (k : Cursor) : (left (close k)).position = k.position := by
  unfold close
  split
  · rfl
  · dsimp only
    repeat' split
    all_goals rfl

/-! ### Histories -/

/-- A history of the cursor `k₀`, which has passed some characters and has become `k`. -/
inductive Walk (k₀ : Cursor) : (passed : List Char) → (k : Cursor) → Prop where
  | start : Walk k₀ [] k₀
  | pass {passed : List Char} {k k' : Cursor} {a : Option Piece} (h : Walk k₀ passed k)
      (ha : advance k = .ok a k') : Walk k₀ (passed ++ charsOf a) k'
  | fail {passed : List Char} {k k' : Cursor} {f : Failure} (h : Walk k₀ passed k)
      (ha : advance k = .error f k') : Walk k₀ passed k'
  | note {passed : List Char} {k : Cursor} {e : Event} (h : Walk k₀ passed k)
      (he : e.level = .debug) : Walk k₀ passed (note e k)
  | close {passed : List Char} {k : Cursor} (h : Walk k₀ passed k) :
      Walk k₀ passed (left (close k))

theorem Walk.trans {before : List Char} (h : Walk k₀ before k) (h' : Walk k passed k') :
    Walk k₀ (before ++ passed) k' := by
  induction h' with
  | start => rwa [List.append_nil]
  | pass _ ha ih =>
      rw [← List.append_assoc]
      exact ih.pass ha
  | fail _ ha ih => exact ih.fail ha
  | note _ he ih => exact ih.note he
  | close _ ih => exact ih.close

/-- Some history leads from one cursor to the other. -/
def Reaches (k k' : Cursor) : Prop := ∃ passed, Walk k passed k'

theorem Reaches.refl (k : Cursor) : Reaches k k := ⟨[], .start⟩

theorem Reaches.trans {k₁ k₂ k₃ : Cursor} (h : Reaches k₁ k₂) (h' : Reaches k₂ k₃) :
    Reaches k₁ k₃ := by
  obtain ⟨before, h⟩ := h
  obtain ⟨passed, h'⟩ := h'
  exact ⟨before ++ passed, h.trans h'⟩

theorem Reaches.note (h : Reaches k k') {e : Event} (he : e.level = .debug) :
    Reaches k (note e k') := by
  obtain ⟨passed, h⟩ := h
  exact ⟨passed, h.note he⟩

theorem Reaches.close (h : Reaches k k') : Reaches k (left (Cursor.close k')) := by
  obtain ⟨passed, h⟩ := h
  exact ⟨passed, h.close⟩

theorem Steps.reaches (h : Steps k k') : Reaches k k' := by
  induction h with
  | refl => exact .refl k
  | tail _ hstep ih =>
      obtain ⟨a, ha⟩ := hstep
      obtain ⟨passed, ih⟩ := ih
      exact ⟨passed ++ charsOf a, ih.pass ha⟩

theorem Leads.reaches (h : Leads k r) : Reaches k (left r) := by
  cases r with
  | ok b k' => exact Steps.reaches h
  | error f k' =>
      obtain ⟨k₁, hsteps, ha⟩ := h
      obtain ⟨passed, h⟩ := Steps.reaches hsteps
      exact ⟨passed, h.fail ha⟩

theorem Walk.of_closed (hclosed : k₀.closed = true) (hcurrent : k₀.current = none)
    (h : Walk k₀ passed k) : k = { k₀ with journal := k.journal } := by
  have hend {k : Cursor} (hk : k = { k₀ with journal := k.journal }) :
      advance k = .ok none k ∧ left (Cursor.close k) = k := by
    have hnone : k.current = none := by
      rw [hk]
      exact hcurrent
    have hshut : k.closed = true := by
      rw [hk]
      exact hclosed
    exact ⟨by simp [advance, hnone], by simp [Cursor.close, hshut, left]⟩
  induction h with
  | start => rfl
  | pass _ ha ih =>
      rw [(hend ih).1] at ha
      cases ha
      exact ih
  | fail _ ha ih =>
      rw [(hend ih).1] at ha
      cases ha
  | note _ _ ih =>
      conv => lhs; rw [ih]
      rfl
  | close _ ih =>
      rw [(hend ih).2]
      exact ih

end Cursor

namespace Reading

open Cursor KayLex.Action

theorem Stepwise.reaches {α : Type} {x : Reading α} (hx : Stepwise x) (k : Cursor) :
    Reaches k (left (x k)) := (hx k).reaches

theorem stepwise_advanceBy (n : Nat) (passed : List Char) : Stepwise (advanceBy n passed) := by
  induction n generalizing passed with
  | zero => exact stepwise_pure _
  | succ n ih => exact stepwise_advance.bind fun _ => ih _

theorem stepwise_acceptText (text : List Char) : Stepwise (acceptText text) := by
  unfold acceptText
  split
  · exact stepwise_accept _
  · exact stepwise_pure _

end Reading

end KayLex
