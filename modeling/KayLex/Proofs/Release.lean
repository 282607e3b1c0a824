import KayLex.Proofs.Cursor.Handling
import KayLex.Proofs.Session.Walks

/-!
Who closes the stream, and when. A session reaches its cursor in many ways: the scanner
closes it when it has found the end, consumers and owners close it, some of them again and
again, some with another text put in front of it in between, and the stream may fail at any
of that. All of this is handling a cursor, so an owned stream is closed once and a borrowed
one never, and whoever has closed a cursor can rely on it that its stream is left alone.
-/

namespace KayLex

open Cursor KayLex.Action

namespace Session

variable {σ : Stream} {name : String} {owned : Bool} {s : Scanner}

/-- A step: a request handles the cursor. -/
theorem handled_serve (r : Request) (s : Session) :
    Handled s.scanner.cursor (left (serve r s)).scanner.cursor := by
  cases hr : r.leavesText with
  | true => exact (reaches_serve hr s).handled
  | false =>
      cases r with
      | replace text => exact .single (.replace text _)
      | next | all | openFeed | pull | close | advance | accept => cases hr

/-- A run: so do any number of requests. -/
theorem handled_after (rs : List Request) (s : Session) :
    Handled s.scanner.cursor (s.after rs).cursor := by
  induction rs generalizing s with
  | nil => exact .refl
  | cons r rs ih =>
      rw [after_cons]
      exact (handled_serve r s).trans (ih _)

theorem after_append_keeps {s : Session} {rs : List Request}
    (hclosed : (s.after rs).cursor.closed = true) (rs' : List Request) :
    (s.after (rs ++ rs')).cursor.closed = true ∧
      (s.after (rs ++ rs')).cursor.stream = (s.after rs).cursor.stream := by
  rw [after_append]
  exact (handled_after rs' _).of_closed hclosed

theorem closed_of_close_mem {s : Session} {rs : List Request} (h : .close ∈ rs) :
    (s.after rs).cursor.closed = true := by
  obtain ⟨before, behind, rfl⟩ := List.append_of_mem h
  rw [← List.singleton_append, ← List.append_assoc]
  exact (after_append_keeps (after_close s before).1 behind).1

theorem exists_start_of_ofStream (h : Scanner.ofStream σ name owned = .ok s) :
    ∃ k, Cursor.start name σ owned = .ok k ∧ s = ⟨k, false, 0⟩ := by
  rw [Scanner.ofStream] at h
  cases hk : Cursor.start name σ owned with
  | ok k =>
      rw [hk] at h
      cases h
      exact ⟨k, rfl, rfl⟩
  | error f =>
      rw [hk] at h
      cases h

/-- The stream is released once. Whatever is asked of the scanner of a stream, in whatever
order and with whatever failures, the stream has been closed once if the cursor owns it and
has been closed, and else never. Somebody who closes the cursor has it closed, also if the
stream fails to close, and since the moment of closing the stream is left alone. -/
theorem stream_released_once (h : Scanner.ofStream σ name owned = .ok s) (rs : List Request) :
    (after { scanner := s } rs).cursor.stream.closes =
        σ.closes + (if owned ∧ (after { scanner := s } rs).cursor.closed then 1 else 0) ∧
      (.close ∈ rs → (after { scanner := s } rs).cursor.closed = true) ∧
      ((after { scanner := s } rs).cursor.closed = true →
        (∃ k, ClosedAt s.cursor k (after { scanner := s } rs).cursor) ∧
        ∀ rs', (after { scanner := s } (rs ++ rs')).cursor.closed = true ∧
          (after { scanner := s } (rs ++ rs')).cursor.stream =
            (after { scanner := s } rs).cursor.stream) := by
  obtain ⟨k₀, hstart, rfl⟩ := exists_start_of_ofStream h
  obtain ⟨-, howned, hopen, hcloses⟩ := start_keeps hstart
  have hhandled := handled_after rs { scanner := ⟨k₀, false, 0⟩ }
  refine ⟨?_, closed_of_close_mem, fun hclosed => ⟨?_, after_append_keeps hclosed⟩⟩
  · rw [hhandled.closes_eq hopen, howned, hcloses]
  · rcases hhandled.cases_open hopen with ⟨hstill, -⟩ | ⟨-, k, hat, -⟩
    · rw [hclosed] at hstill
      cases hstill
    · exact ⟨k, hat⟩

def failingFile : Stream := { items := [.char 'a'], closing := some (.device "flush failed") }

/-- The file is closed twice by its owner, with text put in front of it in between. -/
theorem stream_released_once_failing :
    ∃ s, Scanner.ofStream failingFile "file" true = .ok s ∧
      (serveAll [.close, .replace ['b'], .next, .close] { scanner := s }).1 =
        [.error (.device "flush failed"), .ok .nothing,
          .ok (.token ⟨.identifier, "b", 1, 1, 0, "file"⟩), .ok .nothing] ∧
      (after { scanner := s } [.close, .replace ['b'], .next, .close]).cursor.stream.closes = 1 ∧
      (after { scanner := s } [.close, .replace ['b'], .next, .close]).cursor.stream.reads = 1 := by
  obtain ⟨s, hs⟩ : ∃ s, Scanner.ofStream failingFile "file" true = .ok s := ⟨_, rfl⟩
  obtain ⟨hcloses, hclose, -⟩ :=
    stream_released_once hs [.close, .replace ['b'], .next, .close]
  obtain ⟨-, hclose₁, hclosed₁⟩ := stream_released_once hs [.close]
  have hstream := ((hclosed₁ (hclose₁ (by decide))).2 [.replace ['b'], .next, .close]).2
  rw [hclose (by decide)] at hcloses
  refine ⟨s, hs, ?_, hcloses, ?_⟩
  · cases hs
    decide +kernel
  · rw [List.singleton_append] at hstream
    rw [hstream]
    cases hs
    rfl

end Session

end KayLex
