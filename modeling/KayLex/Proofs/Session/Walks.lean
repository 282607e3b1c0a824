import KayLex.Proofs.Cursor.Walk
import KayLex.Proofs.Session.Consumers

/-!
What requests do to the cursor. Whatever is asked of a session, and whether it fails or
not, the cursor goes on with its history; only a request that puts a text of its own in
front of the cursor takes it out of it.
-/

namespace KayLex

open Cursor Reading KayLex.Action

/-! ### Scanners -/

namespace Scanner

variable {α : Type}

theorem left_onCursor (x : Reading α) (s : Scanner) :
    left (onCursor x s) = { s with cursor := left (x s.cursor) } := by
  rw [onCursor]
  cases x s.cursor <;> rfl

@[simp] theorem cursor_left_onCursor (x : Reading α) (s : Scanner) :
    (left (onCursor x s)).cursor = left (x s.cursor) := by
  rw [left_onCursor]

theorem left_finish (s : Scanner) :
    left (finish s) =
      { s with
        cursor := left (Cursor.close (s.cursor.note (.ended s.sentinel.location s.count)))
        finished := true } :=
  (left_bind_pure _ _ _).trans (left_onCursor _ _)

theorem reaches_finish (s : Scanner) : Reaches s.cursor (left (finish s)).cursor := by
  rw [left_finish]
  exact ((Reaches.refl _).note rfl).close

theorem reaches_answer (x : Found) (s : Scanner) : Reaches s.cursor (left (answer x s)).cursor := by
  show Reaches s.cursor (if _ then _ else _)
  split
  · exact (Reaches.refl _).note rfl
  · exact .refl _

theorem reaches_next (s : Scanner) : Reaches s.cursor (left (next s)).cursor := by
  have hfound := stepwise_found.reaches s.cursor
  rw [next_apply]
  split
  · exact .refl _
  · cases hf : found s.cursor with
    | error f k =>
        rw [hf] at hfound
        exact hfound
    | ok x k =>
        rw [hf] at hfound
        cases x with
        | some x => exact hfound.trans (reaches_answer x { s with cursor := k })
        | none => exact hfound.trans (reaches_finish { s with cursor := k })

theorem reaches_drainFrom (found : List Token) (s : Scanner) :
    Reaches s.cursor (drainFrom found s).scanner.cursor := by
  have hnext (s' : Scanner) (h : Reaches s.cursor s'.cursor) :
      Reaches s.cursor (left (next s')).cursor :=
    h.trans (reaches_next s')
  exact drainFrom_keeps hnext found (.refl _)

end Scanner

/-! ### Sessions -/

/-- Whether a request leaves the text ahead as it is. -/
def Request.leavesText : Request → Bool
  | replace _ => false
  | next | all | openFeed | pull _ | close | advance _ | accept _ => true

namespace Session

variable {α : Type} {r : Request} {rs : List Request}

@[simp] theorem scanner_left_onScanner (x : Scanning α) (s : Session) :
    (left (onScanner x s)).scanner = left (x s.scanner) := by
  rw [onScanner]
  cases x s.scanner <;> rfl

theorem scanner_left_pull (feed : Nat) (s : Session) :
    (left (pull feed s)).scanner =
      if s.isOpen feed then left (Scanner.next s.scanner) else s.scanner := by
  rw [pull]
  split
  · rw [← scanner_left_onScanner]
    cases onScanner Scanner.next s with
    | error f s' => rfl
    | ok t s' => cases ht : t.isEnd <;> simp [left, ht, exhaust]
  · rfl

theorem scanner_left_all (s : Session) : (left (all s)).scanner = s.scanner.drain.scanner := by
  rw [all]
  cases s.scanner.drain.all <;> rfl

theorem scanner_left_next (s : Session) :
    (left (serve .next s)).scanner = left (Scanner.next s.scanner) := by
  rw [serve, left_map, scanner_left_onScanner]

theorem scanner_left_close (s : Session) :
    (left (serve .close s)).scanner = left (Scanner.onCursor Cursor.close s.scanner) :=
  (congrArg Session.scanner (left_bind_pure _ _ _)).trans (scanner_left_onScanner _ _)

/-- A step: a request goes on with the history of the cursor. -/
theorem reaches_serve (hr : r.leavesText = true) (s : Session) :
    Reaches s.scanner.cursor (left (serve r s)).scanner.cursor := by
  have hpassing {β : Type} (f : β → Reply) {x : Reading β} (hx : Stepwise x) :
      Reaches s.scanner.cursor (left ((f <$> onCursor x) s)).scanner.cursor := by
    rw [left_map, onCursor, scanner_left_onScanner, Scanner.cursor_left_onCursor]
    exact hx.reaches _
  cases r with
  | next =>
      rw [scanner_left_next]
      exact Scanner.reaches_next _
  | all =>
      rw [serve, scanner_left_all]
      exact Scanner.reaches_drainFrom [] _
  | openFeed => exact .refl _
  | pull feed =>
      rw [serve, scanner_left_pull]
      split
      · exact Scanner.reaches_next _
      · exact .refl _
  | close =>
      rw [scanner_left_close, Scanner.cursor_left_onCursor]
      exact (Reaches.refl _).close
  | advance count => exact hpassing .chars (stepwise_advanceBy count [])
  | accept text => exact hpassing .flag (stepwise_acceptText text)
  | replace text => cases hr

def after (s : Session) (rs : List Request) : Scanner := (serveAll rs s).2.scanner

theorem after_cons (r : Request) (rs : List Request) (s : Session) :
    s.after (r :: rs) = (left (serve r s)).after rs := by
  rw [after, after, serveAll_cons]

theorem after_append (s : Session) (rs rs' : List Request) :
    s.after (rs ++ rs') = (serveAll rs s).2.after rs' := by
  rw [after, serveAll_append]
  rfl

/-- A run: so do any number of requests. -/
theorem reaches_after (hrs : ∀ r ∈ rs, r.leavesText = true) (s : Session) :
    Reaches s.scanner.cursor (s.after rs).cursor := by
  induction rs generalizing s with
  | nil => exact .refl _
  | cons r rs ih =>
      rw [after_cons]
      exact (reaches_serve (hrs r (List.mem_cons_self ..)) s).trans
        (ih (fun q hq => hrs q (List.mem_cons_of_mem r hq)) _)

theorem after_close (s : Session) (rs : List Request) :
    (s.after (rs ++ [.close])).cursor.closed = true ∧
      (s.after (rs ++ [.close])).cursor.position = (s.after rs).cursor.position := by
  have hclose : (s.after (rs ++ [.close])).cursor =
      left (Cursor.close (s.after rs).cursor) := by
    rw [after_append, after_cons]
    exact (congrArg Scanner.cursor (scanner_left_close _)).trans (Scanner.cursor_left_onCursor ..)
  rw [hclose]
  exact ⟨closed_left_close _, position_left_close _⟩

end Session

end KayLex
