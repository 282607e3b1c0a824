import KayLex.Proofs.Release

/-!
The end is absorbing. A cursor comes to its end when the stream is exhausted, when a read
fails in a way that counts as the end, when it is closed in the middle of a text, and when
the stream that it owns fails to close. It does not matter which of these it was, nor whether
the scanner has found out yet: from then on the cursor rests. It reads nothing and stays where
it is, there is nothing to pass, and the only token that is left is the sentinel of the place.

Only a caller who puts a text of his own in front of it sets the cursor going again.
-/

namespace KayLex

open Cursor Reading KayLex.Action

/-! ### Cursors -/

namespace Cursor

variable {k₀ k k' : Cursor} {passed : List Char}

theorem advance_of_end (hend : k.current = none) : advance k = .ok none k := by
  rw [advance, hend]

/-- The cursor is at its end, in the place where it was, and has not been read since. -/
structure Rests (k k' : Cursor) : Prop where
  current_eq : k'.current = none
  position_eq : k'.position = k.position
  name_eq : k'.name = k.name
  reads_eq : k'.stream.reads = k.stream.reads

theorem Rests.trans {k₁ : Cursor} (h : Rests k k₁) (h' : Rests k₁ k') : Rests k k' :=
  ⟨h'.current_eq, h'.position_eq.trans h.position_eq, h'.name_eq.trans h.name_eq,
    h'.reads_eq.trans h.reads_eq⟩

theorem rests_left_close (hend : k.current = none) : Rests k (left (close k)) := by
  have hreads : k.stream.close.2.reads = k.stream.reads := rfl
  unfold close
  split
  · exact ⟨hend, rfl, rfl, rfl⟩
  · dsimp only
    split
    · split <;> next hs => rw [hs] at hreads; exact ⟨rfl, rfl, rfl, hreads⟩
    · exact ⟨rfl, rfl, rfl, rfl⟩

/-- A step and a run in one: whatever becomes of a cursor at its end, it rests. -/
theorem Walk.rests (hend : k₀.current = none) (h : Walk k₀ passed k) : Rests k₀ k := by
  induction h with
  | start => exact ⟨hend, rfl, rfl, rfl⟩
  | pass _ ha ih =>
      rw [advance_of_end ih.current_eq] at ha
      cases ha
      exact ih
  | fail _ ha ih =>
      rw [advance_of_end ih.current_eq] at ha
      cases ha
  | note _ _ ih => exact ⟨ih.current_eq, ih.position_eq, ih.name_eq, ih.reads_eq⟩
  | close _ ih => exact ih.trans (rests_left_close ih.current_eq)

theorem current_left_close (hopen : k.closed = false) : (left (close k)).current = none := by
  unfold close
  rw [if_neg (by simp [hopen])]
  dsimp only
  repeat' split
  all_goals rfl

theorem Walk.current_of_closed (hopen : k₀.closed = false) (h : Walk k₀ passed k)
    (hclosed : k.closed = true) : k.current = none := by
  -- Passing opens nothing, so what is closed behind it has been at its end before.
  have hstays {k : Cursor} (ih : k.closed = true → k.current = none)
      (hleft : (left (advance k)).closed = true) : advance k = .ok none k :=
    advance_of_end (ih ((closed_left_advance k).symm.trans hleft))
  induction h with
  | start =>
      rw [hopen] at hclosed
      cases hclosed
  | pass _ ha ih =>
      have hadvance := hstays ih (by rw [ha]; exact hclosed)
      rw [ha] at hadvance
      cases hadvance
      exact ih hclosed
  | fail _ ha ih =>
      have hadvance := hstays ih (by rw [ha]; exact hclosed)
      rw [ha] at hadvance
      cases hadvance
  | note _ _ ih => exact ih hclosed
  | @close _ k _ ih =>
      cases hk : k.closed with
      | false => exact current_left_close hk
      | true =>
          rw [left_close_of_closed hk]
          exact ih hk

theorem advanceBy_of_end (hend : k.current = none) (n : Nat) (passed : List Char) :
    advanceBy n passed k = .ok passed.reverse k := by
  induction n generalizing passed with
  | zero => rfl
  | succ n ih =>
      rw [advanceBy, Action.bind_apply, advance_of_end hend]
      exact ih passed

theorem acceptText_of_end (hend : k.current = none) (text : List Char) :
    acceptText text k = .ok false k := by
  rw [acceptText]
  cases Piece.ofChars? text with
  | none => rfl
  | some x =>
      dsimp only
      rw [accept, if_neg (by simp [hend])]

theorem found_of_end (hend : k.current = none) : found k = .ok none k := by
  have hblanks : passWhile Text.isBlank [] k = .ok [] k := passWhile_stop (by simp [hend])
  have hgap : passGap k = .ok none k := passGap_end hblanks (by simp [hend])
  exact Action.bind_ok.mpr ⟨none, k, hgap, Action.bind_ok.mpr ⟨k, k, rfl,
    Action.bind_ok.mpr ⟨none, k, advance_of_end hend, rfl⟩⟩⟩

end Cursor

/-! ### Scanners -/

namespace Scanner

variable {s s' : Scanner} {t : Token} {ts : List Token}

theorem count_left_onCursor {α : Type} (x : Reading α) (s : Scanner) :
    (left (onCursor x s)).count = s.count := by
  rw [left_onCursor]

theorem count_left_finish (s : Scanner) : (left (finish s)).count = s.count := by
  rw [left_finish]

theorem next_of_end (hend : s.cursor.current = none) :
    next s = if s.finished then .ok s.sentinel s else finish s := by
  rw [next_apply, found_of_end hend]

theorem count_left_next (hend : s.cursor.current = none) : (left (next s)).count = s.count := by
  rw [next_of_end hend]
  split
  · rfl
  · exact count_left_finish s

theorem eq_sentinel_of_next (hend : s.cursor.current = none) (h : next s = .ok t s') :
    t = s.sentinel := by
  rw [next_of_end hend] at h
  split at h
  · cases h
    rfl
  · exact eq_sentinel_of_finish h

theorem scanner_drain_of_end (hend : s.cursor.current = none) :
    s.drain.scanner = left (next s) := by
  cases hnext : next s with
  | error f s' =>
      rw [drain, drainFrom_of_error hnext]
      rfl
  | ok t s' =>
      obtain rfl := eq_sentinel_of_next hend hnext
      rw [drain, drainFrom_of_end hnext (Token.isEnd_sentinel ..)]
      rfl

theorem eq_sentinel_of_drain (hend : s.cursor.current = none) (h : s.drain.all = .ok ts) :
    ts = [s.sentinel] := by
  cases hnext : next s with
  | error f s' =>
      rw [drain, drainFrom_of_error hnext] at h
      cases h
  | ok t s' =>
      obtain rfl := eq_sentinel_of_next hend hnext
      rw [drain, drainFrom_of_end hnext (Token.isEnd_sentinel ..)] at h
      cases h
      rfl

end Scanner

/-! ### Sessions -/

namespace Session

variable {σ : Stream} {name : String} {owned : Bool} {s : Session} {r : Request}
  {rs : List Request}

theorem count_left_onScannerCursor {α : Type} (x : Reading α) (s : Session) :
    (left (onCursor x s)).scanner.count = s.scanner.count := by
  rw [onCursor, scanner_left_onScanner]
  exact Scanner.count_left_onCursor x _

/-- A step: at the end no request is counted. -/
theorem count_left_serve (hr : r.leavesText = true) (hend : s.scanner.cursor.current = none) :
    (left (serve r s)).scanner.count = s.scanner.count := by
  cases r with
  | next =>
      rw [scanner_left_next]
      exact Scanner.count_left_next hend
  | all =>
      rw [serve, scanner_left_all, Scanner.scanner_drain_of_end hend]
      exact Scanner.count_left_next hend
  | openFeed => rfl
  | pull feed =>
      rw [serve, scanner_left_pull]
      split
      · exact Scanner.count_left_next hend
      · rfl
  | close =>
      rw [scanner_left_close]
      exact Scanner.count_left_onCursor _ _
  | advance n =>
      rw [serve, left_map]
      exact count_left_onScannerCursor _ _
  | accept text =>
      rw [serve, left_map]
      exact count_left_onScannerCursor _ _
  | replace text => cases hr

/-- A run: nor are any number of them. -/
theorem count_after (hrs : ∀ r ∈ rs, r.leavesText = true)
    (hend : s.scanner.cursor.current = none) : (s.after rs).count = s.scanner.count := by
  induction rs generalizing s with
  | nil => rfl
  | cons r rs ih =>
      have hr := hrs r (List.mem_cons_self ..)
      have hrest := fun q hq => hrs q (List.mem_cons_of_mem r hq)
      obtain ⟨passed, hwalk⟩ := reaches_serve hr s
      rw [after_cons, ih hrest (hwalk.rests hend).current_eq, count_left_serve hr hend]

theorem serve_advance_of_end (hend : s.scanner.cursor.current = none) (n : Nat) :
    serve (.advance n) s = .ok (.chars []) s :=
  map_ok.mpr ⟨[], onScanner_ok.mpr ⟨s.scanner,
    Scanner.onCursor_ok.mpr ⟨_, advanceBy_of_end hend n [], rfl⟩, rfl⟩, rfl⟩

theorem serve_accept_of_end (hend : s.scanner.cursor.current = none) (text : List Char) :
    serve (.accept text) s = .ok (.flag false) s :=
  map_ok.mpr ⟨false, onScanner_ok.mpr ⟨s.scanner,
    Scanner.onCursor_ok.mpr ⟨_, acceptText_of_end hend text, rfl⟩, rfl⟩, rfl⟩

theorem eq_sentinel_of_delivered (hr : r.leavesText = true)
    (hend : s.scanner.cursor.current = none) {reply : Reply} {s' : Session}
    (h : serve r s = .ok reply s') {t : Token} (ht : t ∈ reply.delivered) :
    t = s.scanner.sentinel := by
  cases r with
  | next =>
      obtain ⟨u, hnext, rfl⟩ := map_ok.mp h
      obtain ⟨scanner, hnext, -⟩ := onScanner_ok.mp hnext
      rw [List.mem_singleton.mp ht]
      exact Scanner.eq_sentinel_of_next hend hnext
  | all =>
      rw [serve, all] at h
      split at h
      · next ts hall =>
        cases h
        rw [Reply.delivered, Scanner.eq_sentinel_of_drain hend hall] at ht
        exact List.mem_singleton.mp ht
      · cases h
  | openFeed =>
      cases h
      cases ht
  | pull feed =>
      rw [serve, pull] at h
      split at h
      · split at h
        · next u s₁ hnext =>
          obtain ⟨scanner, hnext, -⟩ := onScanner_ok.mp hnext
          cases h
          rw [List.mem_singleton.mp ht]
          exact Scanner.eq_sentinel_of_next hend hnext
        · cases h
      · cases h
        cases ht
  | close =>
      obtain ⟨_, _, -, hpure⟩ := Action.bind_ok.mp h
      cases hpure
      cases ht
  | advance n =>
      rw [serve_advance_of_end hend] at h
      cases h
      cases ht
  | accept text =>
      rw [serve_accept_of_end hend] at h
      cases h
      cases ht
  | replace text => cases hr

/-- The end is absorbing. Once the cursor over a stream shows the end or has been closed, it
shows the end for good: no request reads the stream, moves the cursor or is counted, nothing
is passed, and every token that is answered is the sentinel of the place where it ended. -/
theorem end_absorbs (h : Scanner.ofStream σ name owned = .ok s.scanner) (rs rs' : List Request)
    (hrs : ∀ r ∈ rs, r.leavesText = true) (hrs' : ∀ r ∈ rs', r.leavesText = true)
    (hend : (s.after rs).cursor.current = none ∨ (s.after rs).cursor.closed = true) :
    (s.after rs).cursor.current = none ∧
      (s.after (rs ++ rs')).cursor.current = none ∧
      (s.after (rs ++ rs')).cursor.position = (s.after rs).cursor.position ∧
      (s.after (rs ++ rs')).cursor.stream.reads = (s.after rs).cursor.stream.reads ∧
      (s.after (rs ++ rs')).count = (s.after rs).count ∧
      (∀ n, serve (.advance n) (serveAll (rs ++ rs') s).2 =
        .ok (.chars []) (serveAll (rs ++ rs') s).2) ∧
      (∀ text, serve (.accept text) (serveAll (rs ++ rs') s).2 =
        .ok (.flag false) (serveAll (rs ++ rs') s).2) ∧
      ∀ r reply s', r.leavesText = true → serve r (serveAll (rs ++ rs') s).2 = .ok reply s' →
        ∀ t ∈ reply.delivered, t = .sentinel name (s.after rs).cursor.position := by
  obtain ⟨k₀, hstart, hs⟩ := exists_start_of_ofStream h
  obtain ⟨hname, -, hopen, -⟩ := start_keeps hstart
  have hfirst : s.scanner.cursor = k₀ := congrArg Scanner.cursor hs
  obtain ⟨passed, hwalk⟩ := reaches_after hrs s
  have hnow : (s.after rs).cursor.current = none := by
    rcases hend with hcurrent | hclosed
    · exact hcurrent
    · exact hwalk.current_of_closed (hfirst ▸ hopen) hclosed
  obtain ⟨passed', hwalk'⟩ := reaches_after hrs' (serveAll rs s).2
  have hrests := hwalk'.rests hnow
  have hsentinel : (s.after (rs ++ rs')).sentinel =
      .sentinel name (s.after rs).cursor.position := by
    rw [Scanner.sentinel, after_append, hrests.position_eq, hrests.name_eq]
    exact congrArg (Token.sentinel · _) ((hwalk.handled.keeps.1.trans (hfirst ▸ rfl)).trans hname)
  have hlater : (s.after (rs ++ rs')).cursor.current = none := by
    rw [after_append]
    exact hrests.current_eq
  refine ⟨hnow, hlater, ?_, ?_, ?_, serve_advance_of_end hlater, serve_accept_of_end hlater, ?_⟩
  · rw [after_append]
    exact hrests.position_eq
  · rw [after_append]
    exact hrests.reads_eq
  · rw [after_append]
    exact count_after hrs' hnow
  · intro r reply s' hr hserve t ht
    rw [← hsentinel]
    exact eq_sentinel_of_delivered hr hlater hserve ht

/-- A file ends, and then it fails to close for the scanner that has found the end. -/
theorem end_absorbs_failing :
    ∃ s, Scanner.ofStream failingFile "file" true = .ok s ∧
      (after { scanner := s } [.advance 1]).cursor.current = none ∧
      (serveAll [.advance 1, .next, .next, .accept ['a']] { scanner := s }).1 =
        [.ok (.chars ['a']), .error (.device "flush failed"),
          .ok (.token (.sentinel "file" ⟨1, 2, 1⟩)), .ok (.flag false)] ∧
      (after { scanner := s } ([.advance 1] ++ [.next, .next])).cursor.stream.reads = 2 ∧
      serve (.accept ['a']) (serveAll ([.advance 1] ++ [.next, .next]) { scanner := s }).2 =
        .ok (.flag false) (serveAll ([.advance 1] ++ [.next, .next]) { scanner := s }).2 := by
  obtain ⟨s, hs⟩ : ∃ s, Scanner.ofStream failingFile "file" true = .ok s := ⟨_, rfl⟩
  have hcurrent : (after { scanner := s } [.advance 1]).cursor.current = none := by
    cases hs
    rfl
  obtain ⟨-, -, -, hreads, -, -, haccept, -⟩ :=
    end_absorbs (s := { scanner := s }) hs [.advance 1] [.next, .next] (by decide) (by decide)
      (.inl hcurrent)
  refine ⟨s, hs, hcurrent, ?_, hreads.trans ?_, haccept ['a']⟩
  · cases hs
    decide +kernel
  · cases hs
    rfl

end Session

end KayLex
