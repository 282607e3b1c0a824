import KayLex.Proofs.Counting
import KayLex.Proofs.Cursor.Lookahead

/-!
What the record of a scan says. Events are put on record in five places, some before what they
tell of has happened and some behind it, and a failure may come in between. Still the record
accounts for the scan: it has the malformed tokens in the order in which calls have answered
them, the end once the scanner is finished, with a count and a place that nothing changes any
more, the closing of a stream that could be closed, and one failed read at most, since a read
that fails in a way that counts as the end is the last one.
-/

namespace KayLex

open Cursor Reading KayLex.Action

/-! ### Events -/

namespace Event

def isMalformed : Event → Bool
  | malformed _ => true
  | _ => false

def isEnded : Event → Bool
  | ended .. => true
  | _ => false

def isClosed : Event → Bool
  | closed _ => true
  | _ => false

end Event

/-! ### Cursors -/

namespace Cursor

variable {α : Type} {σ : Stream} {name : String} {owned : Bool} {k k₀ : Cursor}
  {passed : List Char} {p : Event → Bool} {e : Event} {r : Outcome α}

theorem Leads.keeps {P : Cursor → Prop} (hadvance : ∀ k, P k → P (left (advance k)))
    (hk : P k) (h : Leads k r) : P (left r) := by
  have hsteps {k₁ : Cursor} (h : Steps k k₁) : P k₁ := by
    induction h with
    | refl => exact hk
    | tail _ hstep ih =>
        obtain ⟨a, ha⟩ := hstep
        have hnext := hadvance _ ih
        rwa [ha] at hnext
  cases r with
  | ok b k' => exact hsteps h
  | error f k' =>
      obtain ⟨k₁, hk₁, ha⟩ := h
      have hnext := hadvance _ (hsteps hk₁)
      rwa [ha] at hnext

/-- The events of a sort that are on record, the earliest first. -/
def noted (p : Event → Bool) (k : Cursor) : List Event := (k.journal.filter p).reverse

theorem noted_note (he : p e = true) (k : Cursor) : (note e k).noted p = k.noted p ++ [e] := by
  simp [noted, note, he]

theorem noted_note_of_not (he : p e = false) (k : Cursor) : (note e k).noted p = k.noted p := by
  simp [noted, note, he]

theorem journal_left_load (k : Cursor) :
    (left (load k)).journal = k.journal ∨
      (left (load k)).current = none ∧
        ∃ f, (left (load k)).journal = .readFailed k.name k.position f :: k.journal := by
  unfold load
  split
  · exact .inl rfl
  · split
    · exact .inl rfl
    · next f stream hr =>
      split
      · exact .inr ⟨rfl, f, rfl⟩
      · exact .inl rfl

theorem noted_left_advance (hp : ∀ name place f, p (.readFailed name place f) = false)
    (k : Cursor) : (left (advance k)).noted p = k.noted p := by
  rcases left_advance_cases k with hstay | ⟨x, hload⟩
  · rw [hstay]
  · rw [hload, noted]
    rcases journal_left_load { k with position := k.position.behind x } with
      hjournal | ⟨-, f, hjournal⟩
    · rw [hjournal]
      rfl
    · rw [hjournal, List.filter_cons_of_neg (by simp [hp])]
      rfl

/-! #### Warnings -/

/-- There is no warning, or there is one and the cursor is at its end. -/
def WarnedOnce (k : Cursor) : Prop :=
  k.warnings = [] ∨ k.current = none ∧ ∃ e, k.warnings = [e]

theorem warnedOnce_left_load (h : k.warnings = []) : (left (load k)).WarnedOnce := by
  have hfilter : k.journal.filter (·.level = .warning) = [] := h
  rcases journal_left_load k with hjournal | ⟨hcurrent, f, hjournal⟩
  · refine .inl ?_
    rw [warnings, hjournal, hfilter]
  · refine .inr ⟨hcurrent, .readFailed k.name k.position f, ?_⟩
    rw [warnings, hjournal, List.filter_cons_of_pos (by rfl), hfilter]

theorem WarnedOnce.advance (h : k.WarnedOnce) : (left (advance k)).WarnedOnce := by
  rcases h with hnone | ⟨hend, hone⟩
  · rcases left_advance_cases k with hstay | ⟨x, hload⟩
    · rw [hstay]
      exact .inl hnone
    · rw [hload]
      exact warnedOnce_left_load (k := { k with position := k.position.behind x }) hnone
  · rw [advance_of_end hend]
    exact .inr ⟨hend, hone⟩

theorem WarnedOnce.close (h : k.WarnedOnce) : (left (Cursor.close k)).WarnedOnce := by
  have hwarnings : (left (Cursor.close k)).warnings = k.warnings := by
    unfold Cursor.close
    split
    · rfl
    · dsimp only
      repeat' split
      all_goals simp [left, warnings, note, Event.level]
  rcases h with hnone | ⟨hend, e, hone⟩
  · exact .inl (hwarnings.trans hnone)
  · exact .inr ⟨(rests_left_close hend).current_eq, e, hwarnings.trans hone⟩

/-- A run: along its history a cursor warns once at most, and then it is at its end. -/
theorem Walk.warnedOnce (hk₀ : k₀.WarnedOnce) (h : Walk k₀ passed k) : k.WarnedOnce := by
  induction h with
  | start => exact hk₀
  | pass _ ha ih =>
      have hnext := ih.advance
      rwa [ha] at hnext
  | fail _ ha ih =>
      have hnext := ih.advance
      rwa [ha] at hnext
  | note _ he ih =>
      rw [WarnedOnce, warnings_note he]
      exact ih
  | close _ ih => exact ih.close

/-! #### Closings -/

/-- The cursor over the stream `σ` has put on record that it has closed the stream, if it has
and that has not failed. -/
structure Signed (σ : Stream) (name : String) (owned : Bool) (k : Cursor) : Prop where
  name_eq : k.name = name
  owned_eq : k.owned = owned
  closing_eq : k.stream.closing = σ.closing
  noted_eq : k.noted Event.isClosed =
    if k.closed ∧ owned ∧ σ.closing = none then [.closed name] else []

theorem Signed.note (he : e.isClosed = false) (h : k.Signed σ name owned) :
    (note e k).Signed σ name owned :=
  ⟨h.name_eq, h.owned_eq, h.closing_eq, (noted_note_of_not he k).trans h.noted_eq⟩

theorem closing_left_load (k : Cursor) :
    (left (load k)).stream.closing = k.stream.closing := by
  have hclosing := Stream.closing_read k.stream
  unfold load
  split
  · rfl
  · split
    · next hr =>
      rw [hr] at hclosing
      exact hclosing
    · next hr =>
      rw [hr] at hclosing
      split <;> exact hclosing

theorem Signed.advance (h : k.Signed σ name owned) :
    (left (advance k)).Signed σ name owned := by
  have hnoted := noted_left_advance (p := Event.isClosed) (fun _ _ _ => rfl) k
  have hkeeps : (left (Cursor.advance k)).name = k.name ∧
      (left (Cursor.advance k)).owned = k.owned ∧
      (left (Cursor.advance k)).stream.closing = k.stream.closing := by
    rcases left_advance_cases k with hstay | ⟨x, hload⟩
    · rw [hstay]
      exact ⟨rfl, rfl, rfl⟩
    · obtain ⟨hname, howned, -⟩ := left_load_keeps { k with position := k.position.behind x }
      rw [hload]
      exact ⟨hname, howned, closing_left_load _⟩
  obtain ⟨hname, howned, hclosing⟩ := hkeeps
  refine ⟨hname.trans h.name_eq, howned.trans h.owned_eq, hclosing.trans h.closing_eq, ?_⟩
  rw [hnoted, closed_left_advance]
  exact h.noted_eq

theorem left_close_of_open (hopen : k.closed = false) :
    left (Cursor.close k) =
      let k' := { k with
        closed := true, current := none
        stream := if k.owned then k.stream.close.2 else k.stream }
      if k.owned ∧ k.stream.closing = none then Cursor.note (.closed k.name) k' else k' := by
  rw [Cursor.close, if_neg (by simp [hopen])]
  cases howned : k.owned with
  | false => simp [left]
  | true => cases hclosing : k.stream.closing <;> simp [left, Stream.close, hclosing]

theorem Signed.close (h : k.Signed σ name owned) :
    (left (Cursor.close k)).Signed σ name owned := by
  cases hclosed : k.closed with
  | true => rwa [left_close_of_closed hclosed]
  | false =>
      have hnone : k.noted Event.isClosed = [] := by
        rw [h.noted_eq, if_neg (by simp [hclosed])]
      obtain ⟨hname, howned⟩ := left_close_keeps k
      refine ⟨hname.trans h.name_eq, howned.trans h.owned_eq, ?_, ?_⟩
      · rw [stream_left_close hclosed, ← h.closing_eq]
        split <;> rfl
      · rw [closed_left_close, left_close_of_open hclosed, h.owned_eq, h.closing_eq]
        simp only [true_and]
        split
        · rw [noted_note rfl, h.name_eq]
          exact congrArg (· ++ _) hnone
        · exact hnone

theorem journal_of_start (h : start name σ owned = .ok k) :
    k.journal = [] ∨ k.current = none ∧ ∃ f, k.journal = [.readFailed name {} f] := by
  have hjournal := journal_left_load { name, stream := σ, owned }
  unfold start at h
  split at h
  · next hload =>
    cases h
    rwa [hload] at hjournal
  · cases h

theorem noted_of_start (hp : ∀ name place f, p (.readFailed name place f) = false)
    (h : start name σ owned = .ok k) : k.noted p = [] := by
  rcases journal_of_start h with hnone | ⟨-, f, hfailed⟩
  · rw [noted, hnone]
    rfl
  · rw [noted, hfailed, List.filter_cons_of_neg (by simp [hp])]
    rfl

theorem warnedOnce_of_start (h : start name σ owned = .ok k) : k.WarnedOnce := by
  rcases journal_of_start h with hnone | ⟨hcurrent, f, hfailed⟩
  · refine .inl ?_
    rw [warnings, hnone]
    rfl
  · refine .inr ⟨hcurrent, .readFailed name {} f, ?_⟩
    rw [warnings, hfailed]
    rfl

theorem signed_of_start (h : start name σ owned = .ok k) : k.Signed σ name owned := by
  obtain ⟨hname, howned, hopen, -⟩ := start_keeps h
  refine ⟨hname, howned, (frame_of_start h).closing_eq, ?_⟩
  rw [noted_of_start (fun _ _ _ => rfl) h, if_neg (by simp [hopen])]

end Cursor

/-! ### Scanners -/

def tokensOf (calls : List (Except Failure Token)) : List Token := calls.filterMap (·.toOption)

@[simp] theorem tokensOf_append (calls later : List (Except Failure Token)) :
    tokensOf (calls ++ later) = tokensOf calls ++ tokensOf later := List.filterMap_append

@[simp] theorem tokensOf_ok (t : Token) : tokensOf [.ok t] = [t] := rfl

@[simp] theorem tokensOf_error (f : Failure) : tokensOf [.error f] = [] := rfl

namespace Scanner

variable {α : Type} {σ : Stream} {name : String} {owned : Bool}
  {calls : List (Except Failure Token)} {s : Scanner} {r : Cursor.Outcome α}

/-- The record accounts for what has become of the scanner of a stream, and for all calls that
have been made. -/
structure Booked (σ : Stream) (name : String) (owned : Bool) (calls : List (Except Failure Token))
    (s : Scanner) : Prop where
  signed : s.cursor.Signed σ name owned
  malformed : s.cursor.noted Event.isMalformed =
    ((tokensOf calls).filter (·.isError)).map .malformed
  ended : s.cursor.noted Event.isEnded =
    if s.finished then [.ended s.sentinel.location s.count] else []
  resting : s.finished = true → s.cursor.current = none

theorem Booked.of_start {k : Cursor} (h : start name σ owned = .ok k) :
    Booked σ name owned [] ⟨k, false, 0⟩ :=
  ⟨signed_of_start h, noted_of_start (fun _ _ _ => rfl) h, noted_of_start (fun _ _ _ => rfl) h,
    fun hf => by cases hf⟩

/-- A call that does not come to a malformed token does not have to be on record. -/
theorem Booked.called {call : Except Failure Token} (hcall : ∀ t, call = .ok t → t.isError = false)
    (h : Booked σ name owned calls s) : Booked σ name owned (calls ++ [call]) s := by
  refine ⟨h.signed, ?_, h.ended, h.resting⟩
  rw [h.malformed, tokensOf_append, List.filter_append]
  cases call with
  | error f => simp
  | ok t => simp [hcall t rfl]

/-- A step: what is passed puts nothing on record that is accounted for. -/
theorem Booked.advance (h : Booked σ name owned calls s) :
    Booked σ name owned calls { s with cursor := left (Cursor.advance s.cursor) } := by
  by_cases hfinished : s.finished = true
  · rwa [advance_of_end (h.resting hfinished)]
  · have hended := h.ended
    rw [if_neg hfinished] at hended
    refine ⟨h.signed.advance, ?_, ?_, fun hf => absurd hf hfinished⟩
    · rw [noted_left_advance fun _ _ _ => rfl]
      exact h.malformed
    · rw [noted_left_advance fun _ _ _ => rfl, if_neg hfinished]
      exact hended

theorem Booked.leads (hr : Leads s.cursor r) (h : Booked σ name owned calls s) :
    Booked σ name owned calls { s with cursor := left r } :=
  hr.keeps (P := fun k => Booked σ name owned calls { s with cursor := k })
    (fun _ hk => hk.advance) h

theorem Booked.close (h : Booked σ name owned calls s) :
    Booked σ name owned calls { s with cursor := left (Cursor.close s.cursor) } := by
  have hnoted {p : Event → Bool} (hp : ∀ name, p (.closed name) = false) :
      (left (Cursor.close s.cursor)).noted p = s.cursor.noted p := by
    cases hclosed : s.cursor.closed with
    | true => rw [left_close_of_closed hclosed]
    | false =>
        rw [left_close_of_open hclosed]
        dsimp only
        split
        · exact noted_note_of_not (hp _) _
        · rfl
  refine ⟨h.signed.close, ?_, ?_, fun hf => ?_⟩
  · rw [hnoted fun _ => rfl]
    exact h.malformed
  · rw [hnoted fun _ => rfl, h.ended, sentinel, sentinel, position_left_close,
      (left_close_keeps s.cursor).1]
  · exact (rests_left_close (h.resting hf)).current_eq

/-- A step: a token is put on record if it is malformed. -/
theorem Booked.answer {x : Found} (hfinished : s.finished = false)
    (h : Booked σ name owned calls s) :
    Booked σ name owned (calls ++ [told (answer x s)]) (left (answer x s)) := by
  have hended := h.ended
  rw [hfinished] at hended
  show Booked σ name owned (calls ++ [.ok (x.token s.cursor.name)])
    { s with
      cursor := if (x.token s.cursor.name).isError then
        s.cursor.note (.malformed (x.token s.cursor.name)) else s.cursor
      count := s.count + 1 }
  split
  · next herror =>
    refine ⟨h.signed.note rfl, ?_, ?_, fun hf => ?_⟩
    · rw [noted_note rfl, h.malformed]
      simp [herror]
    · rw [noted_note_of_not rfl, hended]
      simp [hfinished]
    · simp [hfinished] at hf
  · next herror =>
    refine Booked.called ?_ ⟨h.signed, h.malformed, ?_, h.resting⟩
    · rintro t ⟨⟩
      simpa using herror
    · rw [hended]
      simp [hfinished]

/-- A step: the end is put on record before the cursor is closed, which cannot be undone if
closing fails. -/
theorem Booked.finish (hend : s.cursor.current = none) (hfinished : s.finished = false)
    (h : Booked σ name owned calls s) :
    Booked σ name owned (calls ++ [told (finish s)]) (left (finish s)) := by
  have hended := h.ended
  rw [hfinished] at hended
  have hmarked : Booked σ name owned calls
      { s with
        cursor := s.cursor.note (.ended s.sentinel.location s.count), finished := true } := by
    refine ⟨h.signed.note rfl, ?_, ?_, fun _ => hend⟩
    · rw [noted_note_of_not rfl]
      exact h.malformed
    · rw [noted_note rfl, hended]
      rfl
  have hclosed := hmarked.close
  refine .called (fun t ht => ?_) ?_
  · cases hcall : Scanner.finish s with
    | error f s' =>
        rw [hcall] at ht
        cases ht
    | ok u s' =>
        obtain rfl := eq_sentinel_of_finish hcall
        rw [hcall] at ht
        cases ht
        rfl
  · rw [left_finish]
    exact hclosed

theorem Booked.next (h : Booked σ name owned calls s) :
    Booked σ name owned (calls ++ [told (next s)]) (left (next s)) := by
  rw [next_apply]
  split
  · refine h.called fun t ht => ?_
    cases ht
    rfl
  · next hfinished =>
    have hleads := h.leads (stepwise_found s.cursor)
    rw [Bool.not_eq_true] at hfinished
    cases hfound : found s.cursor with
    | error f k =>
        rw [hfound] at hleads
        exact hleads.called fun t ht => by cases ht
    | ok x k =>
        rw [hfound] at hleads
        cases x with
        | some x => exact hleads.answer hfinished
        | none => exact hleads.finish (current_of_found_none hfound) hfinished

end Scanner

/-! ### Sessions -/

namespace Session

variable {σ : Stream} {name : String} {owned : Bool} {s₀ : Scanner} {s : Session} {r : Request}
  {rs : List Request} {made : List (Except Failure Token)}

/-! #### What scanners and calls keep -/

section Keeps

variable {P : List (Except Failure Token) → Scanner → Prop}
  (hnext : ∀ {made s}, P made s → P (made ++ [told (Scanner.next s)]) (left (Scanner.next s)))
  (hadvance : ∀ {made s}, P made s → P made { s with cursor := left (advance s.cursor) })
  (hclose : ∀ {made s}, P made s → P made { s with cursor := left (Cursor.close s.cursor) })
include hnext

theorem keeps_after_next (n : Nat) (h : P made s.scanner) :
    P (made ++ callsAll (.replicate n .next) s) (s.after (.replicate n .next)) := by
  induction n generalizing s made with
  | zero =>
      rw [List.replicate_zero, callsAll, List.append_nil]
      exact h
  | succ n ih =>
      rw [List.replicate_succ, callsAll, after_cons, ← List.append_assoc]
      refine ih ?_
      rw [scanner_left_next]
      exact hnext h

include hadvance hclose

/-- A step: a request keeps what is kept by each call, and by passing and closing. -/
theorem keeps_serve (hr : r.leavesText = true) (h : P made s.scanner) :
    P (made ++ calls r s) (left (serve r s)).scanner := by
  have hpassing {α : Type} (f : α → Reply) {x : Reading α} (hx : Stepwise x) :
      P (made ++ []) (left ((f <$> onCursor x) s)).scanner := by
    rw [left_map, onCursor, scanner_left_onScanner, Scanner.left_onCursor, List.append_nil]
    exact (hx s.scanner.cursor).keeps (P := fun k => P made { s.scanner with cursor := k })
      (fun _ hk => hadvance hk) h
  cases r with
  | next =>
      rw [scanner_left_next]
      exact hnext h
  | all =>
      obtain ⟨n, hcalls, hscanner⟩ := calls_all s
      rw [hcalls, hscanner]
      exact keeps_after_next hnext n h
  | openFeed =>
      rw [calls, List.append_nil]
      exact h
  | pull feed =>
      rw [serve, scanner_left_pull, calls]
      split
      · exact hnext h
      · rwa [List.append_nil]
  | close =>
      rw [scanner_left_close, Scanner.left_onCursor, calls, List.append_nil]
      exact hclose h
  | advance n => exact hpassing .chars (stepwise_advanceBy n [])
  | accept text => exact hpassing .flag (stepwise_acceptText text)
  | replace text => cases hr

/-- A run: so do any number of requests. -/
theorem keeps_after (hrs : ∀ r ∈ rs, r.leavesText = true) (h : P made s.scanner) :
    P (made ++ callsAll rs s) (s.after rs) := by
  induction rs generalizing s made with
  | nil =>
      rw [callsAll, List.append_nil]
      exact h
  | cons r rs ih =>
      rw [callsAll, after_cons, ← List.append_assoc]
      exact ih (fun q hq => hrs q (List.mem_cons_of_mem r hq))
        (keeps_serve hnext hadvance hclose (hrs r (List.mem_cons_self ..)) h)

end Keeps

/-! #### What is delivered of the calls -/

/-- A step: who asks for one token at a time gets what the calls have come to. -/
theorem delivered_serve (hr : r ≠ .all) (s : Session) :
    delivered [told (serve r s)] = tokensOf (calls r s) := by
  have hnothing {α : Type} {f : α → Reply} (hf : ∀ a, (f a).delivered = []) (x : Sharing α) :
      delivered [told ((f <$> x) s)] = [] := by
    show delivered [told (EStateM.map f x s)] = []
    rw [EStateM.map]
    cases x s with
    | ok a s' => exact (List.append_nil _).trans (hf a)
    | error f s' => rfl
  cases r with
  | next =>
      rw [serve, calls]
      show delivered [told (EStateM.map _ _ s)] = _
      rw [EStateM.map, onScanner]
      cases Scanner.next s.scanner <;> rfl
  | all => exact absurd rfl hr
  | openFeed => rfl
  | pull feed =>
      rw [serve, pull, calls]
      split
      · rw [onScanner]
        cases Scanner.next s.scanner <;> rfl
      · rfl
  | close =>
      rw [serve, bind_apply]
      cases onCursor Cursor.close s <;> rfl
  | advance n => exact hnothing (fun _ => rfl) _
  | accept text => exact hnothing (fun _ => rfl) _
  | replace text =>
      rw [serve, bind_apply]
      cases onCursor (modify (Cursor.replace text)) s <;> rfl

/-- A run: so do all of them together. -/
theorem delivered_serveAll (hrs : .all ∉ rs) (s : Session) :
    delivered (serveAll rs s).1 = tokensOf (callsAll rs s) := by
  induction rs generalizing s with
  | nil => rfl
  | cons r rs ih =>
      obtain ⟨hr, hrest⟩ := List.ne_and_not_mem_of_not_mem_cons hrs
      rw [serveAll_cons, ← List.singleton_append, delivered_append, delivered_serve hr.symm,
        ih hrest, callsAll, tokensOf_append]

/-! #### The accounts -/

/-- The scanner of a stream is accounted for, whatever is asked of it. -/
theorem booked_after (h : Scanner.ofStream σ name owned = .ok s₀)
    (hrs : ∀ r ∈ rs, r.leavesText = true) :
    (after { scanner := s₀ } rs).Booked σ name owned (callsAll rs { scanner := s₀ }) := by
  obtain ⟨k₀, hstart, rfl⟩ := exists_start_of_ofStream h
  have hbooked := keeps_after (s := { scanner := ⟨k₀, false, 0⟩ }) Scanner.Booked.next
    Scanner.Booked.advance Scanner.Booked.close hrs (Scanner.Booked.of_start hstart)
  rwa [List.nil_append] at hbooked

theorem warnedOnce_after (h : Scanner.ofStream σ name owned = .ok s₀)
    (hrs : ∀ r ∈ rs, r.leavesText = true) :
    (after { scanner := s₀ } rs).cursor.WarnedOnce := by
  obtain ⟨k₀, hstart, rfl⟩ := exists_start_of_ofStream h
  obtain ⟨passed, hwalk⟩ := reaches_after hrs { scanner := ⟨k₀, false, 0⟩ }
  exact hwalk.warnedOnce (warnedOnce_of_start hstart)

/-- The record accounts for the scan. Whatever is asked of the scanner of a stream that nobody
puts a text of his own in front of, in whatever order and with whatever failures, the malformed
tokens that calls have come to are on record, each once and in their order. The end is on
record once if the scanner is finished, and else not, with a count and a place that are those
of the scanner for good. There is at most one warning of a failed read, and behind it nothing
is read; and the closing is on record once if the stream is owned and has let itself be closed,
and else not. -/
theorem journal_accounts (h : Scanner.ofStream σ name owned = .ok s₀) (rs : List Request)
    (hrs : ∀ r ∈ rs, r.leavesText = true) :
    let s : Session := { scanner := s₀ }
    let scanner := s.after rs
    let malformed := (tokensOf (callsAll rs s)).filter (·.isError)
    (.all ∉ rs → malformed = (delivered (serveAll rs s).1).filter (·.isError)) ∧
      scanner.cursor.noted Event.isMalformed = malformed.map .malformed ∧
      (scanner.cursor.noted Event.isMalformed).map (fun e => (e.level, e.origin, e.text)) =
        malformed.map (fun t => (.debug, .scanner,
          s!"{t.location.text}: unrecognized lexeme {Text.quoted t.lexeme}")) ∧
      scanner.cursor.noted Event.isEnded =
        (if scanner.finished then [.ended scanner.sentinel.location scanner.count] else []) ∧
      scanner.cursor.noted Event.isClosed =
        (if scanner.cursor.closed ∧ owned ∧ σ.closing = none then [.closed name] else []) ∧
      scanner.cursor.warnings.length ≤ 1 ∧
      ∀ rs', (∀ r ∈ rs', r.leavesText = true) →
        (scanner.finished = true →
          (s.after (rs ++ rs')).count = scanner.count ∧
          (s.after (rs ++ rs')).cursor.noted Event.isEnded =
            scanner.cursor.noted Event.isEnded) ∧
        (scanner.cursor.warnings ≠ [] →
          (s.after (rs ++ rs')).cursor.stream.reads = scanner.cursor.stream.reads) := by
  intro s scanner malformed
  have hbooked := booked_after h hrs
  have hwarned := warnedOnce_after h hrs
  refine ⟨fun hall => ?_, hbooked.malformed, ?_, hbooked.ended, hbooked.signed.noted_eq, ?_,
    fun rs' hrs' => ?_⟩
  · rw [delivered_serveAll hall]
  · rw [hbooked.malformed, List.map_map]
    rfl
  · rcases hwarned with hnone | ⟨-, e, hone⟩
    · rw [hnone]
      exact Nat.zero_le 1
    · rw [hone]
      exact Nat.le_refl 1
  -- In both cases the cursor is at its end, and it rests from there on.
  obtain ⟨passed, hwalk⟩ := reaches_after hrs' (serveAll rs s).2
  refine ⟨fun hfinished => ?_, fun hfailed => ?_⟩
  · have hend : scanner.cursor.current = none := hbooked.resting hfinished
    have hrests := hwalk.rests hend
    have hcount : (s.after (rs ++ rs')).count = scanner.count := by
      rw [after_append]
      exact count_after hrs' hend
    have hsentinel : (s.after (rs ++ rs')).sentinel = scanner.sentinel := by
      rw [after_append, Scanner.sentinel, hrests.name_eq, hrests.position_eq]
      rfl
    have hfinished' : (s.after (rs ++ rs')).finished = true := by
      rw [after_append]
      exact (finished_after rs' hfinished).1
    have hlater := booked_after h fun r hr =>
      (List.mem_append.mp hr).elim (hrs r) (hrs' r)
    refine ⟨hcount, ?_⟩
    rw [hlater.ended, hbooked.ended, if_pos hfinished', if_pos hfinished, hsentinel, hcount]
  · obtain ⟨hend, -⟩ := hwarned.resolve_left hfailed
    rw [after_append]
    exact (hwalk.rests hend).reads_eq

/-- A malformed numeral is found, and then a read fails, which ends the scan. -/
theorem journal_accounts_broken :
    let σ : Stream :=
      { items := [.char '1', .char 'a', .char ' ', .fault (.device "I/O error"), .char 'b'] }
    ∃ s, Scanner.ofStream σ "pipe" true = .ok s ∧
      (after { scanner := s } [.openFeed, .pull 0, .next]).cursor.journal =
        [.closed "pipe", .ended ⟨"pipe", 1, 4⟩ 1,
          .readFailed "pipe" ⟨1, 4, 3⟩ (.device "I/O error"),
          .malformed ⟨.other, "1a", 1, 1, 0, "pipe"⟩] ∧
      (after { scanner := s } [.openFeed, .pull 0, .next]).cursor.noted Event.isMalformed =
        ((tokensOf (callsAll [.openFeed, .pull 0, .next] { scanner := s })).filter
          (·.isError)).map .malformed ∧
      (after { scanner := s } ([.openFeed, .pull 0, .next] ++ [.all])).count = 1 ∧
      (after { scanner := s } ([.openFeed, .pull 0, .next] ++ [.all])).cursor.stream.reads = 4 := by
  intro σ
  obtain ⟨s, hs⟩ : ∃ s, Scanner.ofStream σ "pipe" true = .ok s := ⟨_, rfl⟩
  obtain ⟨-, hmalformed, -, -, -, -, hlater⟩ :=
    journal_accounts hs [.openFeed, .pull 0, .next] (by decide)
  obtain ⟨hcount, hreads⟩ := hlater [.all] (by decide)
  have hfinished : (after { scanner := s } [.openFeed, .pull 0, .next]).finished = true ∧
      (after { scanner := s } [.openFeed, .pull 0, .next]).cursor.warnings ≠ [] := by
    cases hs
    decide +kernel
  refine ⟨s, hs, ?_, hmalformed, (hcount hfinished.1).1.trans ?_,
    (hreads hfinished.2).trans ?_⟩
  all_goals
    cases hs
    decide +kernel

end Session

end KayLex
