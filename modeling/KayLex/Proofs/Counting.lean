import KayLex.Proofs.Resting
import KayLex.Proofs.Scanner.Doomed

/-!
What the scanner counts, and its flags. A call of `next` can be cut off at any point: by a
read, or by the stream that fails to close behind the last token; and whoever holds the cursor
may put a text of his own in front of it, even behind the end. Still the count is that of the
tokens that calls have answered, since a call counts its token when nothing can go wrong any
more. And the scanner is finished before its cursor is closed, by a closing that closes also
if it fails, so a scanner that is finished is so for good.
-/

namespace KayLex

open Cursor KayLex.Action

/-! ### What the scanner counts -/

namespace Scanner

variable {s s' : Scanner} {t : Token} {ts : List Token} {f : Failure}

/-- A step: every token is counted but the sentinel. -/
theorem count_of_next (h : next s = .ok t s') :
    s'.count = s.count + if t.isEnd then 0 else 1 := by
  rw [next_apply] at h
  split at h
  · cases h
    rfl
  · split at h
    · next x k hfound =>
      cases h
      have hkind := Reading.kind_of_found hfound
      simp [Found.token, Token.isEnd, hkind]
    · next k hfound =>
      have hcount := count_left_finish { s with cursor := k }
      rw [h] at hcount
      obtain rfl := eq_sentinel_of_finish h
      exact hcount
    · cases h

theorem count_of_next_error (h : next s = .error f s') : s'.count = s.count := by
  rw [next_apply] at h
  split at h
  · cases h
  · split at h
    · cases h
    · next k hfound =>
      have hcount := count_left_finish { s with cursor := k }
      rw [h] at hcount
      exact hcount
    · cases h
      rfl

/-- A run: a scan to the end has counted what it has found, also if it was stopped. -/
theorem count_drainFrom (found : List Token) (s : Scanner) :
    (drainFrom found s).scanner.count + found.length =
      s.count + (drainFrom found s).tokens.length := by
  fun_induction drainFrom found s with
  | case1 found s f s' hnext =>
      rw [count_of_next_error hnext, List.length_reverse]
  | case2 found s t s' hnext ht =>
      rw [count_of_next hnext, if_pos ht, List.length_reverse]
      rfl
  | case3 found s t s' hnext ht ih =>
      rw [count_of_next hnext, if_neg ht, List.length_cons] at ih
      omega

theorem isEnd_of_mem_drainFrom {found : List Token} (h : ∀ t ∈ found, t.isEnd = false)
    (s : Scanner) : ∀ t ∈ (drainFrom found s).tokens, t.isEnd = false := by
  fun_induction drainFrom found s with
  | case1 | case2 => exact fun t ht => h t (List.mem_reverse.mp ht)
  | case3 found s t s' hnext ht ih =>
      refine ih fun u hu => ?_
      rcases List.mem_cons.mp hu with rfl | hu
      · simpa using ht
      · exact h u hu

theorem isEnd_of_ending (found : List Token) (h : (drainFrom found s).ending = .ok t) :
    t.isEnd = true := by
  fun_induction drainFrom found s with
  | case1 => cases h
  | case2 found s u s' hnext hu =>
      cases h
      exact hu
  | case3 found s u s' hnext hu ih => exact ih h

/-- The tokens in front of the sentinel are what a scan has found and what it has counted. -/
theorem drain_of_all (hall : s.drain.all = .ok ts) :
    (∃ last, s.drain.ending = .ok last) ∧ s.drain.tokens = ts.filter (!·.isEnd) ∧
      s.drain.scanner.count = s.count + (ts.filter (!·.isEnd)).length := by
  cases hending : s.drain.ending with
  | error f =>
      rw [Drained.all, hending] at hall
      cases hall
  | ok last =>
      rw [Drained.all, hending] at hall
      cases hall
      have hlast : last.isEnd = true := isEnd_of_ending [] hending
      have hnone : ∀ t ∈ s.drain.tokens, t.isEnd = false :=
        isEnd_of_mem_drainFrom (fun t ht => by cases ht) s
      have hfound : (s.drain.tokens ++ [last]).filter (!·.isEnd) = s.drain.tokens := by
        rw [List.filter_append, List.filter_eq_self.mpr fun t ht => by rw [hnone t ht]; rfl]
        simp [hlast]
      refine ⟨⟨last, rfl⟩, hfound.symm, ?_⟩
      rw [hfound]
      exact count_drainFrom [] s

/-- Whether a call of `next` has come to a token of the text. -/
def isToken : Except Failure Token → Bool
  | .ok t => !t.isEnd
  | .error _ => false

/-- A step: a call counts exactly the token that it comes to. -/
theorem count_left_next_eq (s : Scanner) :
    (left (next s)).count = s.count + [told (next s)].countP isToken := by
  cases hnext : next s with
  | ok t s' => cases ht : t.isEnd <;> simp [left, told, isToken, count_of_next hnext, ht]
  | error f s' => exact count_of_next_error hnext

def Drained.calls (d : Drained) : List (Except Failure Token) := d.tokens.map .ok ++ [d.ending]

theorem countP_calls (s : Scanner) : s.drain.calls.countP isToken = s.drain.tokens.length := by
  have htokens : (s.drain.tokens.map Except.ok).countP isToken = s.drain.tokens.length := by
    rw [List.countP_map, List.countP_eq_length]
    intro t ht
    have hnone : ∀ u ∈ ([] : List Token), u.isEnd = false := fun u hu => by cases hu
    have hend := isEnd_of_mem_drainFrom hnone s t ht
    simp [isToken, hend]
  have hending : isToken s.drain.ending = false := by
    cases h : s.drain.ending with
    | error f => rfl
    | ok t => simp [isToken, isEnd_of_ending [] h]
  rw [Drained.calls, List.countP_append, htokens, List.countP_singleton, hending]
  rfl

/-! ### Flags -/

/-- A scanner that is finished has closed its cursor. -/
def Shut (s : Scanner) : Prop := s.finished = true → s.cursor.closed = true

theorem shut_left_next (h : s.Shut) : (left (next s)).Shut := by
  rw [next_apply]
  split
  · exact h
  · next hfinished =>
    -- Only the call that finds nothing finishes the scanner, and that call closes.
    split
    · exact fun hf => absurd hf hfinished
    · intro _
      rw [left_finish]
      exact closed_left_close _
    · exact fun hf => absurd hf hfinished

theorem shut_drainFrom (found : List Token) (h : s.Shut) : (drainFrom found s).scanner.Shut :=
  drainFrom_keeps (fun _ => shut_left_next) found h

theorem finished_left_onCursor {α : Type} (x : Reading α) (s : Scanner) :
    (left (onCursor x s)).finished = s.finished := by
  rw [left_onCursor]

theorem drain_of_finished (h : s.finished = true) : s.drain = ⟨[], .ok s.sentinel, s⟩ := by
  rw [drain, drainFrom_of_end (next_of_finished h) (Token.isEnd_sentinel ..)]
  rfl

end Scanner

/-! ### Sessions -/

namespace Session

open Scanner

variable {σ : Stream} {name : String} {owned : Bool} {s₀ : Scanner} {s : Session}

/-- What the calls of `next` come to that a request makes, in their order. -/
def calls (r : Request) (s : Session) : List (Except Failure Token) :=
  match r with
  | .next => [told (Scanner.next s.scanner)]
  | .all => s.scanner.drain.calls
  | .pull feed => if s.isOpen feed then [told (Scanner.next s.scanner)] else []
  | .openFeed | .close | .advance _ | .accept _ | .replace _ => []

def callsAll : List Request → Session → List (Except Failure Token)
  | [], _ => []
  | r :: rs, s => calls r s ++ callsAll rs (left (serve r s))

theorem callsAll_append (qs rs : List Request) (s : Session) :
    callsAll (qs ++ rs) s = callsAll qs s ++ callsAll rs (serveAll qs s).2 := by
  induction qs generalizing s with
  | nil => rfl
  | cons q qs ih =>
      rw [List.cons_append, callsAll, callsAll, ih, List.append_assoc, serveAll_cons]

theorem length_callsAll_next (n : Nat) (s : Session) :
    (callsAll (.replicate n .next) s).length = n := by
  induction n generalizing s with
  | zero => rfl
  | succ n ih =>
      rw [List.replicate_succ, callsAll, List.length_append, ih, calls, List.length_singleton,
        Nat.add_comm]

/-- A scan to the end makes the calls that come up to its end when they are made one by one. -/
theorem calls_all (s : Session) :
    ∃ n, calls .all s = callsAll (.replicate n .next) s ∧
      (left (serve .all s)).scanner = s.after (.replicate n .next) := by
  have hlast (s : Session) {scanner : Scanner} (h : left (Scanner.next s.scanner) = scanner) :
      scanner = s.after (.replicate 1 .next) := by
    rw [List.replicate_one, after_cons, ← h]
    exact (scanner_left_next s).symm
  have hrun (found : List Token) (scanner : Scanner) :
      ∀ s : Session, s.scanner = scanner → ∃ n,
        (drainFrom found scanner).calls =
          found.reverse.map .ok ++ callsAll (.replicate n .next) s ∧
        (drainFrom found scanner).scanner = s.after (.replicate n .next) := by
    fun_induction drainFrom found scanner with
    | case1 found scanner f scanner' hnext =>
        rintro s rfl
        refine ⟨1, ?_, hlast s (congrArg left hnext)⟩
        simp [Drained.calls, callsAll, calls, hnext, told]
    | case2 found scanner t scanner' hnext ht =>
        rintro s rfl
        refine ⟨1, ?_, hlast s (congrArg left hnext)⟩
        simp [Drained.calls, callsAll, calls, hnext, told]
    | case3 found scanner t scanner' hnext ht ih =>
        rintro s rfl
        obtain ⟨n, hcalls, hscanner⟩ := ih (left (serve .next s))
          ((scanner_left_next s).trans (congrArg left hnext))
        refine ⟨n + 1, ?_, ?_⟩
        · simp [hcalls, List.replicate_succ, callsAll, calls, hnext, told]
        · rw [hscanner, List.replicate_succ, after_cons]
  obtain ⟨n, hcalls, hscanner⟩ := hrun [] s.scanner s rfl
  exact ⟨n, hcalls, (scanner_left_all s).trans hscanner⟩

/-- What a request does to the scanner: it makes no call and reaches it through its cursor at
most, or it makes one call, or it scans to the end. -/
theorem calls_cases (r : Request) (s : Session) :
    (calls r s = [] ∧ (left (serve r s)).scanner.finished = s.scanner.finished ∧
      (left (serve r s)).scanner.count = s.scanner.count) ∨
    (calls r s = [told (Scanner.next s.scanner)] ∧
      (left (serve r s)).scanner = left (Scanner.next s.scanner)) ∨
    calls r s = s.scanner.drain.calls ∧
      (left (serve r s)).scanner = s.scanner.drain.scanner := by
  have hcursor {α : Type} (x : Reading α) :
      (left (onCursor x s)).scanner.finished = s.scanner.finished ∧
        (left (onCursor x s)).scanner.count = s.scanner.count := by
    refine ⟨?_, count_left_onScannerCursor x s⟩
    rw [onCursor, scanner_left_onScanner]
    exact finished_left_onCursor x _
  cases r with
  | next =>
      exact .inr (.inl ⟨rfl, scanner_left_next s⟩)
  | all => exact .inr (.inr ⟨rfl, scanner_left_all s⟩)
  | openFeed => exact .inl ⟨rfl, rfl, rfl⟩
  | pull feed =>
      rw [serve, scanner_left_pull, calls]
      split
      · exact .inr (.inl ⟨rfl, rfl⟩)
      · exact .inl ⟨rfl, rfl, rfl⟩
  | close =>
      rw [serve, left_bind_pure]
      exact .inl ⟨rfl, hcursor _⟩
  | advance n =>
      rw [serve, left_map]
      exact .inl ⟨rfl, hcursor _⟩
  | accept text =>
      rw [serve, left_map]
      exact .inl ⟨rfl, hcursor _⟩
  | replace text =>
      rw [serve, left_bind_pure]
      exact .inl ⟨rfl, hcursor _⟩

/-! #### The count -/

/-- A step: a request counts the tokens that its calls come to. -/
theorem count_left_serve_calls (r : Request) (s : Session) :
    (left (serve r s)).scanner.count = s.scanner.count + (calls r s).countP isToken := by
  rcases calls_cases r s with ⟨hcalls, -, hcount⟩ | ⟨hcalls, hscanner⟩ | ⟨hcalls, hscanner⟩
  · rw [hcalls, hcount]
    rfl
  · rw [hcalls, hscanner]
    exact count_left_next_eq _
  · rw [hcalls, hscanner, countP_calls]
    exact count_drainFrom [] _

/-- A run: so do any number of requests. -/
theorem count_after_calls (rs : List Request) (s : Session) :
    (s.after rs).count = s.scanner.count + (callsAll rs s).countP isToken := by
  induction rs generalizing s with
  | nil => rfl
  | cons r rs ih =>
      rw [after_cons, ih, count_left_serve_calls, callsAll, List.countP_append, Nat.add_assoc]

/-! #### The flags -/

/-- A step: a scanner that is finished has closed its cursor, whoever finished it. -/
theorem shut_left_serve (r : Request) (h : s.scanner.Shut) : (left (serve r s)).scanner.Shut := by
  rcases calls_cases r s with ⟨-, hfinished, -⟩ | ⟨-, hscanner⟩ | ⟨-, hscanner⟩
  · intro hf
    exact ((handled_serve r s).of_closed (h (hfinished.symm.trans hf))).1
  · rw [hscanner]
    exact shut_left_next h
  · rw [hscanner]
    exact shut_drainFrom [] h

theorem shut_after (rs : List Request) (h : s.scanner.Shut) : (s.after rs).Shut := by
  induction rs generalizing s with
  | nil => exact h
  | cons r rs ih =>
      rw [after_cons]
      exact ih (shut_left_serve r h)

/-- A step: a scanner that is finished stays so, and all that calls come to is the sentinel. -/
theorem finished_left_serve (r : Request) (h : s.scanner.finished = true) :
    (left (serve r s)).scanner.finished = true ∧
      ∀ c ∈ calls r s, ∃ t, c = .ok t ∧ t.isEnd = true := by
  rcases calls_cases r s with ⟨hcalls, hfinished, -⟩ | ⟨hcalls, hscanner⟩ | ⟨hcalls, hscanner⟩
  · rw [hcalls, hfinished]
    exact ⟨h, fun c hc => by cases hc⟩
  · rw [hcalls, hscanner, next_of_finished h]
    refine ⟨h, fun c hc => ⟨_, List.mem_singleton.mp hc, Token.isEnd_sentinel ..⟩⟩
  · rw [hcalls, hscanner, drain_of_finished h]
    refine ⟨h, fun c hc => ⟨_, List.mem_singleton.mp hc, Token.isEnd_sentinel ..⟩⟩

theorem finished_after (rs : List Request) (h : s.scanner.finished = true) :
    (s.after rs).finished = true ∧ ∀ c ∈ callsAll rs s, ∃ t, c = .ok t ∧ t.isEnd = true := by
  induction rs generalizing s with
  | nil => exact ⟨h, fun c hc => by cases hc⟩
  | cons r rs ih =>
      obtain ⟨hstep, hcalls⟩ := finished_left_serve r h
      obtain ⟨hrun, hlater⟩ := ih hstep
      rw [after_cons, callsAll]
      exact ⟨hrun, fun c hc => (List.mem_append.mp hc).elim (hcalls c) (hlater c)⟩

/-- The count and the flags survive every failure. Whatever is asked of the scanner of a stream,
in whatever order and with whatever failures, it has counted the calls that have come to a token
of the text, and a call that fails counts nothing. A scanner that is finished has closed its
cursor; neither is ever undone; and once the scanner is finished, every call comes to the
sentinel and nothing more is counted. -/
theorem counters_survive (h : Scanner.ofStream σ name owned = .ok s₀) (rs : List Request) :
    let s : Session := { scanner := s₀ }
    (s.after rs).count = (callsAll rs s).countP isToken ∧
      (∀ u f u', Scanner.next u = .error f u' → u'.count = u.count) ∧
      ((s.after rs).finished = true → (s.after rs).cursor.closed = true) ∧
      ∀ rs',
        ((s.after rs).cursor.closed = true → (s.after (rs ++ rs')).cursor.closed = true) ∧
        ((s.after rs).finished = true →
          (s.after (rs ++ rs')).finished = true ∧
          (s.after (rs ++ rs')).count = (s.after rs).count ∧
          ∀ c ∈ callsAll rs' (serveAll rs s).2, ∃ t, c = .ok t ∧ t.isEnd = true) := by
  obtain ⟨k₀, -, rfl⟩ := exists_start_of_ofStream h
  refine ⟨?_, fun u f u' hnext => count_of_next_error hnext, ?_, fun rs' => ⟨fun hclosed => ?_, ?_⟩⟩
  · rw [count_after_calls, Nat.zero_add]
  · exact shut_after rs (s := { scanner := ⟨k₀, false, 0⟩ }) fun hf => by cases hf
  · exact (after_append_keeps hclosed rs').1
  · intro hfinished
    obtain ⟨hlater, hcalls⟩ := finished_after (s := (serveAll rs _).2) rs' hfinished
    have hnone :
        (callsAll rs' (serveAll rs { scanner := ⟨k₀, false, 0⟩ }).2).countP isToken = 0 := by
      rw [List.countP_eq_zero]
      intro c hc
      obtain ⟨t, rfl, ht⟩ := hcalls c hc
      simp [isToken, ht]
    rw [after_append]
    refine ⟨hlater, ?_, hcalls⟩
    rw [count_after_calls, hnone]
    rfl

/-- A source that is interrupted once and cannot be closed properly. -/
def interrupted : Stream :=
  { items := [.char 'a', .fault (.badState "interrupted"), .char 'b']
    closing := some (.device "flush failed") }

/-- A call fails in a read and another one in the closing, with the only token in between. -/
theorem counters_survive_interrupted :
    ∃ s, Scanner.ofStream interrupted "pipe" true = .ok s ∧
      callsAll [.next, .all, .replace ['c'], .next] { scanner := s } =
        [.error (.badState "interrupted"), .ok ⟨.identifier, "ab", 1, 2, 1, "pipe"⟩,
          .error (.device "flush failed"), .ok (.sentinel "pipe" ⟨1, 4, 3⟩)] ∧
      (after { scanner := s } [.next, .all, .replace ['c'], .next]).count = 1 ∧
      (after { scanner := s } [.next, .all]).finished = true ∧
      (after { scanner := s } [.next, .all]).cursor.closed = true := by
  obtain ⟨s, hs⟩ : ∃ s, Scanner.ofStream interrupted "pipe" true = .ok s := ⟨_, rfl⟩
  have hcalls : callsAll [.next, .all, .replace ['c'], .next] { scanner := s } =
      [.error (.badState "interrupted"), .ok ⟨.identifier, "ab", 1, 2, 1, "pipe"⟩,
        .error (.device "flush failed"), .ok (.sentinel "pipe" ⟨1, 4, 3⟩)] := by
    cases hs
    decide +kernel
  have hfinished : (after { scanner := s } [.next, .all]).finished = true := by
    cases hs
    decide +kernel
  obtain ⟨hcount, -⟩ := counters_survive hs [.next, .all, .replace ['c'], .next]
  obtain ⟨-, -, hclosed, -⟩ := counters_survive hs [.next, .all]
  refine ⟨s, hs, hcalls, hcount.trans ?_, hfinished, hclosed hfinished⟩
  rw [hcalls]
  decide

end Session

end KayLex
