import KayLex.Proofs.Counting
import KayLex.Proofs.Truncation

/-!
Token after token. The call that comes to the end of a stream marks the scanner as finished,
closes the cursor and answers the sentinel, in this order. A read that fails as the end of the
input does not keep it from that, but a stream that fails to close does: that one call fails,
and the sentinel that the scanner has promised is only answered by the next one. This is all
that can happen: no other call fails, no token is lost, and from then on the sentinel is
answered for good.
-/

namespace KayLex

open Cursor KayLex.Action

/-! ### Scanners -/

namespace Scanner

variable {σ : Stream} {s s' : Scanner} {t : Token} {more : List Found} {last : Position}

theorem finished_of_next (h : next s = .ok t s') (ht : t.isEnd = false) :
    s'.finished = s.finished := by
  rw [next_apply] at h
  split at h
  · cases h
    rfl
  · split at h
    · cases h
      rfl
    · obtain rfl := eq_sentinel_of_finish h
      cases ht
    · cases h

theorem finished_left_finish (s : Scanner) : (left (finish s)).finished = true := by
  rw [left_finish]

/-- A scan that has nothing but text ahead finishes the scanner, also if closing fails. -/
theorem finished_drain_of_facing (h : Facing s more last) (hfinished : s.finished = false) :
    s.drain.scanner.finished = true := by
  obtain ⟨s₁, hdrain, hs₁, -, hfinished₁, -⟩ := drainFrom_of_facing [] h
  obtain ⟨k, hnext, -⟩ := next_of_facing_nil hs₁ (hfinished₁.trans hfinished)
  have hleft := finished_left_finish { s₁ with cursor := k }
  rw [drain, hdrain]
  cases hfinish : finish { s₁ with cursor := k } with
  | ok t s' =>
      rw [hfinish] at hleft
      obtain rfl := eq_sentinel_of_finish hfinish
      rw [drainFrom_of_end (hnext.trans hfinish) (Token.isEnd_sentinel ..)]
      exact hleft
  | error f s' =>
      rw [hfinish] at hleft
      rw [drainFrom_of_error (hnext.trans hfinish)]
      exact hleft

/-- A stream that ends or breaks off is scanned like the text that it delivers, unless closing
it fails at last. -/
theorem drain_of_quiet (hquiet : σ.Quiet) (name : String) (owned : Bool) :
    ∃ s last, ofStream σ name owned = .ok s ∧ s.finished = false ∧
      s.drain.scanner.finished = true ∧ s.drain.scanner.sentinel = last ∧
      tokenize (String.ofList σ.chars) name = s.drain.tokens ++ [last] ∧
      s.drain.ending = (if owned then σ.closing else none).elim (.ok last) .error := by
  obtain ⟨k, hstart, hk, hopen⟩ := exists_start hquiet name owned
  have hframe := frame_of_start hstart
  have hahead := hk.ahead hquiet hopen
  rw [List.length_nil, List.drop_zero] at hahead
  have hfacing := facing_of_ahead (s := ⟨k, false, 0⟩) hahead rfl
  have hzero : k.position = {} := hk.position_eq
  dsimp only at hfacing
  rw [hzero] at hfacing
  obtain ⟨htokens, hending, hposition⟩ := drain_of_facing hfacing rfl hopen
  dsimp only at htokens hending
  rw [hframe.name_eq] at htokens hending
  rw [hframe.owned_eq, hframe.closing_eq] at hending
  have hname := (reaches_drainFrom [] ⟨k, false, 0⟩).handled.keeps.1.trans hframe.name_eq
  refine ⟨⟨k, false, 0⟩, _, by rw [ofStream, hstart]; rfl, rfl,
    finished_drain_of_facing hfacing rfl, ?_, ?_, hending⟩
  · exact congr (congrArg Token.sentinel hname) hposition
  · rw [tokenize_eq_lexemes, String.toList_ofList, Grammar.last_lexemesFrom, htokens]

theorem isToken_of_mem_take {n : Nat} (hn : n < s.drain.calls.length)
    {call : Except Failure Token} (hcall : call ∈ s.drain.calls.take n) : isToken call = true := by
  rw [Drained.calls, List.length_append, List.length_singleton, List.length_map] at hn
  rw [Drained.calls, List.take_append_of_le_length (by rw [List.length_map]; omega)] at hcall
  obtain ⟨t, ht, rfl⟩ := List.mem_map.mp (List.mem_of_mem_take hcall)
  have hend : t.isEnd = false := isEnd_of_mem_drainFrom (fun u hu => by cases hu) s t ht
  rw [isToken, hend]
  rfl

end Scanner

/-! ### Sessions -/

namespace Session

open Scanner

variable {σ : Stream} {s : Session} {n : Nat}

/-! #### Calls -/

theorem callsAll_next_of_finished (n : Nat) (h : s.scanner.finished = true) :
    callsAll (.replicate n .next) s = .replicate n (.ok s.scanner.sentinel) := by
  induction n generalizing s with
  | zero => rfl
  | succ n ih =>
      have hscanner : (left (serve .next s)).scanner = s.scanner := by
        rw [scanner_left_next, next_of_finished h]
        rfl
      rw [List.replicate_succ, callsAll, ih (by rwa [hscanner]), hscanner, calls,
        next_of_finished h]
      rfl

theorem finished_after_next (h : s.scanner.finished = false)
    (hcalls : ∀ call ∈ callsAll (.replicate n .next) s, isToken call = true) :
    (s.after (.replicate n .next)).finished = false := by
  induction n generalizing s with
  | zero => exact h
  | succ n ih =>
      rw [List.replicate_succ, callsAll, calls] at hcalls
      rw [List.replicate_succ, after_cons]
      refine ih ?_ fun call hcall => hcalls call (List.mem_append_right _ hcall)
      have hfirst := hcalls _ (List.mem_append_left _ (List.mem_singleton_self _))
      rw [scanner_left_next]
      cases hnext : Scanner.next s.scanner with
      | error f s' =>
          rw [hnext] at hfirst
          cases hfirst
      | ok t s' =>
          rw [hnext] at hfirst
          exact (finished_of_next hnext (by simpa [isToken, told] using hfirst)).trans h

/-- A scan to the end makes as many calls as it comes to, one by one. -/
theorem callsAll_drained (s : Session) :
    callsAll (.replicate s.scanner.drain.calls.length .next) s = s.scanner.drain.calls ∧
      s.after (.replicate s.scanner.drain.calls.length .next) = s.scanner.drain.scanner := by
  obtain ⟨m, hcalls, hscanner⟩ := calls_all s
  rw [serve, scanner_left_all] at hscanner
  change s.scanner.drain.calls = _ at hcalls
  have hlength : s.scanner.drain.calls.length = m := by rw [hcalls, length_callsAll_next]
  rw [hlength]
  exact ⟨hcalls.symm, hscanner.symm⟩

section Drained

variable (hdrained : s.scanner.drain.scanner.finished = true)
include hdrained

/-- Calls come to what a scan to the end comes to, and then to its sentinel again and again. -/
theorem callsAll_next (n : Nat) :
    callsAll (.replicate n .next) s =
      s.scanner.drain.calls.take n ++
        .replicate (n - s.scanner.drain.calls.length) (.ok s.scanner.drain.scanner.sentinel) := by
  obtain ⟨hcalls, hscanner⟩ := callsAll_drained s
  generalize hm : s.scanner.drain.calls.length = m at hcalls hscanner ⊢
  rcases Nat.le_total n m with hle | hle <;> obtain ⟨d, rfl⟩ := Nat.exists_eq_add_of_le hle
  · rw [Nat.sub_eq_zero_of_le hle, List.replicate_zero, List.append_nil, ← hcalls,
      ← List.replicate_append_replicate, callsAll_append,
      List.take_left' (length_callsAll_next n s)]
  · rw [Nat.add_sub_cancel_left, List.take_of_length_le (hm ▸ hle),
      ← List.replicate_append_replicate, callsAll_append, hcalls, ← hscanner]
    rw [← hscanner] at hdrained
    exact congrArg _ (callsAll_next_of_finished d hdrained)

theorem isToken_of_mem_callsAll (hn : n < s.scanner.drain.calls.length)
    {call : Except Failure Token} (hcall : call ∈ callsAll (.replicate n .next) s) :
    isToken call = true := by
  rw [callsAll_next hdrained, Nat.sub_eq_zero_of_le (Nat.le_of_lt hn), List.replicate_zero,
    List.append_nil] at hcall
  exact isToken_of_mem_take hn hcall

theorem finished_after_next_iff (hs : s.scanner.finished = false) (n : Nat) :
    (s.after (.replicate n .next)).finished = true ↔ s.scanner.drain.calls.length ≤ n := by
  constructor
  · intro hfinished
    by_contra hlt
    have hnot := finished_after_next hs fun call hcall =>
      isToken_of_mem_callsAll hdrained (Nat.lt_of_not_le hlt) hcall
    rw [hfinished] at hnot
    cases hnot
  · intro hle
    obtain ⟨d, hd⟩ := Nat.exists_eq_add_of_le hle
    obtain ⟨-, hscanner⟩ := callsAll_drained s
    rw [hd, ← List.replicate_append_replicate, after_append]
    rw [← hscanner] at hdrained
    exact (finished_after (s := (serveAll _ s).2) _ hdrained).1

end Drained

end Session

/-! ### Answers -/

/-- However often it is called, every call answers a token, and the scanner is finished when
the sentinel has been answered and not before. -/
def Scanner.AlwaysAnswers (s : Scanner) : Prop :=
  ∀ n, (∀ call ∈ Session.callsAll (.replicate n .next) { scanner := s }, ∃ t, call = .ok t) ∧
    ((Session.after { scanner := s } (.replicate n .next)).finished = true ↔
      ∃ t, .ok t ∈ Session.callsAll (.replicate n .next) { scanner := s } ∧ t.isEnd = true)

namespace Session

open Scanner

variable {σ : Stream} {name : String} {owned : Bool}

theorem alwaysAnswers_iff {s : Scanner} (hs : s.finished = false)
    (hdrained : s.drain.scanner.finished = true) :
    s.AlwaysAnswers ↔ ∃ t, s.drain.ending = .ok t := by
  have hlast : s.drain.ending ∈ s.drain.calls :=
    List.mem_append_right _ (List.mem_singleton_self _)
  constructor
  · intro halways
    obtain ⟨hok, -⟩ := halways s.drain.calls.length
    rw [(callsAll_drained { scanner := s }).1] at hok
    exact hok _ hlast
  · rintro ⟨last, hending⟩ n
    have hend : last.isEnd = true := isEnd_of_ending [] hending
    have hcalls := callsAll_next (s := { scanner := s }) hdrained n
    refine ⟨fun call hcall => ?_, ?_⟩
    · rw [hcalls] at hcall
      rcases List.mem_append.mp hcall with hcall | hcall
      · rcases List.mem_append.mp (List.mem_of_mem_take hcall) with htoken | hcall
        · obtain ⟨t, -, rfl⟩ := List.mem_map.mp htoken
          exact ⟨t, rfl⟩
        · exact ⟨last, (List.mem_singleton.mp hcall).trans hending⟩
      · exact ⟨_, List.eq_of_mem_replicate hcall⟩
    · rw [finished_after_next_iff (s := { scanner := s }) hdrained hs]
      constructor
      · intro hle
        refine ⟨last, ?_, hend⟩
        rw [hcalls, List.take_of_length_le hle, ← hending]
        exact List.mem_append_left _ hlast
      · rintro ⟨t, ht, htend⟩
        by_contra hlt
        have htoken := isToken_of_mem_callsAll (s := { scanner := s }) hdrained
          (Nat.lt_of_not_le hlt) ht
        simp [isToken, htend] at htoken

/-- Calls of a scanner, one after the other, over a stream that fails only in ways that count
as the end. They answer the tokens of the text that the stream delivers, then the sentinel, and
again the sentinel from then on. The scanner is finished by the call that comes to the end, and
this call alone can fail: it does if the stream is owned and fails to close. So the scanner
always answers, unless the stream is owned and fails to close. -/
theorem alwaysAnswers_of_quiet (hquiet : σ.Quiet) (name : String) (owned : Bool) :
    ∃ s found last, Scanner.ofStream σ name owned = .ok s ∧
      tokenize (String.ofList σ.chars) name = found ++ [last] ∧
      (∀ n,
        callsAll (.replicate n .next) { scanner := s } =
          (found.map .ok ++
            [(if owned then σ.closing else none).elim (.ok last) .error]).take n ++
            .replicate (n - (found.length + 1)) (.ok last) ∧
        ((after { scanner := s } (.replicate n .next)).finished = true ↔
          found.length + 1 ≤ n)) ∧
      (s.AlwaysAnswers ↔ (owned = true → σ.closing = none)) := by
  obtain ⟨s, last, hstream, hs, hdrained, hsentinel, htokenize, hending⟩ :=
    drain_of_quiet hquiet name owned
  refine ⟨s, s.drain.tokens, last, hstream, htokenize, fun n => ⟨?_, ?_⟩, ?_⟩
  · have hcalls := callsAll_next (s := { scanner := s }) hdrained n
    rw [hsentinel] at hcalls
    rw [hcalls, Drained.calls, List.length_append, List.length_map, List.length_singleton, hending]
  · rw [finished_after_next_iff (s := { scanner := s }) hdrained hs, Drained.calls,
      List.length_append, List.length_map, List.length_singleton]
  · rw [alwaysAnswers_iff hs hdrained, hending]
    cases owned <;> cases σ.closing <;> simp

/-- A pipe that breaks and is not closed: the call that meets the failure answers the sentinel. -/
theorem alwaysAnswers_of_quiet_broken :
    let σ : Stream := { items := [.char 'a', .fault (.device "broken pipe"), .char 'b'] }
    σ.Quiet ∧ ∃ s, Scanner.ofStream σ "pipe" true = .ok s ∧ s.AlwaysAnswers ∧
      callsAll (.replicate 3 .next) { scanner := s } =
        [.ok ⟨.identifier, "a", 1, 1, 0, "pipe"⟩, .ok (.sentinel "pipe" ⟨1, 2, 1⟩),
          .ok (.sentinel "pipe" ⟨1, 2, 1⟩)] := by
  intro σ
  have hquiet : σ.Quiet := by
    intro f hf
    cases hf
    rfl
  obtain ⟨s, found, last, hs, -, -, halways⟩ := alwaysAnswers_of_quiet hquiet "pipe" true
  refine ⟨hquiet, s, hs, halways.mpr fun _ => rfl, ?_⟩
  cases hs
  decide +kernel

/-- No read of a file fails, and closing it fails in a way that would count as the end. The call
that finishes the scanner answers no token. -/
theorem not_alwaysAnswers_failing :
    (∀ f, .fault f ∉ failingFile.items) ∧ failingFile.thereafter = none ∧
      (∀ f ∈ failingFile.closing, f.endsInput = true) ∧
      ∃ s, Scanner.ofStream failingFile unnamedSource true = .ok s ∧
        callsAll [.next, .next, .next] { scanner := s } =
          [.ok ⟨.identifier, "a", 1, 1, 0, unnamedSource⟩, .error (.device "flush failed"),
            .ok (.sentinel unnamedSource ⟨1, 2, 1⟩)] ∧
        (after { scanner := s } [.next]).finished = false ∧
        (after { scanner := s } [.next, .next]).finished = true ∧ ¬ s.AlwaysAnswers := by
  obtain ⟨s, hs⟩ : ∃ s, Scanner.ofStream failingFile unnamedSource true = .ok s := ⟨_, rfl⟩
  have hcalls : callsAll [.next, .next, .next] { scanner := s } =
      [.ok ⟨.identifier, "a", 1, 1, 0, unnamedSource⟩, .error (.device "flush failed"),
        .ok (.sentinel unnamedSource ⟨1, 2, 1⟩)] := by
    cases hs
    decide +kernel
  refine ⟨by simp [failingFile], rfl, ?_, s, hs, hcalls, ?_, ?_, fun halways => ?_⟩
  · rintro f ⟨⟩
    rfl
  · cases hs
    decide +kernel
  · cases hs
    decide +kernel
  · obtain ⟨hok, -⟩ := halways 3
    change ∀ call ∈ callsAll [.next, .next, .next] { scanner := s }, _ at hok
    rw [hcalls] at hok
    obtain ⟨t, ht⟩ := hok (.error (.device "flush failed")) (by simp)
    cases ht

end Session

end KayLex
