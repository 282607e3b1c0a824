import KayLex.Proofs.Counting
import KayLex.Proofs.Cursor.Tracking
import KayLex.Proofs.Scanner.Yields

/-!
Scans that are interrupted. A read may fail at any moment in a way that goes to the caller, in
the middle of a word, of an operator or of a comment, and the caller may go on. What was passed
of a lexeme that was interrupted is lost, but nothing is answered twice: the texts of all
answers lie one behind the other in what the stream has delivered. What does not survive is
the position, which is off by one place more with each interruption.
-/

namespace KayLex

open Cursor Reading KayLex.Action

/-! ### Scanners -/

/-- The texts that tokens show of the input. The sentinel shows none of it. -/
def textsOf (ts : List Token) : List (List Char) := (ts.filter (!·.isEnd)).map (·.lexeme.toList)

theorem textsOf_append (ts us : List Token) : textsOf (ts ++ us) = textsOf ts ++ textsOf us := by
  rw [textsOf, List.filter_append, List.map_append]
  rfl

theorem textsOf_of_isEnd {t : Token} (h : t.isEnd = true) : textsOf [t] = [] := by
  simp [textsOf, h]

namespace Scanner

variable {s s' : Scanner} {t : Token} {ts : List Token}

theorem takes_of_next (h : next s = .ok t s') : Takes (textsOf [t]) s.cursor s'.cursor := by
  have hreaches := reaches_next s
  cases ht : t.isEnd with
  | true =>
      rw [h] at hreaches
      rw [textsOf_of_isEnd ht]
      exact hreaches.takes
  | false =>
      rw [next_apply] at h
      split at h
      · cases h
        cases ht
      · split at h
        · next x k hfound =>
          have hanswer := reaches_answer x { s with cursor := k }
          have htexts : textsOf [x.token k.name] = [x.lexeme] := by
            simp [textsOf, Found.token, Token.isEnd, kind_of_found hfound]
          cases h
          rw [htexts]
          exact (takes_of_found hfound).reaches hanswer
        · obtain rfl := eq_sentinel_of_finish h
          cases ht
        · cases h

/-- A run: the cursor has passed the texts of all tokens that are found on the way to the end. -/
theorem takes_drainFrom (found : List Token) (s : Scanner) :
    ∃ ts, (drainFrom found s).tokens = found.reverse ++ ts ∧
      Takes (textsOf ts) s.cursor (drainFrom found s).scanner.cursor := by
  have hnext {s s' : Scanner} {t : Token} (h : next s = .ok t s') := takes_of_next h
  have hlast {s s' : Scanner} (h : left (next s) = s') : Takes (textsOf []) s.cursor s'.cursor := by
    rw [← h]
    exact (reaches_next s).takes
  fun_induction drainFrom found s with
  | case1 found s f s' h => exact ⟨[], (List.append_nil _).symm, hlast (congrArg left h)⟩
  | case2 found s t s' h ht => exact ⟨[], (List.append_nil _).symm, hlast (congrArg left h)⟩
  | case3 found s t s' h ht ih =>
      obtain ⟨ts, htokens, htakes⟩ := ih
      refine ⟨t :: ts, by simp [htokens], ?_⟩
      rw [← List.singleton_append, textsOf_append]
      exact (hnext h).trans htakes

theorem takes_of_all (h : s.drain.all = .ok ts) :
    Takes (textsOf ts) s.cursor s.drain.scanner.cursor := by
  obtain ⟨us, htokens, htakes⟩ := takes_drainFrom [] s
  obtain ⟨-, hfound, -⟩ := drain_of_all h
  have hus : us = ts.filter (!·.isEnd) := htokens.symm.trans hfound
  have htexts : textsOf us = textsOf ts := by
    rw [hus, textsOf, textsOf, List.filter_filter]
    simp only [Bool.and_self]
  rwa [htexts] at htakes

end Scanner

/-! ### Sessions -/

/-- The texts that a reply to a request answers: those of its tokens, those that were passed for
the asking, and the one that was asked for and accepted. -/
def Request.taken : Request → Reply → List (List Char)
  | .accept text, .flag true => [text]
  | _, .chars cs => [cs]
  | _, reply => textsOf reply.delivered

/-- The texts that requests are answered with. Where there is a failure there is no answer. -/
def Request.takenAll : List Request → List (Except Failure Reply) → List (List Char)
  | r :: rs, .ok reply :: replies => r.taken reply ++ takenAll rs replies
  | _ :: rs, .error _ :: replies => takenAll rs replies
  | _, _ => []

namespace Session

open Request

variable {σ : Stream} {name : String} {owned : Bool} {s s' : Session} {s₀ : Scanner}
  {r : Request} {rs : List Request} {reply : Reply}

theorem takes_of_onCursor {α : Type} {x : Reading α} {a : α} {text : α → List Char}
    (hx : Yields [] x text) (h : onCursor x s = .ok a s') :
    ∃ passed, Walk s.scanner.cursor passed s'.scanner.cursor ∧ text a = passed := by
  obtain ⟨scanner, hscanner, rfl⟩ := onScanner_ok.mp h
  obtain ⟨k, hk, rfl⟩ := Scanner.onCursor_ok.mp hscanner
  exact hx hk

/-- A step: what a request is answered with has been passed for it. -/
theorem takes_of_serve (hr : r.leavesText = true) (h : serve r s = .ok reply s') :
    Takes (r.taken reply) s.scanner.cursor s'.scanner.cursor := by
  have hreaches := reaches_serve hr s
  rw [h] at hreaches
  cases r with
  | next =>
      obtain ⟨t, hserve, rfl⟩ := map_ok.mp h
      obtain ⟨scanner, hnext, rfl⟩ := onScanner_ok.mp hserve
      exact Scanner.takes_of_next hnext
  | all =>
      rw [serve, all] at h
      split at h
      · next ts hall =>
        cases h
        exact Scanner.takes_of_all hall
      · cases h
  | openFeed =>
      cases h
      exact hreaches.takes
  | close =>
      obtain ⟨_, _, -, hpure⟩ := bind_ok.mp h
      cases hpure
      exact hreaches.takes
  | pull feed =>
      rw [serve, pull] at h
      split at h
      · split at h
        · next t s₁ hserve =>
          obtain ⟨scanner, hnext, rfl⟩ := onScanner_ok.mp hserve
          have htakes := Scanner.takes_of_next hnext
          cases h
          split <;> exact htakes
        · cases h
      · cases h
        exact hreaches.takes
  | advance n =>
      obtain ⟨cs, hadvance, rfl⟩ := map_ok.mp h
      obtain ⟨passed, hwalk, rfl⟩ := takes_of_onCursor (yields_advanceBy n []) hadvance
      exact hwalk.takes
  | accept text =>
      obtain ⟨both, haccept, rfl⟩ := map_ok.mp h
      obtain ⟨passed, hwalk, rfl⟩ := takes_of_onCursor (yields_acceptText text) haccept
      cases both with
      | true => exact hwalk.takes
      | false => exact hreaches.takes
  | replace text => cases hr

/-- A run: so has all that any number of requests are answered with, failures between them or
not. -/
theorem takes_serveAll (hrs : ∀ r ∈ rs, r.leavesText = true) (s : Session) :
    Takes (takenAll rs (serveAll rs s).1) s.scanner.cursor (s.after rs).cursor := by
  induction rs generalizing s with
  | nil => exact (Reaches.refl _).takes
  | cons r rs ih =>
      have hr := hrs r (List.mem_cons_self ..)
      have hrest := ih fun q hq => hrs q (List.mem_cons_of_mem r hq)
      have hreaches := reaches_serve hr s
      rw [after_cons, serveAll]
      cases hserve : serve r s with
      | ok reply s' => exact (takes_of_serve hr hserve).trans (hrest s')
      | error f s' =>
          rw [hserve] at hreaches
          exact (hrest s').after hreaches

/-- Interruptions cost the position and nothing else. Whatever is asked of the scanner of a
stream, and however often a read fails for the caller on the way, the cursor has passed the
characters that were delivered, each once, and shows the last of them or the end; the texts
that were answered lie in turn in what has been passed. The position is that behind the
characters which were shown at each of the reads: it is ahead by as many places as reads have
failed, so it describes the character that is shown only as long as none has. -/
theorem passes_delivered_once (h : Scanner.ofStream σ name owned = .ok s₀) (rs : List Request)
    (hrs : ∀ r ∈ rs, r.leavesText = true) :
    let k := (after { scanner := s₀ } rs).cursor
    ∃ n passed, k.stream.reads = σ.reads + n ∧ passed <+: σ.delivered n ∧
      InTurn (takenAll rs (serveAll rs { scanner := s₀ }).1) passed ∧
      (k.current = none ∨ ∃ c, k.current = some (.single c) ∧ σ.delivered n = passed ++ [c]) ∧
      k.position = ({} : Position).afterAll (σ.moved n) ∧
      k.position.offset = passed.length + σ.raised n ∧
      (k.position = ({} : Position).afterAll passed ↔ σ.raised n = 0) ∧
      ∀ c, k.current = some (.single c) →
        ((σ.delivered n)[k.position.offset]? = some c ↔ σ.raised n = 0) := by
  intro k
  obtain ⟨k₀, hstart, rfl⟩ := exists_start_of_ofStream h
  obtain ⟨passed, hwalk, hturn⟩ := takes_serveAll hrs { scanner := ⟨k₀, false, 0⟩ }
  obtain ⟨n, hk⟩ := (tracks_of_start hstart).walk hwalk
  refine ⟨n, passed, hk.stream.reads_eq, hk.isPrefix, hturn, ?_, hk.position_eq, hk.offset_eq,
    hk.position_eq_iff, fun c hc => hk.getElem?_offset_iff hc⟩
  rcases hk.shows with hnone | ⟨c, hc, -, -, hdelivered⟩
  · exact .inl hnone
  · exact .inr ⟨c, hc, hdelivered⟩

/-- A word is interrupted behind its second character, and the rest of it is taken later. -/
theorem passes_delivered_once_resumed :
    let σ : Stream := { items := [.char 'a', .char 'b', .fault (.badState "boom"), .char 'c'] }
    ∃ s, Scanner.ofStream σ "pipe" true = .ok s ∧
      (serveAll [.next, .next] { scanner := s }).1 =
        [.error (.badState "boom"), .ok (.token ⟨.identifier, "bc", 1, 3, 2, "pipe"⟩)] ∧
      ∃ n passed, passed <+: σ.delivered n ∧ InTurn [['b', 'c']] passed ∧
        (after { scanner := s } [.next, .next]).cursor.position.offset =
          passed.length + σ.raised n := by
  intro σ
  obtain ⟨s, hs⟩ : ∃ s, Scanner.ofStream σ "pipe" true = .ok s := ⟨_, rfl⟩
  have hreplies : (serveAll [.next, .next] { scanner := s }).1 =
      [.error (.badState "boom"), .ok (.token ⟨.identifier, "bc", 1, 3, 2, "pipe"⟩)] := by
    cases hs
    decide +kernel
  obtain ⟨n, passed, -, hpassed, hturn, -, -, hoffset, -⟩ :=
    passes_delivered_once hs [.next, .next] (by decide)
  rw [hreplies] at hturn
  exact ⟨s, hs, hreplies, n, passed, hpassed, hturn, hoffset⟩

/-- An interrupted stream has delivered one character, and the cursor that shows it has the offset
of a second one. -/
theorem position_ne_of_interrupted :
    let σ : Stream := { items := [.char 'a', .fault (.badState "boom"), .char 'b'] }
    ∃ s, Scanner.ofStream σ = .ok s ∧
      (serveAll [.advance 1] { scanner := s }).1 = [.error (.badState "boom")] ∧
      let k := (after { scanner := s } [.advance 1]).cursor
      k.stream.reads = 2 ∧ σ.delivered 2 = ['a'] ∧ k.current = some (.single 'a') ∧
        k.position = ⟨1, 2, 1⟩ ∧
        ¬ (k.current = none ∨
          ∃ c, k.current = some (.single c) ∧ (σ.delivered 2)[k.position.offset]? = some c) := by
  intro σ
  obtain ⟨s, hs⟩ : ∃ s, Scanner.ofStream σ = .ok s := ⟨_, rfl⟩
  refine ⟨s, hs, ?_⟩
  cases hs
  refine ⟨by decide +kernel, rfl, rfl, rfl, rfl, ?_⟩
  rintro (hnone | ⟨c, -, hget⟩)
  · cases hnone
  · cases hget

end Session

end KayLex
