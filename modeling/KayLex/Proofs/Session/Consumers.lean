import KayLex.Proofs.Session.Served
import KayLex.Session

/-!
Consumers that share a scanner. Whoever asks, and in whatever order, takes the next
token off the one list that the text has; a feed remembers nothing but whether it
can still give tokens. So a request of a consumer is a step of the scanner, and what
holds of the scanner between two steps holds between any two requests.
-/

namespace KayLex

/-! ### Consumers -/

/-- Whether a request comes from a consumer of tokens, who leaves the cursor alone. -/
def Request.isConsumer : Request → Bool
  | next | all | openFeed | pull _ | close => true
  | advance _ | accept _ | replace _ => false

def Reply.delivered : Reply → List Token
  | token t => [t]
  | tokens ts => ts
  | chars _ | flag _ | nothing => []

def delivered : List (Except Failure Reply) → List Token
  | [] => []
  | .ok reply :: rest => reply.delivered ++ delivered rest
  | .error _ :: rest => delivered rest

theorem delivered_append (replies later : List (Except Failure Reply)) :
    delivered (replies ++ later) = delivered replies ++ delivered later := by
  induction replies with
  | nil => rfl
  | cons reply replies ih => cases reply <;> simp [delivered, ih]

/-! ### Requests -/

namespace Session

open Scanner

variable {found : List Found} {last : Position} {source : String} {closed : Bool}
  {ts : List Token} {s : Session} {r : Request} {rs : List Request}

theorem onScanner_ok {α : Type} {x : Scanning α} {s' : Session} {a : α} :
    onScanner x s = .ok a s' ↔
      ∃ scanner, x s.scanner = .ok a scanner ∧ s' = { s with scanner } := by
  rw [onScanner]
  cases x s.scanner with
  | ok b scanner =>
      constructor
      · rintro ⟨⟩
        exact ⟨scanner, rfl, rfl⟩
      · rintro ⟨_, ⟨⟩, rfl⟩
        rfl
  | error f scanner => simp

/-! #### What each request comes to -/

theorem serve_next {t : Token} {scanner : Scanner} (h : Scanner.next s.scanner = .ok t scanner) :
    serve .next s = .ok (.token t) { s with scanner } :=
  Action.map_ok.mpr ⟨t, onScanner_ok.mpr ⟨scanner, h, rfl⟩, rfl⟩

theorem serve_all {us : List Token} (h : s.scanner.drain.all = .ok us) :
    serve .all s = .ok (.tokens us) { s with scanner := s.scanner.drain.scanner } := by
  rw [serve, all, h]

theorem serve_pull {t : Token} {scanner : Scanner} {feed : Nat} (hopen : s.isOpen feed = true)
    (h : Scanner.next s.scanner = .ok t scanner) :
    ∃ s', serve (.pull feed) s = .ok (.token t) s' ∧ s'.scanner = scanner := by
  rw [serve, pull, if_pos hopen, onScanner_ok.mpr ⟨scanner, h, rfl⟩]
  refine ⟨_, rfl, ?_⟩
  split <;> rfl

theorem serve_pull_of_not_open {feed : Nat} (hopen : s.isOpen feed = false) :
    serve (.pull feed) s = .ok .nothing s := by
  rw [serve, pull, if_neg (by simp [hopen])]

theorem serve_close {scanner : Scanner}
    (h : Scanner.onCursor Cursor.close s.scanner = .ok () scanner) :
    serve .close s = .ok .nothing { s with scanner } := by
  rw [serve, Action.bind_apply, onCursor, onScanner_ok.mpr ⟨scanner, h, rfl⟩]
  rfl

/-- A step: whatever a consumer asks for, the scanner stays behind what was delivered. -/
theorem served_serve (hr : r.isConsumer = true)
    (h : Served found last source closed ts s.scanner) :
    ∃ reply s', serve r s = .ok reply s' ∧
      Served found last source (closed || r = .close) (ts ++ reply.delivered) s'.scanner := by
  have hsame {us : List Token} {scanner : Scanner}
      (hserved : Served found last source closed us scanner) (hne : r ≠ .close) :
      Served found last source (closed || r = .close) us scanner := by
    rwa [decide_eq_false hne, Bool.or_false]
  cases r with
  | next =>
      obtain ⟨t, scanner, hnext, hserved⟩ := h.next
      exact ⟨_, _, serve_next hnext, hsame hserved (by simp)⟩
  | all =>
      obtain ⟨us, hdrain, hserved⟩ := h.drain
      exact ⟨_, _, serve_all hdrain, hsame hserved (by simp)⟩
  | openFeed =>
      rw [← List.append_nil ts] at h
      exact ⟨_, _, rfl, hsame h (by simp)⟩
  | pull feed =>
      cases hopen : s.isOpen feed with
      | true =>
          obtain ⟨t, scanner, hnext, hserved⟩ := h.next
          obtain ⟨s', hserve, hs'⟩ := serve_pull hopen hnext
          rw [← hs'] at hserved
          exact ⟨_, _, hserve, hsame hserved (by simp)⟩
      | false =>
          rw [← List.append_nil ts] at h
          exact ⟨_, _, serve_pull_of_not_open hopen, hsame h (by simp)⟩
  | close =>
      obtain ⟨scanner, hclose, hserved, -⟩ := h.close
      rw [← List.append_nil ts] at hserved
      refine ⟨_, _, serve_close hclose, ?_⟩
      rwa [decide_eq_true rfl, Bool.or_true]
  | advance | accept | replace => cases hr

/-- Requests go on in the state that a request has left, failure or not. -/
theorem serveAll_cons (r : Request) (rs : List Request) (s : Session) :
    serveAll (r :: rs) s =
      (Action.told (serve r s) :: (serveAll rs (Action.left (serve r s))).1,
        (serveAll rs (Action.left (serve r s))).2) := by
  rw [serveAll]
  cases serve r s <;> rfl

theorem serveAll_append (qs rs : List Request) (s : Session) :
    serveAll (qs ++ rs) s =
      ((serveAll qs s).1 ++ (serveAll rs (serveAll qs s).2).1,
        (serveAll rs (serveAll qs s).2).2) := by
  induction qs generalizing s with
  | nil => rfl
  | cons q qs ih => rw [List.cons_append, serveAll_cons, ih, serveAll_cons, List.cons_append]

/-- A run: so it stays over any number of requests, and none of them fails. -/
theorem served_serveAll (hrs : ∀ r ∈ rs, r.isConsumer = true)
    (h : Served found last source closed ts s.scanner) :
    (∀ reply ∈ (serveAll rs s).1, ∃ a, reply = .ok a) ∧
      Served found last source (closed || .close ∈ rs) (ts ++ delivered (serveAll rs s).1)
        (serveAll rs s).2.scanner := by
  induction rs generalizing s closed ts with
  | nil =>
      refine ⟨fun reply hreply => (by cases hreply), ?_⟩
      simpa [serveAll, delivered] using h
  | cons r rs ih =>
      obtain ⟨reply, s', hserve, hserved⟩ := served_serve (hrs r (List.mem_cons_self ..)) h
      obtain ⟨hok, hrest⟩ := ih (fun q hq => hrs q (List.mem_cons_of_mem r hq)) hserved
      rw [serveAll, hserve]
      refine ⟨?_, ?_⟩
      · intro a ha
        rcases List.mem_cons.mp ha with rfl | ha
        · exact ⟨reply, rfl⟩
        · exact hok a ha
      · rw [List.append_assoc] at hrest
        have hclosed : (closed || decide (Request.close ∈ r :: rs)) =
            (closed || decide (r = .close) || decide (.close ∈ rs)) := by
          rw [Bool.or_assoc, ← Bool.decide_or]
          simp [List.mem_cons, eq_comm]
        rw [hclosed]
        exact hrest

/-! ### Behind the end -/

/-- What is left for consumers once the scan has ended: the sentinel, once for each feed. -/
def endedReply (s : Session) : Request → Reply
  | .next => .token s.scanner.sentinel
  | .all => .tokens [s.scanner.sentinel]
  | .pull feed => if s.isOpen feed then .token s.scanner.sentinel else .nothing
  | _ => .nothing

theorem serve_of_over (hr : r.isConsumer = true) (h : Over s.scanner) :
    ∃ s', serve r s = .ok (s.endedReply r) s' ∧ Over s'.scanner ∧
      s'.scanner.sentinel = s.scanner.sentinel ∧ s'.scanner.count = s.scanner.count := by
  cases r with
  | next =>
      obtain ⟨scanner, hnext, hscanner⟩ := next_of_over h
      exact ⟨_, serve_next hnext, hscanner⟩
  | all =>
      obtain ⟨scanner, hdrain, hscanner⟩ := drain_of_pending h.pending
      have hall : s.scanner.drain.all = .ok [s.scanner.sentinel] := by
        rw [hdrain]
        rfl
      refine ⟨_, serve_all hall, ?_⟩
      rw [hdrain]
      exact hscanner
  | openFeed => exact ⟨_, rfl, h, rfl, rfl⟩
  | pull feed =>
      rw [endedReply]
      cases hopen : s.isOpen feed with
      | true =>
          obtain ⟨scanner, hnext, hscanner⟩ := next_of_over h
          obtain ⟨s', hserve, rfl⟩ := serve_pull hopen hnext
          exact ⟨s', hserve, hscanner⟩
      | false => exact ⟨s, serve_pull_of_not_open hopen, h, rfl, rfl⟩
  | close =>
      obtain ⟨scanner, hclose, hscanner⟩ := close_of_pending h.pending
      exact ⟨_, serve_close hclose, hscanner⟩
  | advance | accept | replace => cases hr

theorem serveAll_of_over (hrs : ∀ r ∈ rs, r.isConsumer = true) (h : Over s.scanner) :
    (serveAll rs s).2.scanner.sentinel = s.scanner.sentinel ∧
      (serveAll rs s).2.scanner.count = s.scanner.count := by
  induction rs generalizing s with
  | nil => exact ⟨rfl, rfl⟩
  | cons r rs ih =>
      obtain ⟨s', hserve, hover, hsentinel, hcount⟩ :=
        serve_of_over (hrs r (List.mem_cons_self ..)) h
      rw [serveAll, hserve, ← hsentinel, ← hcount]
      exact ih (fun q hq => hrs q (List.mem_cons_of_mem r hq)) hover

/-! ### One list for all consumers -/

/-- What consumers of the tokens of a text get, and what they leave. -/
def run (text source : String) (rs : List Request) : List (Except Failure Reply) × Session :=
  serveAll rs { scanner := .ofText text source }

/-- Whether requests have ended the scan: one of them has closed the scanner, or been
answered with the sentinel. -/
def Ended (text source : String) (rs : List Request) : Prop :=
  .close ∈ rs ∨ ∃ t ∈ delivered (run text source rs).1, t.isEnd = true

theorem served_run (text source : String) (hrs : ∀ r ∈ rs, r.isConsumer = true) :
    (∀ reply ∈ (run text source rs).1, ∃ a, reply = .ok a) ∧
      Served (Grammar.lexemesFrom {} text.toList).1 (Grammar.lexemesFrom {} text.toList).2 source
        (.close ∈ rs) (delivered (run text source rs).1) (run text source rs).2.scanner := by
  have h := served_serveAll (s := { scanner := .ofText text source }) hrs
    (served_ofText text source)
  rw [List.nil_append, Bool.false_or] at h
  exact h

variable {text : String}

theorem over_of_ended (hrs : ∀ r ∈ rs, r.isConsumer = true) (h : Ended text source rs) :
    Over (run text source rs).2.scanner ∧ (.close ∉ rs → (run text source rs).2.scanner.count =
      (Grammar.lexemesFrom {} text.toList).1.length) := by
  rcases (served_run text source hrs).2.state with ⟨-, hclosed, hends⟩ | ⟨hover, hdone⟩
  · rcases h with hclose | ⟨t, ht, hend⟩
    · exact absurd hclose (of_decide_eq_false hclosed)
    · rw [hends t ht] at hend
      cases hend
  · exact ⟨hover, fun hclose => hdone.resolve_left (by simpa using hclose)⟩

theorem length_serveAll (rs : List Request) (s : Session) :
    (serveAll rs s).1.length = rs.length := by
  induction rs generalizing s with
  | nil => rfl
  | cons r rs ih => rw [serveAll_cons, List.length_cons, ih, List.length_cons]

theorem run_append (text source : String) (before after : List Request) :
    run text source (before ++ after) =
      ((run text source before).1 ++ (serveAll after (run text source before).2).1,
        (serveAll after (run text source before).2).2) :=
  serveAll_append before after _

theorem sentinel_run_close (hrs : ∀ r ∈ rs, r.isConsumer = true) :
    (run text source (rs ++ [.close])).2.scanner.sentinel =
      (run text source rs).2.scanner.sentinel := by
  obtain ⟨scanner, hclose, -, hsentinel⟩ := (served_run text source hrs).2.close
  rw [run_append, serveAll, serve_close hclose]
  exact hsentinel

theorem run_append_of_ended {before after : List Request}
    (hrs : ∀ r ∈ before ++ after, r.isConsumer = true) (h : Ended text source before) :
    (run text source (before ++ after)).2.scanner.sentinel =
        (run text source before).2.scanner.sentinel ∧
      (run text source (before ++ after)).2.scanner.count =
        (run text source before).2.scanner.count := by
  obtain ⟨hover, -⟩ := over_of_ended (fun r hr => hrs r (List.mem_append_left _ hr)) h
  rw [run_append]
  exact serveAll_of_over (fun r hr => hrs r (List.mem_append_right _ hr)) hover

theorem reply_of_ended {before rest : List Request} (hrs : ∀ r ∈ before, r.isConsumer = true)
    (hr : r.isConsumer = true) (h : Ended text source before) :
    (run text source (before ++ r :: rest)).1[before.length]? =
      some (.ok ((run text source before).2.endedReply r)) := by
  obtain ⟨hover, -⟩ := over_of_ended hrs h
  obtain ⟨s', hserve, -⟩ := serve_of_over hr hover
  have hlength : (run text source before).1.length = before.length := length_serveAll ..
  rw [run_append, serveAll, hserve, List.getElem?_append_right (Nat.le_of_eq hlength), hlength,
    Nat.sub_self]
  rfl

/-- Consumers share the tokens of a text: what is delivered to all of them together are the
first tokens of the text, in order and each once, and once the scan has ended only the
sentinel of the place where it ended is left for anybody. -/
theorem consumers_share_tokens (text source : String) (rs : List Request)
    (hrs : ∀ r ∈ rs, r.isConsumer = true) :
    (∀ reply ∈ (run text source rs).1, ∃ a, reply = .ok a) ∧
      (run text source rs).2.scanner.count ≤ (tokenize text source).dropLast.length ∧
      (delivered (run text source rs).1).filter (!·.isEnd) =
        (tokenize text source).dropLast.take (run text source rs).2.scanner.count ∧
      (∀ t ∈ delivered (run text source rs).1, t.isEnd = true →
        t = (run text source rs).2.scanner.sentinel) ∧
      (∀ before after, rs = before ++ .close :: after →
        (run text source rs).2.scanner.sentinel =
          (run text source before).2.scanner.sentinel) ∧
      ∀ before after, rs = before ++ after → Ended text source before →
        (run text source rs).2.scanner.sentinel =
            (run text source before).2.scanner.sentinel ∧
          (∀ r ∈ after.head?, (run text source rs).1[before.length]? =
            some (.ok ((run text source before).2.endedReply r))) ∧
          (.close ∉ before → (run text source rs).2.scanner.count =
            (tokenize text source).dropLast.length) := by
  obtain ⟨hok, hserved⟩ := served_run text source hrs
  rw [dropLast_tokenize, List.length_map]
  refine ⟨hok, hserved.count_le, ?_, hserved.sentinels, ?_, ?_⟩
  · rw [hserved.tokens, List.map_take]
  · rintro before after rfl
    have hbefore : ∀ r ∈ before, r.isConsumer = true :=
      fun r hr => hrs r (List.mem_append_left _ hr)
    have hended : Ended text source (before ++ [.close]) :=
      .inl (List.mem_append_right _ (List.mem_singleton_self _))
    rw [← List.singleton_append, ← List.append_assoc] at hrs ⊢
    rw [(run_append_of_ended hrs hended).1, sentinel_run_close hbefore]
  · rintro before after rfl hended
    have hbefore : ∀ r ∈ before, r.isConsumer = true :=
      fun r hr => hrs r (List.mem_append_left _ hr)
    obtain ⟨hsentinel, hcount⟩ := run_append_of_ended hrs hended
    refine ⟨hsentinel, ?_, ?_⟩
    · intro r hr
      obtain ⟨rest, rfl⟩ := List.head?_eq_some_iff.mp hr
      exact reply_of_ended hbefore (hrs r (List.mem_append_right _ (List.mem_cons_self ..))) hended
    · intro hclose
      exact hcount.trans ((over_of_ended hbefore hended).2 hclose)

/-- One feed and two direct calls, then the scanner is closed before its last token. -/
theorem consumers_share_tokens_closed :
    (∀ r ∈ [Request.openFeed, .pull 0, .next, .close, .all], r.isConsumer = true) ∧
      (run "a b c" "abc" [.openFeed, .pull 0, .next, .close, .all]).1[4]? =
        some (.ok ((run "a b c" "abc" [.openFeed, .pull 0, .next, .close]).2.endedReply .all)) := by
  have hrs : ∀ r ∈ [Request.openFeed, .pull 0, .next, .close, .all], r.isConsumer = true := by
    decide
  have hended : Ended "a b c" "abc" [.openFeed, .pull 0, .next, .close] := .inl (by decide)
  obtain ⟨-, -, -, -, -, hends⟩ := consumers_share_tokens "a b c" "abc" _ hrs
  exact ⟨hrs, (hends _ [.all] rfl hended).2.1 .all rfl⟩

end Session

end KayLex
