import KayLex.Proofs.Scanner.Tokens

/-!
A scanner that is asked again and again. `Served` relates what has been delivered to
the list of all tokens of the text: the tokens are as many from the front of the list
as the scanner has counted, and the scanner stands behind them. The scan ends when the
sentinel is answered or when somebody closes the scanner; from then on it stays where
it is, and all that it answers is the sentinel.
-/

namespace KayLex

namespace Scanner

/-! ### What has been served

The lexemes `found` of a text that ends at `last`, the tokens `ts` that have been
delivered of them, and whether the scanner has been closed. -/

/-- Tokens have been delivered, in order and each once, and the scanner stands behind them. -/
structure Served (found : List Found) (last : Position) (source : String) (closed : Bool)
    (ts : List Token) (s : Scanner) : Prop where
  name : s.cursor.name = source
  count_le : s.count ≤ found.length
  tokens : ts.filter (!·.isEnd) = (found.take s.count).map (Found.token source)
  sentinels : ∀ t ∈ ts, t.isEnd = true → t = s.sentinel
  state : (Pending s (found.drop s.count) last ∧ closed = false ∧ ∀ t ∈ ts, t.isEnd = false) ∨
    (Over s ∧ (closed = true ∨ s.count = found.length))

section Served

variable {found : List Found} {last : Position} {source : String} {closed : Bool}
  {ts : List Token} {s s' : Scanner}

theorem served_ofText (text source : String) :
    Served (Grammar.lexemesFrom {} text.toList).1 (Grammar.lexemesFrom {} text.toList).2 source
      false [] (ofText text source) := by
  have hnone : ∀ t ∈ ([] : List Token), t.isEnd = false := by
    intro t ht
    cases ht
  refine ⟨rfl, Nat.zero_le _, rfl, ?_, .inl ⟨pending_ofText text source, rfl, hnone⟩⟩
  intro t ht
  cases ht

/-- Once the scan has ended it stays where it is, and all that is delivered is the sentinel. -/
theorem Served.of_over (h : Served found last source closed ts s) (hs' : Over s')
    (hsentinel : s'.sentinel = s.sentinel) (hcount : s'.count = s.count) {us : List Token}
    (hus : ∀ t ∈ us, t = s.sentinel) {closed' : Bool}
    (hdone : closed' = true ∨ s.count = found.length) :
    Served found last source closed' (ts ++ us) s' := by
  have hnone : us.filter (!·.isEnd) = [] := by
    rw [List.filter_eq_nil_iff]
    intro t ht
    rw [hus t ht, sentinel, Token.isEnd_sentinel]
    exact Bool.false_ne_true
  refine ⟨?_, ?_, ?_, ?_, .inr ⟨hs', ?_⟩⟩
  · exact (congrArg Token.source hsentinel).trans h.name
  · rw [hcount]
    exact h.count_le
  · rw [List.filter_append, hnone, List.append_nil, hcount]
    exact h.tokens
  · intro t ht hend
    rw [hsentinel]
    rcases List.mem_append.mp ht with ht | ht
    · exact h.sentinels t ht hend
    · exact hus t ht
  · rwa [hcount]

theorem Pending.filter_tokens {more : List Found} (h : Pending s more last) (source : String) :
    (more.map (Found.token source)).filter (!·.isEnd) = more.map (Found.token source) := by
  rw [List.filter_eq_self]
  intro t ht
  obtain ⟨x, hx, rfl⟩ := List.mem_map.mp ht
  rw [h.isEnd_token hx, Bool.not_false]

theorem Served.take (h : Served found last source closed ts s) {x : Found} {more : List Found}
    (hmore : found.drop s.count = x :: more) (hpending : Pending s (x :: more) last)
    (hclosed : closed = false) (hends : ∀ t ∈ ts, t.isEnd = false) (hs' : Pending s' more last)
    (hname : s'.cursor.name = source) (hcount : s'.count = s.count + 1) :
    Served found last source closed (ts ++ [x.token source]) s' := by
  have hlt : s.count < found.length := by
    have := congrArg List.length hmore
    rw [List.length_drop, List.length_cons] at this
    omega
  have hx : found[s.count] = x ∧ found.drop (s.count + 1) = more := by
    rw [List.drop_eq_getElem_cons hlt] at hmore
    exact List.cons.inj hmore
  have hend := hpending.isEnd_token (List.mem_cons_self ..) source
  have hends' : ∀ t ∈ ts ++ [x.token source], t.isEnd = false := by
    intro t ht
    rcases List.mem_append.mp ht with ht | ht
    · exact hends t ht
    · rw [List.mem_singleton.mp ht]
      exact hend
  refine ⟨hname, ?_, ?_, ?_, .inl ⟨?_, hclosed, hends'⟩⟩
  · omega
  · rw [List.filter_append, h.tokens, hcount, List.take_add_one, List.getElem?_eq_getElem hlt, hx.1]
    simp [hend]
  · intro t ht htend
    rw [hends' t ht] at htend
    cases htend
  · rw [hcount, hx.2]
    exact hs'

theorem Served.finish (h : Served found last source closed ts s)
    (hpending : Pending s (found.drop s.count) last) (hends : ∀ t ∈ ts, t.isEnd = false)
    (hs' : Over s') (hsentinel : s'.sentinel = .sentinel source last)
    (hcount : s'.count = s.count + (found.drop s.count).length) :
    Served found last source closed
      (ts ++ ((found.drop s.count).map (Found.token source) ++ [.sentinel source last])) s' := by
  have hle := h.count_le
  -- What had been delivered and what was left make up the whole list.
  have hall : s'.count = found.length := by
    rw [hcount, List.length_drop]
    omega
  refine ⟨congrArg Token.source hsentinel, Nat.le_of_eq hall, ?_, ?_, .inr ⟨hs', .inr hall⟩⟩
  · rw [List.filter_append, List.filter_append, h.tokens, hpending.filter_tokens, hall,
      List.take_length, ← List.append_assoc, ← List.map_append, List.take_append_drop]
    simp
  · intro t ht hend
    rw [hsentinel]
    rcases List.mem_append.mp ht with ht | ht
    · rw [hends t ht] at hend
      cases hend
    rcases List.mem_append.mp ht with ht | ht
    · obtain ⟨x, hx, rfl⟩ := List.mem_map.mp ht
      rw [hpending.isEnd_token hx] at hend
      cases hend
    · exact List.mem_singleton.mp ht

/-! ### What consumers do to it -/

theorem Served.close (h : Served found last source closed ts s) :
    ∃ s', onCursor Cursor.close s = .ok () s' ∧ Served found last source true ts s' ∧
      s'.sentinel = s.sentinel := by
  have hclose : ∃ more stop, Pending s more stop := by
    rcases h.state with ⟨hpending, -⟩ | ⟨hover, -⟩
    · exact ⟨_, _, hpending⟩
    · exact ⟨_, _, hover.pending⟩
  obtain ⟨more, stop, hpending⟩ := hclose
  obtain ⟨s', hclose, hover, hsentinel, hcount⟩ := close_of_pending hpending
  refine ⟨s', hclose, ?_, hsentinel⟩
  rw [← List.append_nil ts]
  exact h.of_over hover hsentinel hcount (fun t ht => by cases ht) (.inl rfl)

theorem Served.next (h : Served found last source closed ts s) :
    ∃ t s', Scanner.next s = .ok t s' ∧ Served found last source closed (ts ++ [t]) s' := by
  rcases h.state with ⟨hpending, hclosed, hends⟩ | ⟨hover, hdone⟩
  · cases hmore : found.drop s.count with
    | nil =>
        have hempty : Pending s [] last := by rwa [← hmore]
        obtain ⟨s', hnext, hover, hsentinel, hcount⟩ := next_of_pending_nil hempty
        rw [h.name] at hnext hsentinel
        have hserved := h.finish hpending hends hover hsentinel (by rw [hmore]; exact hcount)
        rw [hmore] at hserved
        exact ⟨_, s', hnext, hserved⟩
    | cons x more =>
        rw [hmore] at hpending
        obtain ⟨s', hnext, hs', hname, hcount⟩ := next_of_pending_cons hpending
        rw [h.name] at hnext hname
        exact ⟨_, s', hnext, h.take hmore hpending hclosed hends hs' hname hcount⟩
  · obtain ⟨s', hnext, hover', hsentinel, hcount⟩ := next_of_over hover
    exact ⟨_, s', hnext,
      h.of_over hover' hsentinel hcount (fun t ht => List.mem_singleton.mp ht) hdone⟩

theorem Served.drain (h : Served found last source closed ts s) :
    ∃ us, s.drain.all = .ok us ∧
      Served found last source closed (ts ++ us) s.drain.scanner := by
  rcases h.state with ⟨hpending, -, hends⟩ | ⟨hover, hdone⟩
  · obtain ⟨s', hdrain, hover, hsentinel, hcount⟩ := drain_of_pending hpending
    rw [h.name] at hdrain hsentinel
    rw [hdrain]
    exact ⟨_, rfl, h.finish hpending hends hover hsentinel hcount⟩
  · obtain ⟨s', hdrain, hover', hsentinel, hcount⟩ := drain_of_pending hover.pending
    rw [hdrain]
    exact ⟨_, rfl,
      h.of_over hover' hsentinel hcount (fun t ht => List.mem_singleton.mp ht) hdone⟩

end Served

end Scanner

end KayLex
