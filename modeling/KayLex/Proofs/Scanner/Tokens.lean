import KayLex.Proofs.Cursor.Steps
import KayLex.Proofs.Grammar.Lexemes
import KayLex.Proofs.Scanner.Lexemes

/-!
The tokens that a scanner has still to answer. They are the lexemes of the text ahead
of its cursor, as the grammar takes them apart; each call of `next` answers the first
of them and leaves the others, and when none is left it answers the sentinel from
then on, at the place where the cursor has come to.
-/

namespace KayLex

/-! ### The next lexeme -/

namespace Reading

open Cursor Grammar Text Lexicon

variable {p : Position} {cs : List Char}

theorem passes_found_none (h : skip cs = []) : Passes p found cs none [] := by
  obtain ⟨gap, hcs, ⟨rest, hslash, -⟩ | ⟨-, hgap⟩⟩ := gapPassed p cs
  · rw [h] at hslash
    cases hslash
  · rw [h] at hcs hgap
    rw [List.append_nil] at hcs
    rw [hcs]
    exact hgap.bind_nil (.get fun k _ => passes_advance_end.bind_nil (.pure none))

theorem passes_found_slash {gap rest : List Char}
    (hgap : Passes p passGap (gap ++ ['/']) (some (p.afterAll gap)) rest) :
    Passes p found (gap ++ ['/']) (some ⟨p.afterAll gap, .operator, ['/']⟩) rest :=
  hgap.bind_nil (.pure _)

theorem passes_found_lexeme {gap tail beyond : List Char} {c : Char} {kind : Kind}
    (hgap : Passes p passGap gap none (c :: (tail ++ beyond)))
    (hlexeme : Passes ((p.afterAll gap).after c) (lexeme (.single c)) tail (kind, c :: tail)
      beyond) :
    Passes p found (gap ++ c :: tail) (some ⟨p.afterAll gap, kind, c :: tail⟩) beyond := by
  refine Passes.bind hgap (.get fun k hk => ?_)
  rw [hk, ← List.singleton_append]
  exact (passes_advance c).bind (hlexeme.bind_nil (.pure _))

/-! One call of `found` takes one lexeme off those that the grammar finds. -/

theorem passes_found_of_nil {last : Position} (h : lexemesFrom p cs = ([], last)) :
    last = p.afterAll cs ∧ Passes p found cs none [] := by
  rcases lexemesFrom_cases p cs with
    ⟨-, hskip, heq⟩ | ⟨gap, kind, c, tail, beyond, -, -, -, -, -, heq⟩
  · rw [heq] at h
    cases h
    exact ⟨rfl, passes_found_none hskip⟩
  · rw [heq] at h
    cases h

theorem passes_found_of_cons {x : Found} {more : List Found} {last : Position}
    (h : lexemesFrom p cs = (x :: more, last)) :
    ∃ gap rest, cs = gap ++ x.lexeme ++ rest ∧ x.start = p.afterAll gap ∧
      lexemesFrom (p.afterAll (gap ++ x.lexeme)) rest = (more, last) ∧
      Passes p found (gap ++ x.lexeme) (some x) rest := by
  rcases lexemesFrom_cases p cs with
    ⟨-, -, heq⟩ | ⟨gap, kind, c, tail, beyond, hcs, -, hskip, -, hlongest, heq⟩
  · rw [heq] at h
    cases h
  · rw [heq] at h
    cases h
    refine ⟨gap, beyond, by simp [hcs], rfl, rfl, ?_⟩
    obtain ⟨gap', hgap', hround⟩ := gapPassed p cs
    have hsame : gap' = gap := by
      rw [hskip] at hgap'
      exact List.append_cancel_right (hgap'.symm.trans hcs)
    subst hsame
    rcases hround with ⟨rest, hslash, hpasses⟩ | ⟨hslash, hpasses⟩
    · -- A lone slash has been passed with the gap, and it is the whole lexeme.
      rw [hskip] at hslash
      obtain ⟨rfl, hrest⟩ := List.cons.inj hslash
      rw [longest_slash] at hlongest
      cases hlongest
      rw [List.nil_append] at hrest
      rw [hrest]
      exact passes_found_slash hpasses
    · rw [hskip] at hslash hpasses
      have hc : c ≠ '/' := fun hc => hslash (by rw [hc, List.head?_cons])
      obtain ⟨kind', tail', beyond', hrest, hlongest', hlexeme⟩ :=
        (completes_lexeme hc : Completes ((p.afterAll gap').after c) _ c (tail ++ beyond))
      rw [hlongest] at hlongest'
      cases hlongest'
      cases List.append_cancel_left hrest
      exact passes_found_lexeme hpasses hlexeme

end Reading

/-! ### What a scanner has still to answer -/

namespace Scanner

open Cursor Grammar Reading

variable {s : Scanner} {x : Found} {more : List Found} {last : Position}

/-- Ahead of the scanner are the lexemes `more`, and the text ends at `last`. -/
structure Facing (s : Scanner) (more : List Found) (last : Position) : Prop where
  ahead : ∃ cs, s.cursor.Ahead cs ∧ lexemesFrom s.cursor.position cs = (more, last)
  finished : s.finished = true → s.cursor.current = none

theorem facing_of_ahead {cs : List Char} (hahead : s.cursor.Ahead cs)
    (hfinished : s.finished = false) :
    Facing s (lexemesFrom s.cursor.position cs).1 (s.cursor.position.afterAll cs) := by
  refine ⟨⟨cs, hahead, Prod.ext rfl (last_lexemesFrom _ _)⟩, fun hf => ?_⟩
  rw [hfinished] at hf
  cases hf

/-- Closing the stream of a cursor, where the cursor does that, does not fail. -/
def Releases (k : Cursor) : Prop := k.owned = true → k.stream.closing = none

theorem Releases.of_frame {k k' : Cursor} (h : Releases k) (hframe : SameFrame k k') :
    Releases k' := by
  rw [Releases, hframe.owned_eq, hframe.closing_eq]
  exact h

/-- Lexemes are ahead of the scanner, and it will end its scan without a failure. -/
structure Pending (s : Scanner) (more : List Found) (last : Position) : Prop
    extends Facing s more last where
  releases : Releases s.cursor

/-- Nothing is ahead of the scanner. -/
structure Over (s : Scanner) : Prop where
  current : s.cursor.current = none
  releases : Releases s.cursor

theorem Over.pending (h : Over s) : Pending s [] s.cursor.position := by
  refine ⟨⟨⟨[], h.current, ?_⟩, fun _ => h.current⟩, h.releases⟩
  rw [lexemesFrom_of_gap (by simp), Position.afterAll_nil]

/-! ### Closing -/

theorem exists_close {k : Cursor} (hcurrent : k.closed = true → k.current = none)
    (hreleases : Releases k) :
    ∃ k', Cursor.close k = .ok () k' ∧ k'.current = none ∧ k'.name = k.name ∧
      k'.position = k.position ∧ Releases k' := by
  unfold Cursor.close
  split
  · next hclosed => exact ⟨k, rfl, hcurrent hclosed, rfl, rfl, hreleases⟩
  · dsimp only
    split
    · next howned =>
      have hclosing := hreleases howned
      rw [Stream.close, hclosing]
      exact ⟨_, rfl, rfl, rfl, rfl, fun _ => rfl⟩
    · exact ⟨_, rfl, rfl, rfl, rfl, hreleases⟩

theorem Ahead.current_of_closed {k : Cursor} {cs : List Char} (h : k.Ahead cs)
    (hclosed : k.closed = true) : k.current = none := by
  cases cs with
  | nil => exact h
  | cons c cs =>
      rw [h.2.1] at hclosed
      cases hclosed

theorem Ahead.eq_nil {k : Cursor} {cs : List Char} (h : k.Ahead cs)
    (hcurrent : k.current = none) : cs = [] := by
  cases cs with
  | nil => rfl
  | cons c cs =>
      rw [h.1] at hcurrent
      cases hcurrent

theorem close_of_pending (h : Pending s more last) :
    ∃ s', onCursor Cursor.close s = .ok () s' ∧ Over s' ∧ s'.sentinel = s.sentinel ∧
      s'.count = s.count := by
  obtain ⟨cs, hahead, -⟩ := h.ahead
  obtain ⟨k', hclose, hcurrent, hname, hposition, hreleases⟩ :=
    exists_close (Ahead.current_of_closed hahead) h.releases
  refine ⟨{ s with cursor := k' }, onCursor_ok.mpr ⟨k', hclose, rfl⟩, ⟨hcurrent, hreleases⟩, ?_,
    rfl⟩
  rw [sentinel, sentinel, hname, hposition]

/-! ### The next token -/

theorem next_apply (s : Scanner) :
    next s =
      if s.finished then .ok s.sentinel s
      else
        match found s.cursor with
        | .ok (some x) k => answer x { s with cursor := k }
        | .ok none k => finish { s with cursor := k }
        | .error f k => .error f { s with cursor := k } := by
  rw [next, Action.bind_apply, Action.get_apply]
  dsimp only
  rw [Action.ite_apply, Action.bind_apply, onCursor]
  split
  · rfl
  · cases found s.cursor with
    | error f k => rfl
    | ok x k => cases x <;> rfl

theorem eq_sentinel_of_finish {t : Token} {s' : Scanner} (h : finish s = .ok t s') :
    t = s.sentinel := by
  obtain ⟨_, _, -, hpure⟩ := Action.bind_ok.mp h
  cases hpure
  rfl

theorem next_of_finished (h : s.finished = true) : next s = .ok s.sentinel s := by
  rw [next_apply, if_pos h]

theorem answer_of_facing (h : Facing s more last) (x : Found) :
    ∃ s', answer x s = .ok (x.token s.cursor.name) s' ∧ Facing s' more last ∧
      SameFrame s.cursor s'.cursor ∧ s'.cursor.position = s.cursor.position ∧
      s'.finished = s.finished ∧ s'.count = s.count + 1 := by
  obtain ⟨⟨cs, hahead, hlexemes⟩, hfinished⟩ := h
  refine ⟨_, rfl, ?_, ?_, ?_, rfl, rfl⟩
  · split
    · exact ⟨⟨cs, Ahead.note hahead _, hlexemes⟩, hfinished⟩
    · exact ⟨⟨cs, hahead, hlexemes⟩, hfinished⟩
  · dsimp only
    split <;> exact ⟨rfl, rfl, rfl, rfl⟩
  · dsimp only
    split <;> rfl

/-- With a lexeme ahead the next token is its token, and the cursor stands behind it. -/
theorem next_of_facing_cons (h : Facing s (x :: more) last) :
    ∃ s', next s = .ok (x.token s.cursor.name) s' ∧ Facing s' more last ∧
      SameFrame s.cursor s'.cursor ∧ s'.cursor.position = x.start.afterAll x.lexeme ∧
      s'.finished = s.finished ∧ s'.count = s.count + 1 := by
  obtain ⟨cs, hahead, hlexemes⟩ := h.ahead
  have hfinished : s.finished = false := by
    cases hf : s.finished with
    | false => rfl
    | true =>
        rw [Ahead.eq_nil hahead (h.finished hf), lexemesFrom_of_gap (by simp)] at hlexemes
        cases hlexemes
  obtain ⟨gap, rest, rfl, hstart, hrest, hpasses⟩ := passes_found_of_cons hlexemes
  obtain ⟨k, hfound, hk, hposition⟩ := hpasses hahead rfl
  have hframe := (stepwise_found.ok hfound).frame
  have hfacing : Facing { s with cursor := k } more last := by
    refine ⟨⟨rest, hk, ?_⟩, fun hf => ?_⟩
    · rw [← hrest, ← hposition]
    · rw [hfinished] at hf
      cases hf
  obtain ⟨s', hanswer, hs', hframe', hposition', hfinished', hcount⟩ := answer_of_facing hfacing x
  refine ⟨s', ?_, hs', hframe.trans hframe', ?_, hfinished', hcount⟩
  · rw [next_apply, if_neg (by simp [hfinished]), hfound, ← hframe.name_eq]
    exact hanswer
  · rw [hposition', hstart, ← Position.afterAll_append]
    exact hposition

theorem next_of_facing_nil (h : Facing s [] last) (hfinished : s.finished = false) :
    ∃ k, next s = finish { s with cursor := k } ∧ SameFrame s.cursor k ∧ k.current = none ∧
      k.position = last := by
  obtain ⟨cs, hahead, hlexemes⟩ := h.ahead
  obtain ⟨hlast, hpasses⟩ := passes_found_of_nil hlexemes
  rw [← List.append_nil cs] at hahead
  obtain ⟨k, hfound, hk, hposition⟩ := hpasses hahead rfl
  refine ⟨k, ?_, (stepwise_found.ok hfound).frame, hk, hposition.trans hlast.symm⟩
  rw [next_apply, if_neg (by simp [hfinished]), hfound]

theorem next_of_pending_cons (h : Pending s (x :: more) last) :
    ∃ s', next s = .ok (x.token s.cursor.name) s' ∧ Pending s' more last ∧
      s'.cursor.name = s.cursor.name ∧ s'.count = s.count + 1 := by
  obtain ⟨s', hnext, hs', hframe, -, -, hcount⟩ := next_of_facing_cons h.toFacing
  exact ⟨s', hnext, ⟨hs', h.releases.of_frame hframe⟩, hframe.name_eq, hcount⟩

theorem finish_of_over (h : Over s) :
    ∃ s', finish s = .ok s.sentinel s' ∧ Over s' ∧ s'.sentinel = s.sentinel ∧
      s'.count = s.count := by
  obtain ⟨k', hclose, hcurrent, hname, hposition, hreleases⟩ :=
    exists_close (k := s.cursor.note (.ended s.sentinel.location s.count)) (fun _ => h.current)
      h.releases
  refine ⟨⟨k', true, s.count⟩, ?_, ⟨hcurrent, hreleases⟩, ?_, rfl⟩
  · rw [finish, Action.bind_apply, onCursor]
    dsimp only
    rw [hclose]
    rfl
  · rw [sentinel, sentinel, hname, hposition]
    rfl

theorem next_of_pending_nil (h : Pending s [] last) :
    ∃ s', next s = .ok (.sentinel s.cursor.name last) s' ∧ Over s' ∧
      s'.sentinel = .sentinel s.cursor.name last ∧ s'.count = s.count := by
  cases hfinished : s.finished with
  | true =>
      obtain ⟨cs, hahead, hlexemes⟩ := h.ahead
      obtain rfl := Ahead.eq_nil hahead (h.finished hfinished)
      rw [lexemesFrom_of_gap (by simp), Position.afterAll_nil] at hlexemes
      cases hlexemes
      exact ⟨s, next_of_finished hfinished, ⟨hahead, h.releases⟩, rfl, rfl⟩
  | false =>
      obtain ⟨k, hnext, hframe, hcurrent, rfl⟩ := next_of_facing_nil h.toFacing hfinished
      obtain ⟨s', hfinish, hs', hsentinel, hcount⟩ :=
        finish_of_over (s := { s with cursor := k }) ⟨hcurrent, h.releases.of_frame hframe⟩
      rw [hnext, ← hframe.name_eq]
      exact ⟨s', hfinish, hs', hsentinel, hcount⟩

theorem next_of_over (h : Over s) :
    ∃ s', next s = .ok s.sentinel s' ∧ Over s' ∧ s'.sentinel = s.sentinel ∧
      s'.count = s.count :=
  next_of_pending_nil h.pending

/-! ### All tokens -/

theorem drainFrom_of_end {found : List Token} {t : Token} {s' : Scanner}
    (h : next s = .ok t s') (ht : t.isEnd = true) :
    drainFrom found s = ⟨found.reverse, .ok t, s'⟩ := by
  rw [drainFrom]
  split
  · next hn =>
    rw [h] at hn
    cases hn
  · next hn =>
    rw [h] at hn
    cases hn
    rw [dif_pos ht]

theorem drainFrom_of_error {found : List Token} {f : Failure} {s' : Scanner}
    (h : next s = .error f s') : drainFrom found s = ⟨found.reverse, .error f, s'⟩ := by
  rw [drainFrom]
  split
  · next hn =>
    rw [h] at hn
    cases hn
    rfl
  · next hn =>
    rw [h] at hn
    cases hn

theorem drainFrom_of_token {found : List Token} {t : Token} {s' : Scanner}
    (h : next s = .ok t s') (ht : t.isEnd = false) :
    drainFrom found s = drainFrom (t :: found) s' := by
  conv => lhs; rw [drainFrom]
  split
  · next hn =>
    rw [h] at hn
    cases hn
  · next hn =>
    rw [h] at hn
    cases hn
    rw [dif_neg (by simp [ht])]

/-- A scan to the end keeps what every call keeps, whether calls fail or not. -/
theorem drainFrom_keeps {P : Scanner → Prop} (hnext : ∀ s, P s → P (Action.left (next s)))
    (found : List Token) (h : P s) : P (drainFrom found s).scanner := by
  fun_induction drainFrom found s with
  | case1 found s f s' hn =>
      have hstep := hnext s h
      rwa [hn] at hstep
  | case2 found s t s' hn ht =>
      have hstep := hnext s h
      rwa [hn] at hstep
  | case3 found s t s' hn ht ih =>
      have hstep := hnext s h
      rw [hn] at hstep
      exact ih hstep

theorem Facing.isEnd_token (h : Facing s more last) (hx : x ∈ more) (source : String) :
    (x.token source).isEnd = false := by
  obtain ⟨cs, -, hlexemes⟩ := h.ahead
  have hmem : x ∈ (lexemesFrom s.cursor.position cs).1 := by rwa [hlexemes]
  exact decide_eq_false (kind_of_mem_lexemesFrom hmem)

theorem drainFrom_of_facing {more : List Found} (found : List Token) {s : Scanner}
    (h : Facing s more last) :
    ∃ s', drainFrom found s =
        drainFrom ((more.map (Found.token s.cursor.name)).reverse ++ found) s' ∧
      Facing s' [] last ∧ SameFrame s.cursor s'.cursor ∧ s'.finished = s.finished ∧
      s'.count = s.count + more.length := by
  induction more generalizing s found with
  | nil => exact ⟨s, rfl, h, .refl _, rfl, rfl⟩
  | cons x more ih =>
      obtain ⟨s₁, hnext, hs₁, hframe, -, hfinished, hcount⟩ := next_of_facing_cons h
      obtain ⟨s', hdrain, hs', hframe', hfinished', hcount'⟩ :=
        ih (x.token s.cursor.name :: found) hs₁
      refine ⟨s', ?_, hs', hframe.trans hframe', hfinished'.trans hfinished, ?_⟩
      · rw [drainFrom_of_token hnext (h.isEnd_token (List.mem_cons_self ..) _), hdrain,
          hframe.name_eq, List.map_cons, List.reverse_cons, List.append_assoc,
          List.singleton_append]
      · rw [hcount', hcount, List.length_cons]
        omega

theorem drain_of_pending (h : Pending s more last) :
    ∃ s', drain s =
        ⟨more.map (Found.token s.cursor.name), .ok (.sentinel s.cursor.name last), s'⟩ ∧
      Over s' ∧ s'.sentinel = .sentinel s.cursor.name last ∧
      s'.count = s.count + more.length := by
  obtain ⟨s₁, hdrain, hs₁, hframe, -, hcount⟩ := drainFrom_of_facing [] h.toFacing
  obtain ⟨s', hnext, hover, hsentinel, hcount'⟩ :=
    next_of_pending_nil ⟨hs₁, h.releases.of_frame hframe⟩
  rw [hframe.name_eq] at hnext hsentinel
  refine ⟨s', ?_, hover, hsentinel, hcount'.trans hcount⟩
  rw [drain, hdrain, drainFrom_of_end hnext (Token.isEnd_sentinel ..), List.append_nil,
    List.reverse_reverse]

theorem pending_ofText (text name : String) :
    Pending (ofText text name) (lexemesFrom {} text.toList).1 (lexemesFrom {} text.toList).2 :=
  ⟨⟨⟨text.toList, ahead_ofChars name text.toList, rfl⟩, fun h => (by cases h)⟩, fun _ => rfl⟩

end Scanner

/-- The tokens of a text are those that longest match finds in it. -/
theorem tokenize_eq_lexemes (text source : String) :
    tokenize text source =
      (Grammar.lexemesFrom {} text.toList).1.map (Found.token source) ++
        [.sentinel source (Grammar.lexemesFrom {} text.toList).2] := by
  obtain ⟨s', hdrain, -⟩ := Scanner.drain_of_pending (Scanner.pending_ofText text source)
  rw [tokenize, hdrain]
  rfl

theorem dropLast_tokenize (text source : String) :
    (tokenize text source).dropLast =
      (Grammar.lexemesFrom {} text.toList).1.map (Found.token source) := by
  rw [tokenize_eq_lexemes, List.dropLast_concat]

end KayLex
