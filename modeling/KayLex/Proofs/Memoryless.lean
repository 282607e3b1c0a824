import KayLex.Proofs.Moving
import KayLex.Proofs.Scanner.Doomed
import KayLex.Proofs.Session.Walks

/-!
A scanner remembers nothing but its cursor. Tokens can be taken and the cursor moved in any
order, so that the scan is taken up again within a word, within an operator, or behind half
of what opens a comment; what is still to come is what a new scan of the rest of the text
would find, moved to where the cursor stands.
-/

namespace KayLex

open KayLex.Action

variable {cs : List Char} {source : String}

/-! ### The cursor within the text -/

/-- A cursor within the text `cs`. Its position is the place behind the characters it has
passed, and the others are ahead of it. -/
structure Cursor.Amid (cs : List Char) (k : Cursor) : Prop where
  position_eq : k.position = ({} : Position).afterAll (cs.take k.position.offset)
  ahead : k.Ahead (cs.drop k.position.offset)

namespace Cursor

variable {k k' : Cursor}

theorem Amid.of_split {passed rest : List Char}
    (hposition : k.position = ({} : Position).afterAll passed) (hahead : k.Ahead rest) :
    k.Amid (passed ++ rest) := by
  have hoffset : k.position.offset = passed.length := by
    rw [hposition, Position.offset_afterAll, Nat.zero_add]
  refine ⟨?_, ?_⟩
  · rw [hoffset, List.take_left' rfl, hposition]
  · rwa [hoffset, List.drop_left' rfl]

theorem amid_ofChars (name : String) (cs : List Char) : (ofChars name cs).Amid cs :=
  @Amid.of_split _ [] cs rfl (ahead_ofChars name cs)

theorem Amid.note (h : k.Amid cs) (e : Event) : (k.note e).Amid cs :=
  ⟨h.position_eq, h.ahead.note e⟩

theorem Amid.of_end (h : k.Amid cs) (hcurrent : k.current = none)
    (hposition : k'.position = k.position) (hcurrent' : k'.current = none) : k'.Amid cs := by
  have hnil : cs.drop k.position.offset = [] := Scanner.Ahead.eq_nil h.ahead hcurrent
  refine ⟨by rw [hposition]; exact h.position_eq, ?_⟩
  rw [hposition, hnil]
  exact hcurrent'

theorem Amid.advance (h : k.Amid cs) : ∃ a k', advance k = .ok a k' ∧ k'.Amid cs := by
  have hsplit := List.take_append_drop k.position.offset cs
  have hahead := h.ahead
  cases hrest : cs.drop k.position.offset with
  | nil =>
      rw [hrest] at hahead
      obtain ⟨k', hadvance, hk', hposition⟩ := Reading.passes_advance_end hahead rfl
      exact ⟨none, k', hadvance, h.of_end hahead hposition hk'⟩
  | cons c rest =>
      rw [hrest] at hsplit hahead
      obtain ⟨k', hadvance, hk', hposition⟩ := Reading.passes_advance c hahead rfl
      refine ⟨_, k', hadvance, ?_⟩
      rw [← hsplit, ← List.singleton_append, ← List.append_assoc]
      refine .of_split ?_ hk'
      rw [hposition, Position.afterAll_append, ← h.position_eq]

theorem Amid.steps (h : k.Amid cs) (hsteps : Steps k k') : k'.Amid cs := by
  induction hsteps with
  | refl => exact h
  | tail _ hstep ih =>
      obtain ⟨a, ha⟩ := hstep
      obtain ⟨b, k₁, hb, hk₁⟩ := ih.advance
      rw [ha] at hb
      cases hb
      exact hk₁

/-- Whatever is made of advancing stays within the text. -/
theorem Amid.stepwise {α : Type} {x : Reading α} (h : k.Amid cs) (hx : Reading.Stepwise x) :
    ∃ a k', x k = .ok a k' ∧ k'.Amid cs ∧ SameFrame k k' := by
  cases hk : x k with
  | ok a k' => exact ⟨a, k', rfl, h.steps (hx.ok hk), (hx.ok hk).frame⟩
  | error f k' =>
      obtain ⟨k₁, hsteps, hfails⟩ := hx.error hk
      obtain ⟨a, k₂, hadvance, -⟩ := (h.steps hsteps).advance
      rw [hfails] at hadvance
      cases hadvance

end Cursor

/-! ### The scanner within the text -/

namespace Scanner

open Cursor Reading Grammar

variable {s s' : Scanner}

/-- A scanner within the text `cs`, whatever it has been used for. -/
structure Amid (cs : List Char) (source : String) (s : Scanner) : Prop where
  cursor : s.cursor.Amid cs
  name : s.cursor.name = source
  closed : s.finished = true → s.cursor.closed = true
  releases : Releases s.cursor

theorem amid_ofText (text source : String) : Amid text.toList source (ofText text source) :=
  ⟨amid_ofChars source text.toList, rfl, fun h => (by cases h), fun _ => rfl⟩

theorem Amid.stepwise {α : Type} {x : Reading α} (h : Amid cs source s) (hx : Stepwise x) :
    ∃ a k, x s.cursor = .ok a k ∧ Amid cs source { s with cursor := k } := by
  obtain ⟨a, k, hk, hamid, hframe⟩ := h.cursor.stepwise hx
  exact ⟨a, k, hk, hamid, hframe.name_eq.trans h.name,
    fun hfinished => hframe.closed_eq.trans (h.closed hfinished), h.releases.of_frame hframe⟩

theorem Amid.answer (h : Amid cs source s) (x : Found) :
    ∃ t s', answer x s = .ok t s' ∧ Amid cs source s' := by
  refine ⟨_, _, rfl, ?_⟩
  split
  · exact ⟨h.cursor.note _, h.name, h.closed, h.releases⟩
  · exact ⟨h.cursor, h.name, h.closed, h.releases⟩

theorem Amid.finish (h : Amid cs source s) (hcurrent : s.cursor.current = none) :
    ∃ t s', finish s = .ok t s' ∧ Amid cs source s' := by
  obtain ⟨s', hfinish, hover, hsentinel, -⟩ := finish_of_over ⟨hcurrent, h.releases⟩
  have hleft : left (Scanner.finish s) = s' := by rw [hfinish]; rfl
  have hcursor := congrArg Scanner.cursor (left_finish s)
  rw [hleft] at hcursor
  refine ⟨_, s', hfinish, ?_, ?_, ?_, hover.releases⟩
  · refine h.cursor.of_end hcurrent ?_ hover.current
    rw [hcursor]
    exact position_left_close _
  · exact (congrArg Token.source hsentinel).trans h.name
  · intro _
    rw [hcursor]
    exact closed_left_close _

/-- A step: the next token does not fail, and the scanner stays within the text. -/
theorem Amid.next (h : Amid cs source s) : ∃ t s', next s = .ok t s' ∧ Amid cs source s' := by
  rw [next_apply]
  split
  · exact ⟨_, s, rfl, h⟩
  · obtain ⟨x, k, hfound, hk⟩ := h.stepwise stepwise_found
    rw [hfound]
    cases x with
    | some x => exact hk.answer x
    | none => exact hk.finish (current_of_found_none hfound)

theorem Amid.of_next {t : Token} (h : Amid cs source s) (hnext : Scanner.next s = .ok t s') :
    Amid cs source s' := by
  obtain ⟨t₁, s₁, hnext₁, hs₁⟩ := h.next
  rw [hnext] at hnext₁
  cases hnext₁
  exact hs₁

theorem Amid.drainFrom (found : List Token) (h : Amid cs source s) :
    Amid cs source (drainFrom found s).scanner := by
  fun_induction Scanner.drainFrom found s with
  | case1 found s f s' hnext =>
      obtain ⟨t, s₁, hnext₁, -⟩ := h.next
      rw [hnext] at hnext₁
      cases hnext₁
  | case2 found s t s' hnext ht => exact h.of_next hnext
  | case3 found s t s' hnext ht ih => exact ih (h.of_next hnext)

theorem Amid.pending (h : Amid cs source s) :
    Pending s
      (lexemesFrom s.cursor.position (cs.drop s.cursor.position.offset)).1
      (s.cursor.position.afterAll (cs.drop s.cursor.position.offset)) :=
  ⟨⟨⟨_, h.cursor.ahead, Prod.ext rfl (last_lexemesFrom _ _)⟩,
    fun hfinished => Ahead.current_of_closed h.cursor.ahead (h.closed hfinished)⟩, h.releases⟩

/-- The tokens still to come are those of the text ahead, moved to where the cursor stands. -/
theorem Amid.drain (h : Amid cs source s) :
    s.drain.all = .ok ((tokenize (String.ofList (cs.drop s.cursor.position.offset)) source).map
      (Token.movedTo s.cursor.position)) := by
  obtain ⟨s', hdrain, -⟩ := drain_of_pending h.pending
  rw [hdrain, h.name, ← tokens_within]
  rfl

end Scanner

/-! ### Sessions -/

namespace Session

open Cursor Reading Scanner

variable {r : Request} {rs : List Request}

/-- Requests other than closing do not take the scanner out of the text. -/
theorem amid_serve {s : Session} (hr : r.leavesText = true) (hclose : r ≠ .close)
    (h : Amid cs source s.scanner) : Amid cs source (left (serve r s)).scanner := by
  have hnext : Amid cs source (left (Scanner.next s.scanner)) := by
    obtain ⟨t, s', hnext, hs'⟩ := h.next
    rwa [hnext]
  have hpassing {β : Type} (f : β → Reply) {x : Reading β} (hx : Stepwise x) :
      Amid cs source (left ((f <$> onCursor x) s)).scanner := by
    obtain ⟨a, k, hk, hamid⟩ := h.stepwise hx
    rw [left_map, onCursor, scanner_left_onScanner, Scanner.onCursor, hk]
    exact hamid
  cases r with
  | next =>
      rw [scanner_left_next]
      exact hnext
  | all =>
      rw [serve, scanner_left_all]
      exact h.drainFrom []
  | openFeed => exact h
  | pull feed =>
      rw [serve, scanner_left_pull]
      split
      · exact hnext
      · exact h
  | close => exact absurd rfl hclose
  | advance count => exact hpassing .chars (stepwise_advanceBy count [])
  | accept text => exact hpassing .flag (stepwise_acceptText text)
  | replace text => cases hr

/-- A run: so do any number of requests. -/
theorem amid_after {s : Session} (hrs : ∀ r ∈ rs, r.leavesText = true ∧ r ≠ .close)
    (h : Amid cs source s.scanner) : Amid cs source (s.after rs) := by
  induction rs generalizing s with
  | nil => exact h
  | cons r rs ih =>
      obtain ⟨hr, hclose⟩ := hrs r (List.mem_cons_self ..)
      rw [after_cons]
      exact ih (fun q hq => hrs q (List.mem_cons_of_mem r hq)) (amid_serve hr hclose h)

/-- Whatever has been asked for and passed in whatever order, the tokens still to come are
exactly those of the rest of the text: offsets and lines are counted from where the cursor
stands, and so are columns as long as the first line lasts. -/
theorem drain_after_eq_tokenize (text source : String) (rs : List Request)
    (hrs : ∀ r ∈ rs, r.leavesText = true ∧ r ≠ .close) :
    (after { scanner := .ofText text source } rs).drain.all =
      .ok ((tokenize (String.ofList (text.toList.drop
          (after { scanner := .ofText text source } rs).cursor.position.offset)) source).map
        (Token.movedTo (after { scanner := .ofText text source } rs).cursor.position)) :=
  (amid_after hrs (amid_ofText text source)).drain

/-- Half of a word, half of an operator and half of what opens a comment are taken away. -/
theorem drain_after_eq_tokenize_halves :
    (∀ r ∈ [Request.advance 1, .next, .accept [' '], .accept ['<'], .next, .advance 2],
      r.leavesText = true ∧ r ≠ .close) ∧
      (after { scanner := .ofText "ab <= /* x\ny z" "s" }
        [.advance 1, .next, .accept [' '], .accept ['<'], .next, .advance 2]).drain.all =
      .ok ((tokenize "* x\ny z" "s").map (Token.movedTo ⟨1, 8, 7⟩)) := by
  have hrs : ∀ r ∈ [Request.advance 1, .next, .accept [' '], .accept ['<'], .next, .advance 2],
      r.leavesText = true ∧ r ≠ .close := by decide
  have hposition : (after { scanner := .ofText "ab <= /* x\ny z" "s" }
      [.advance 1, .next, .accept [' '], .accept ['<'], .next, .advance 2]).cursor.position =
      ⟨1, 8, 7⟩ := by decide +kernel
  have hdrain := drain_after_eq_tokenize "ab <= /* x\ny z" "s" _ hrs
  rw [hposition] at hdrain
  exact ⟨hrs, hdrain⟩

end Session

end KayLex
