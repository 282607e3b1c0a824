import KayLex.Proofs.Scanner.Tokens

/-!
Scans that cannot end well. If the characters of a stream are followed by a failure
that does not count as the end of the input, then whatever a scanner looks for, it
goes on to read until it meets that failure: nothing but the end of the input ends a
scan, and the end never comes.
-/

namespace KayLex

namespace Cursor

variable {k k' : Cursor} {f : Failure} {a : Option Piece}

/-- A cursor that has not met the failure behind its characters yet. -/
structure Doomed (f : Failure) (k : Cursor) : Prop where
  isOpen : k.closed = false
  current : k.current ≠ none
  fate : k.stream.fate = some f
  escapes : f.endsInput = false

theorem load_of_fate (hopen : k.closed = false) (hfate : k.stream.fate = some f)
    (hescapes : f.endsInput = false) :
    (∃ k', load k = .ok () k' ∧ k'.Doomed f ∧ k.stream.chars ≠ []) ∨
      (∃ k', load k = .error f k') ∧ k.stream.chars = [] := by
  cases hchars : k.stream.chars with
  | nil =>
      obtain ⟨s, hread⟩ := Stream.read_of_chars_nil hchars
      rw [hfate] at hread
      refine .inr ⟨⟨{ k with stream := s }, ?_⟩, rfl⟩
      simp [load, hopen, hread, hescapes]
  | cons c cs =>
      obtain ⟨s, hread, -, hs⟩ := Stream.read_of_chars_cons hchars
      refine .inl ⟨{ k with stream := s, current := some (.single c) }, ?_, ?_,
        List.cons_ne_nil c cs⟩
      · simp [load, hopen, hread]
      · exact ⟨hopen, by simp, hs.trans hfate, hescapes⟩

theorem Doomed.advance (h : k.Doomed f) :
    (∃ a k', advance k = .ok a k' ∧ k'.Doomed f) ∨ ∃ k', advance k = .error f k' := by
  obtain ⟨x, hx⟩ := Option.ne_none_iff_exists'.mp h.current
  have hload := load_of_fate (k := { k with position := k.position.behind x }) h.isOpen h.fate
    h.escapes
  rw [advance_of_current hx]
  rcases hload with ⟨k', hload, hk', -⟩ | ⟨⟨k', hload⟩, -⟩
  · rw [hload]
    exact .inl ⟨_, k', rfl, hk'⟩
  · rw [hload]
    exact .inr ⟨k', rfl⟩

theorem Doomed.of_steps (h : k.Doomed f) (hsteps : Steps k k') : k'.Doomed f := by
  induction hsteps with
  | refl => exact h
  | tail _ hstep ih =>
      obtain ⟨a, hstep⟩ := hstep
      rcases ih.advance with ⟨_, _, hadv, hk'⟩ | ⟨_, hadv⟩
      · rw [hstep] at hadv
        cases hadv
        exact hk'
      · rw [hstep] at hadv
        cases hadv

/-- Whatever a scanner does to the cursor, it cannot fail in another way. -/
theorem Doomed.eq_of_error {α : Type} {x : Reading α} (h : k.Doomed f) (hx : Reading.Stepwise x)
    {f' : Failure} (herror : x k = .error f' k') : f' = f := by
  obtain ⟨k₁, hsteps, hadv⟩ := hx.error herror
  rcases (h.of_steps hsteps).advance with ⟨_, _, hadv', -⟩ | ⟨_, hadv'⟩
  · rw [hadv] at hadv'
    cases hadv'
  · rw [hadv] at hadv'
    cases hadv'
    rfl

end Cursor

/-! ### No lexeme is the end -/

namespace Reading

open Cursor

variable {α β : Type} {P : α → Prop} {Q : β → Prop}

/-- Whatever an action answers satisfies `P`. -/
def Answers (P : α → Prop) (x : Reading α) : Prop :=
  ∀ ⦃k k' : Cursor⦄ ⦃a : α⦄, x k = .ok a k' → P a

theorem answers_pure {a : α} (h : P a) : Answers P (pure a) := by
  intro k k' b hb
  cases hb
  exact h

theorem Answers.bind {x : Reading α} {f : α → Reading β} (hf : ∀ a, Answers Q (f a)) :
    Answers Q (x >>= f) := by
  intro k k' b h
  obtain ⟨a, k₁, -, h⟩ := Action.bind_ok.mp h
  exact hf a h

theorem answers_lexeme (first : Piece) : Answers (·.1 ≠ .endOfStream) (lexeme first) := by
  have hdoubled {x next : Piece} {alone : Kind} (h : alone ≠ .endOfStream) :
      Answers (·.1 ≠ .endOfStream) (doubled x next alone) := by
    refine .bind fun both => ?_
    split
    · exact answers_pure (by simp)
    · exact answers_pure h
  unfold lexeme
  split
  · exact .bind fun rest => answers_pure (Grammar.wordKind_ne_endOfStream _)
  split
  · refine .bind fun digits => .bind fun spoilt => ?_
    split
    · exact .bind fun tail => answers_pure (by simp)
    · exact answers_pure (by simp)
  · unfold symbol
    repeat' split
    all_goals first | exact hdoubled (by simp) | exact answers_pure (by simp)

theorem current_of_found_none {k k' : Cursor} (h : found k = .ok none k') : k'.current = none := by
  obtain ⟨slash, k₁, -, h⟩ := Action.bind_ok.mp h
  cases slash with
  | some start => cases h
  | none =>
      obtain ⟨_, _, ⟨⟩, h⟩ := Action.bind_ok.mp h
      obtain ⟨first, k₂, ha, h⟩ := Action.bind_ok.mp h
      cases first with
      | some first =>
          obtain ⟨_, _, -, h⟩ := Action.bind_ok.mp h
          cases h
      | none =>
          cases h
          have hcurrent := current_of_advance ha
          simp only [advance, hcurrent] at ha
          cases ha
          exact hcurrent

theorem kind_of_found {k k' : Cursor} {x : Found} (h : found k = .ok (some x) k') :
    x.kind ≠ .endOfStream := by
  obtain ⟨slash, k₁, -, h⟩ := Action.bind_ok.mp h
  cases slash with
  | some start =>
      cases h
      simp
  | none =>
      obtain ⟨_, _, ⟨⟩, h⟩ := Action.bind_ok.mp h
      obtain ⟨first, k₂, -, h⟩ := Action.bind_ok.mp h
      cases first with
      | none => cases h
      | some first =>
          obtain ⟨lex, k₃, hlexeme, h⟩ := Action.bind_ok.mp h
          cases h
          exact answers_lexeme first hlexeme

end Reading

/-! ### The scan -/

namespace Scanner

open Cursor Reading

variable {s : Scanner} {f : Failure}

theorem next_of_doomed (hs : s.finished = false) (h : s.cursor.Doomed f) :
    (∃ t s', next s = .ok t s' ∧ t.isEnd = false ∧ s'.finished = false ∧ s'.cursor.Doomed f) ∨
      ∃ s', next s = .error f s' := by
  rw [next_apply, if_neg (by simp [hs])]
  cases hfound : found s.cursor with
  | error f' k =>
      rw [h.eq_of_error stepwise_found hfound]
      exact .inr ⟨_, rfl⟩
  | ok x k =>
      have hk := h.of_steps (stepwise_found.ok hfound)
      cases x with
      | none =>
          -- To find nothing, the scanner would have had to get behind the failure.
          exact absurd (current_of_found_none hfound) hk.current
      | some x =>
          refine .inl ⟨_, _, rfl, decide_eq_false (kind_of_found hfound), hs, ?_⟩
          dsimp only
          split
          · exact ⟨hk.isOpen, hk.current, hk.fate, hk.escapes⟩
          · exact hk

theorem drainFrom_of_doomed (found : List Token) (hs : s.finished = false)
    (h : s.cursor.Doomed f) : (drainFrom found s).ending = .error f := by
  fun_induction drainFrom found s with
  | case1 found s f' s' hnext =>
      rcases next_of_doomed hs h with ⟨_, _, hok, -⟩ | ⟨_, herror⟩
      · rw [hnext] at hok
        cases hok
      · rw [hnext] at herror
        cases herror
        rfl
  | case2 found s t s' hnext ht =>
      rcases next_of_doomed hs h with ⟨_, _, hok, hend, -⟩ | ⟨_, herror⟩
      · rw [hnext] at hok
        cases hok
        rw [ht] at hend
        cases hend
      · rw [hnext] at herror
        cases herror
  | case3 found s t s' hnext ht ih =>
      rcases next_of_doomed hs h with ⟨_, _, hok, -, hs', hk'⟩ | ⟨_, herror⟩
      · rw [hnext] at hok
        cases hok
        exact ih hs' hk'
      · rw [hnext] at herror
        cases herror

end Scanner

end KayLex
