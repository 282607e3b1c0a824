import KayLex.Scanner

/-!
Scanning to the end. Every token but the sentinel takes at least one character, so
what remains of the input bounds the scan, and the list of all tokens of a source
is a plain function of its scanner.

A scan may also be stopped by a failure that the source does not absorb. What had
been found until then is kept.
-/

namespace KayLex

-- The equations that the match below binds serve the proof that a scan ends.
set_option linter.unusedVariables false

/-! ### Every lexeme takes a character

Lexeme actions never put anything back, and the first piece of a lexeme has been
passed when they start. -/

namespace Reading

open Cursor

/-- An action that never leaves more to be passed than it met. -/
def Shrinks {α : Type} (x : Reading α) : Prop :=
  ∀ ⦃k k' : Cursor⦄ ⦃a : α⦄, x k = .ok a k' → k'.remaining ≤ k.remaining

theorem shrinks_pure {α : Type} (a : α) : Shrinks (pure a) := by
  intro k k' b h
  cases h
  exact Nat.le_refl _

theorem Shrinks.bind {α β : Type} {x : Reading α} {f : α → Reading β} (hx : Shrinks x)
    (hf : ∀ a, Shrinks (f a)) : Shrinks (x >>= f) := by
  intro k k' b h
  obtain ⟨a, k₁, h₁, h₂⟩ := Action.bind_ok.mp h
  exact Nat.le_trans (hf a h₂) (hx h₁)

theorem shrinks_accept (x : Piece) : Shrinks (accept x) := fun _ _ _ h => remaining_le_of_accept h

theorem shrinks_run (p : Char → Bool) : Shrinks (run p) :=
  fun _ _ _ h => remaining_le_of_passWhile h

theorem shrinks_looking (p : Char → Bool) : Shrinks (looking p) := by
  intro k k' b h
  cases h
  exact Nat.le_refl _

theorem shrinks_word (first : Piece) : Shrinks (word first) :=
  (shrinks_run _).bind fun _ => shrinks_pure _

theorem shrinks_numeral (first : Piece) : Shrinks (numeral first) := by
  refine (shrinks_run _).bind fun digits => (shrinks_looking _).bind fun spoilt => ?_
  cases spoilt
  · exact shrinks_pure _
  · exact (shrinks_run _).bind fun _ => shrinks_pure _

theorem shrinks_doubled (x next : Piece) (alone : Kind) : Shrinks (doubled x next alone) := by
  refine (shrinks_accept _).bind fun both => ?_
  cases both <;> exact shrinks_pure _

theorem shrinks_symbol (x : Piece) : Shrinks (symbol x) := by
  unfold symbol
  repeat' split
  all_goals first | exact shrinks_doubled .. | exact shrinks_pure _

theorem shrinks_lexeme (first : Piece) : Shrinks (lexeme first) := by
  unfold lexeme
  split
  · exact shrinks_word first
  · split
    · exact shrinks_numeral first
    · exact shrinks_symbol first

end Reading

namespace Cursor

/-- Blanks and comments only shorten what remains. A lone slash behind them has been
passed too when it is found. -/
theorem remaining_of_passGap {k k' : Cursor} {slash : Option Position}
    (h : passGap k = .ok slash k') :
    k'.remaining ≤ k.remaining ∧ (slash.isSome → k'.remaining < k.remaining) := by
  fun_induction passGap k with
  | case1 | case2 | case3 | case5 | case6 => cases h
  | case4 k blanks k₁ hb hc a k₂ ha hline comment k₃ hl ih =>
    have := remaining_le_of_passWhile hb
    have := remaining_lt_of_advance hc ha
    have := remaining_le_of_passWhile hl
    have := ih h
    exact ⟨by omega, fun hs => by have := this.2 hs; omega⟩
  | case7 k blanks k₁ hb hc a k₂ ha hline hblock star k₃ hs u k₄ hl ih =>
    have := remaining_le_of_passWhile hb
    have := remaining_lt_of_advance hc ha
    have := remaining_le_of_advance hs
    have := remaining_le_of_passBlock hl
    have := ih h
    exact ⟨by omega, fun hs => by have := this.2 hs; omega⟩
  | case8 k blanks k₁ hb hc a k₂ ha =>
    cases h
    have := remaining_le_of_passWhile hb
    have := remaining_lt_of_advance hc ha
    exact ⟨by omega, fun _ => by omega⟩
  | case9 k blanks k₁ hb =>
    cases h
    exact ⟨remaining_le_of_passWhile hb, fun hs => by cases hs⟩

end Cursor

theorem Reading.remaining_lt_of_found {k k' : Cursor} {x : Found}
    (h : found k = .ok (some x) k') : k'.remaining < k.remaining := by
  obtain ⟨slash, k₁, hg, h⟩ := Action.bind_ok.mp h
  have hgap := Cursor.remaining_of_passGap hg
  cases slash with
  | some start =>
    cases h
    exact hgap.2 rfl
  | none =>
    obtain ⟨_, _, ⟨⟩, h⟩ := Action.bind_ok.mp h
    obtain ⟨first, k₂, ha, h⟩ := Action.bind_ok.mp h
    cases first with
    | none => cases h
    | some first =>
      obtain ⟨lex, k₃, hl, h⟩ := Action.bind_ok.mp h
      cases h
      have := Cursor.remaining_lt_of_advance (Cursor.current_of_advance ha) ha
      have := shrinks_lexeme first hl
      omega

namespace Scanner

theorem onCursor_ok {α : Type} {x : Reading α} {s s' : Scanner} {a : α} :
    onCursor x s = .ok a s' ↔ ∃ k, x s.cursor = .ok a k ∧ s' = { s with cursor := k } := by
  unfold onCursor
  split
  · next b k h =>
    constructor
    · rintro ⟨⟩
      exact ⟨k, h, rfl⟩
    · rintro ⟨k', hk, rfl⟩
      rw [h] at hk
      cases hk
      rfl
  · next f k h => simp [h]

/-- A token that is not the sentinel has taken at least one character. -/
theorem remaining_lt_of_next {s s' : Scanner} {t : Token} (h : next s = .ok t s')
    (ht : t.isEnd = false) : s'.cursor.remaining < s.cursor.remaining := by
  obtain ⟨_, _, ⟨⟩, h⟩ := Action.bind_ok.mp h
  rw [Action.ite_apply] at h
  split at h
  · cases h
    simp [sentinel] at ht
  · obtain ⟨x, s₁, hf, h⟩ := Action.bind_ok.mp h
    obtain ⟨k, hk, rfl⟩ := onCursor_ok.mp hf
    cases x with
    | some x =>
      have := Reading.remaining_lt_of_found hk
      cases h
      dsimp only
      split
      · exact this
      · exact this
    | none =>
      obtain ⟨_, _, _, h⟩ := Action.bind_ok.mp h
      cases h
      simp [sentinel] at ht

structure Drained where
  /-- The tokens before the end. -/
  tokens : List Token
  /-- The sentinel, or the failure that stopped the scan. -/
  ending : Except Failure Token
  scanner : Scanner

namespace Drained

/-- All tokens with the sentinel behind them, if nothing failed. -/
def all (d : Drained) : Except Failure (List Token) := d.ending.map (d.tokens ++ [·])

end Drained

/-- Scans to the end. The tokens are answered behind those found before (which are
given latest first). -/
def drainFrom (found : List Token) (s : Scanner) : Drained :=
  match h : next s with
  | .error f s' => ⟨found.reverse, .error f, s'⟩
  | .ok t s' => if ht : t.isEnd then ⟨found.reverse, .ok t, s'⟩ else drainFrom (t :: found) s'
termination_by s.cursor.remaining
decreasing_by exact remaining_lt_of_next h (by simpa using ht)

def drain (s : Scanner) : Drained := drainFrom [] s

/-- The scanner after it has been closed, whether that fails or not. -/
def released (s : Scanner) : Scanner :=
  match onCursor Cursor.close s with
  | .ok _ s' => s'
  | .error _ s' => s'

def ofText (text : String) (name : String := unnamedSource) : Scanner :=
  ⟨.ofChars name text.toList, false, 0⟩

def ofStream (stream : Stream) (name : String := unnamedSource) (owned : Bool := false) :
    Except Failure Scanner :=
  (Cursor.start name stream owned).map (⟨·, false, 0⟩)

end Scanner

/-- All tokens of a text, the sentinel last. -/
def tokenize (text : String) (name : String := unnamedSource) : List Token :=
  let d := (Scanner.ofText text name).drain
  d.tokens ++ d.ending.toOption.toList

end KayLex
