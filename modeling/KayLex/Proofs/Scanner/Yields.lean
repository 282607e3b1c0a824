import KayLex.Proofs.Cursor.Walk

/-!
What the scanner answers, it has passed. Whatever stream there is under the cursor, and
whatever became of it before, an action that answers a text has passed the characters of this
text on its way, one behind the other, and nothing puts a character back. So the texts of
several answers are pieces that lie one behind the other in what has been passed.
-/

namespace KayLex

open KayLex.Action

/-- The pieces lie in the text one behind the other, with gaps between them or not. -/
inductive InTurn : (pieces : List (List Char)) → (text : List Char) → Prop where
  | nil (rest : List Char) : InTurn [] rest
  | cons (gap piece : List Char) {pieces : List (List Char)} {rest : List Char}
      (h : InTurn pieces rest) : InTurn (piece :: pieces) (gap ++ (piece ++ rest))

namespace InTurn

variable {ps qs : List (List Char)} {text text' : List Char}

theorem behind (front : List Char) (h : InTurn ps text) : InTurn ps (front ++ text) := by
  cases h with
  | nil => exact .nil _
  | cons gap piece h =>
      rw [← List.append_assoc]
      exact .cons _ piece h

theorem append (h : InTurn ps text) (h' : InTurn qs text') : InTurn (ps ++ qs) (text ++ text') := by
  induction h with
  | nil => exact h'.behind _
  | cons gap piece _ ih =>
      rw [List.append_assoc, List.append_assoc]
      exact .cons gap piece ih

end InTurn

/-! ### Cursors -/

namespace Cursor

variable {k k₁ k' : Cursor} {ps qs : List (List Char)}

/-- On its way from one state to the other the cursor has passed the pieces in turn. -/
def Takes (pieces : List (List Char)) (k k' : Cursor) : Prop :=
  ∃ passed, Walk k passed k' ∧ InTurn pieces passed

theorem Reaches.takes (h : Reaches k k') : Takes [] k k' := by
  obtain ⟨passed, hwalk⟩ := h
  exact ⟨passed, hwalk, .nil _⟩

theorem Walk.takes {piece : List Char} (h : Walk k piece k') : Takes [piece] k k' :=
  ⟨piece, h, by simpa using InTurn.cons [] piece (.nil [])⟩

theorem Takes.trans (h : Takes ps k k₁) (h' : Takes qs k₁ k') : Takes (ps ++ qs) k k' := by
  obtain ⟨passed, hwalk, hps⟩ := h
  obtain ⟨passed', hwalk', hqs⟩ := h'
  exact ⟨passed ++ passed', hwalk.trans hwalk', hps.append hqs⟩

theorem Takes.after (hreach : Reaches k k₁) (h : Takes ps k₁ k') : Takes ps k k' :=
  hreach.takes.trans h

theorem Takes.reaches (h : Takes ps k k₁) (hreach : Reaches k₁ k') : Takes ps k k' := by
  rw [← List.append_nil ps]
  exact h.trans hreach.takes

end Cursor

/-! ### Actions -/

namespace Reading

open Cursor

variable {α β : Type} {front : List Char}

/-- The text of an answer is the characters `front` and behind them what the action passes. -/
def Yields (front : List Char) (x : Reading α) (text : α → List Char) : Prop :=
  ∀ ⦃k k' : Cursor⦄ ⦃a : α⦄, x k = .ok a k' → ∃ passed, Walk k passed k' ∧ text a = front ++ passed

theorem yields_pure {text : α → List Char} {a : α} (h : text a = front) :
    Yields front (pure a) text := by
  intro k k' b hb
  cases hb
  exact ⟨[], .start, by rw [h, List.append_nil]⟩

theorem Yields.bind {x : Reading α} {f : α → Reading β} {text : α → List Char}
    {text' : β → List Char} (hx : Yields front x text) (hf : ∀ a, Yields (text a) (f a) text') :
    Yields front (x >>= f) text' := by
  intro k k' b h
  obtain ⟨a, k₁, h, h'⟩ := bind_ok.mp h
  obtain ⟨passed, hwalk, htext⟩ := hx h
  obtain ⟨passed', hwalk', htext'⟩ := hf a h'
  exact ⟨passed ++ passed', hwalk.trans hwalk', by rw [htext', htext, List.append_assoc]⟩

theorem walk_of_advance {k k' : Cursor} {a : Option Piece} (h : advance k = .ok a k') :
    Walk k (charsOf a) k' := by
  rw [← List.nil_append (charsOf a)]
  exact Walk.start.pass h

theorem yields_advance : Yields front advance fun a => front ++ charsOf a :=
  fun _ _ _ h => ⟨_, walk_of_advance h, rfl⟩

theorem yields_accept (x : Piece) :
    Yields front (accept x) fun both => if both then front ++ x.chars else front := by
  intro k k' both h
  unfold accept at h
  split at h
  · next hc =>
    split at h
    · next a k₁ ha =>
      cases h
      have hwalk := walk_of_advance ha
      rw [← current_of_advance ha, hc] at hwalk
      exact ⟨_, hwalk, rfl⟩
    · cases h
  · cases h
    exact ⟨[], .start, (List.append_nil _).symm⟩

theorem yields_looking (p : Char → Bool) : Yields front (looking p) fun _ => front := by
  intro k k' b h
  cases h
  exact ⟨[], .start, (List.append_nil _).symm⟩

/-! #### The loops -/

theorem yields_passWhile (p : Char → Bool) (passed : List Char) :
    Yields passed.reverse (passWhile p passed) id := by
  intro k k' cs h
  fun_induction passWhile p passed k with
  | case1 | case4 =>
      cases h
      exact ⟨[], .start, (List.append_nil _).symm⟩
  | case2 passed k x hc hp a k₁ ha ih =>
      obtain ⟨more, hwalk, hcs⟩ := ih h
      have hfirst := walk_of_advance ha
      rw [← current_of_advance ha, hc] at hfirst
      refine ⟨_, hfirst.trans hwalk, ?_⟩
      rw [hcs, List.reverse_append, List.reverse_reverse, List.append_assoc]
      rfl
  | case3 => cases h

theorem yields_run (p : Char → Bool) : Yields front (run p) fun cs => front ++ cs := by
  intro k k' cs h
  obtain ⟨passed, hwalk, hcs⟩ := yields_passWhile p [] h
  exact ⟨passed, hwalk, by rw [show cs = passed from hcs]⟩

theorem yields_advanceBy (n : Nat) (passed : List Char) :
    Yields passed.reverse (advanceBy n passed) id := by
  induction n generalizing passed with
  | zero => exact yields_pure rfl
  | succ n ih =>
      refine yields_advance.bind fun a => ?_
      have hrest := ih ((charsOf a).reverse ++ passed)
      rwa [List.reverse_append, List.reverse_reverse] at hrest

theorem yields_acceptText (text : List Char) :
    Yields [] (acceptText text) fun both => if both then text else [] := by
  unfold acceptText
  split
  · next x hx =>
    rw [← Piece.ofChars?_eq_some_iff.mp hx]
    exact yields_accept x
  · exact yields_pure rfl

/-! #### The branches -/

theorem yields_word (first : Piece) : Yields first.chars (word first) (·.2) :=
  (yields_run _).bind fun _ => yields_pure rfl

theorem yields_numeral (first : Piece) : Yields first.chars (numeral first) (·.2) := by
  refine (yields_run _).bind fun digits => (yields_looking _).bind fun spoilt => ?_
  split
  · exact (yields_run _).bind fun tail => yields_pure (List.append_assoc ..).symm
  · exact yields_pure rfl

theorem yields_doubled (x next : Piece) (alone : Kind) :
    Yields x.chars (doubled x next alone) (·.2) := by
  refine (yields_accept _).bind fun both => ?_
  cases both <;> exact yields_pure rfl

theorem yields_symbol (x : Piece) : Yields x.chars (symbol x) (·.2) := by
  unfold symbol
  repeat' split
  all_goals first | exact yields_doubled .. | exact yields_pure rfl

theorem yields_lexeme (first : Piece) : Yields first.chars (lexeme first) (·.2) := by
  unfold lexeme
  split
  · exact yields_word first
  · split
    · exact yields_numeral first
    · exact yields_symbol first

/-! #### Lexemes behind gaps -/

theorem takes_of_passGap {k k' : Cursor} {slash : Option Position}
    (h : passGap k = .ok slash k') : Takes (if slash.isSome then [['/']] else []) k k' := by
  have hblanks {k k₁ : Cursor} {cs : List Char}
      (h : passWhile Text.isBlank [] k = .ok cs k₁) : Reaches k k₁ :=
    ((stepwise_run _).ok h).reaches
  fun_induction passGap k with
  | case1 | case2 | case3 | case5 | case6 => cases h
  | case4 k blanks k₁ hb hc a k₂ ha hline comment k₃ hl ih =>
      have hround : Steps k₁ k₃ := (steps_of_advance ha).trans ((stepwise_run _).ok hl)
      exact (ih h).after ((hblanks hb).trans (Steps.reaches hround))
  | case7 k blanks k₁ hb hc a k₂ ha hline hblock star k₃ hs u k₄ hl ih =>
      have hround : Steps k₁ k₄ :=
        ((steps_of_advance ha).trans (steps_of_advance hs)).trans (stepwise_passBlock.ok hl)
      exact (ih h).after ((hblanks hb).trans (Steps.reaches hround))
  | case8 k blanks k₁ hb hc a k₂ ha =>
      cases h
      have hslash := walk_of_advance ha
      rw [← current_of_advance ha, hc] at hslash
      exact hslash.takes.after (hblanks hb)
  | case9 k blanks k₁ hb =>
      cases h
      exact (hblanks hb).takes

theorem takes_of_found {k k' : Cursor} {x : Option Found} (h : found k = .ok x k') :
    Takes (x.toList.map Found.lexeme) k k' := by
  obtain ⟨slash, k₁, hgap, h⟩ := bind_ok.mp h
  have hgap := takes_of_passGap hgap
  cases slash with
  | some start =>
      cases h
      exact hgap
  | none =>
      obtain ⟨_, _, ⟨⟩, h⟩ := bind_ok.mp h
      obtain ⟨first, k₂, ha, h⟩ := bind_ok.mp h
      have hfirst := walk_of_advance ha
      cases first with
      | none =>
          cases h
          exact hgap.reaches ⟨_, hfirst⟩
      | some first =>
          obtain ⟨lex, k₃, hlexeme, h⟩ := bind_ok.mp h
          cases h
          obtain ⟨rest, hrest, hchars⟩ := yields_lexeme first hlexeme
          have hwalk := hfirst.trans hrest
          rw [show charsOf (some first) = first.chars from rfl, ← hchars] at hwalk
          exact hgap.trans hwalk.takes

end Reading

end KayLex
