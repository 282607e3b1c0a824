import KayLex.Drain
import Mathlib.Logic.Relation

/-!
What the scanner does to its cursor. However a lexeme is found, the cursor gets from
one state to the other by `advance` alone; and if the scanner fails, it fails because
an `advance` has failed. So a property that `advance` keeps is kept by the scanner,
and nothing has to be proved about it for each branch and loop.
-/

namespace KayLex

@[simp] theorem Stream.closing_read (s : Stream) : s.read.2.closing = s.closing := by
  unfold Stream.read
  split <;> rfl

namespace Cursor

variable {α : Type} {k k₁ k' : Cursor} {a : Option Piece} {r : Outcome α}

/-- The cursor gets from one state to the other by one `advance`. -/
def Step (k k' : Cursor) : Prop := ∃ a, advance k = .ok a k'

/-- The cursor gets from one state to the other by any number of them. -/
abbrev Steps : Cursor → Cursor → Prop := Relation.ReflTransGen Step

/-- An outcome that steps lead to: a state that they reach, or the failure of one more
`advance`. -/
def Leads (k : Cursor) : Outcome α → Prop
  | .ok _ k' => Steps k k'
  | .error f k' => ∃ k₁, Steps k k₁ ∧ advance k₁ = .error f k'

theorem steps_of_advance (h : advance k = .ok a k') : Steps k k' := .single ⟨a, h⟩

theorem leads_ok (b : α) : Leads k (.ok b k : Outcome α) := .refl

theorem leads_error {f : Failure} (h : advance k = .error f k') :
    Leads k (.error f k' : Outcome α) := ⟨k, .refl, h⟩

theorem Leads.after (hsteps : Steps k k₁) (h : Leads k₁ r) : Leads k r := by
  cases r with
  | ok b k' => exact hsteps.trans h
  | error f k' =>
      obtain ⟨k₂, hsteps₂, hadv⟩ := h
      exact ⟨k₂, hsteps.trans hsteps₂, hadv⟩

theorem Leads.after_advance (ha : advance k = .ok a k₁) (h : Leads k₁ r) : Leads k r :=
  h.after (steps_of_advance ha)

end Cursor

namespace Reading

open Cursor

variable {α β : Type}

/-- An action that only advances, and fails only if that fails. -/
def Stepwise (x : Reading α) : Prop := ∀ k, Leads k (x k)

theorem Stepwise.ok {x : Reading α} (hx : Stepwise x) {k k' : Cursor} {a : α}
    (h : x k = .ok a k') : Steps k k' := by
  have := hx k
  rwa [h] at this

theorem Stepwise.error {x : Reading α} (hx : Stepwise x) {k k' : Cursor} {f : Failure}
    (h : x k = .error f k') : ∃ k₁, Steps k k₁ ∧ advance k₁ = .error f k' := by
  have := hx k
  rwa [h] at this

theorem stepwise_pure (a : α) : Stepwise (pure a) := fun _ => leads_ok a

theorem stepwise_get : Stepwise (get : Reading Cursor) := fun k => leads_ok k

theorem stepwise_looking (p : Char → Bool) : Stepwise (looking p) := fun _ => leads_ok _

theorem Stepwise.bind {x : Reading α} {f : α → Reading β} (hx : Stepwise x)
    (hf : ∀ a, Stepwise (f a)) : Stepwise (x >>= f) := by
  intro k
  have hk := hx k
  rw [Action.bind_apply]
  cases h : x k with
  | ok a k₁ =>
      rw [h] at hk
      exact (hf a k₁).after hk
  | error f k₁ =>
      rw [h] at hk
      exact hk

theorem stepwise_advance : Stepwise advance := by
  intro k
  cases h : advance k with
  | ok a k' => exact steps_of_advance h
  | error f k' => exact leads_error h

theorem stepwise_accept (x : Piece) : Stepwise (accept x) := by
  intro k
  unfold accept
  split
  · split
    · next ha => exact steps_of_advance ha
    · next ha => exact leads_error ha
  · exact .refl

/-! ### The loops -/

theorem stepwise_passWhile (p : Char → Bool) (passed : List Char) :
    Stepwise (passWhile p passed) := by
  intro k
  fun_induction passWhile p passed k with
  | case1 | case4 => exact leads_ok _
  | case2 passed k x hc hp a k' ha ih => exact ih.after_advance ha
  | case3 passed k x hc hp f k' ha => exact leads_error ha

theorem stepwise_run (p : Char → Bool) : Stepwise (run p) := stepwise_passWhile p []

theorem stepwise_passBlock : Stepwise passBlock := by
  intro k
  fun_induction passBlock k with
  | case1 k f k' ha => exact leads_error ha
  | case2 k k' ha => exact steps_of_advance ha
  | case3 k k' f k'' hs ha =>
      have hk' := stepwise_accept (.single '/') k'
      rw [hs] at hk'
      exact hk'.after_advance ha
  | case4 k k' k'' hs ha => exact (steps_of_advance ha).trans ((stepwise_accept _).ok hs)
  | case5 k k' k'' hs ha ih => exact (ih.after ((stepwise_accept _).ok hs)).after_advance ha
  | case6 k x k' ha hx ih => exact ih.after_advance ha

theorem stepwise_passGap : Stepwise passGap := by
  intro k
  have hblanks {k k₁ : Cursor} {cs : List Char}
      (h : passWhile Text.isBlank [] k = .ok cs k₁) : Steps k k₁ :=
    (stepwise_run _).ok h
  fun_induction passGap k with
  | case1 k f k' hb =>
      have hk := stepwise_run Text.isBlank k
      rwa [run, hb] at hk
  | case2 k blanks k₁ hb hc f k' ha => exact (leads_error ha).after (hblanks hb)
  | case3 k blanks k₁ hb hc a k₂ ha hline f k' hl =>
      have hk₂ := stepwise_run (!Lexicon.endsLine ·) k₂
      rw [run, hl] at hk₂
      exact (Leads.after_advance ha hk₂).after (hblanks hb)
  | case4 k blanks k₁ hb hc a k₂ ha hline comment k₃ hl ih =>
      exact ((ih.after ((stepwise_run _).ok hl)).after_advance ha).after (hblanks hb)
  | case5 k blanks k₁ hb hc a k₂ ha hline hblock f k' hs =>
      exact ((leads_error hs).after_advance ha).after (hblanks hb)
  | case6 k blanks k₁ hb hc a k₂ ha hline hblock star k₃ hs f k' hl =>
      have hk₃ := stepwise_passBlock k₃
      rw [hl] at hk₃
      exact ((Leads.after_advance hs hk₃).after_advance ha).after (hblanks hb)
  | case7 k blanks k₁ hb hc a k₂ ha hline hblock star k₃ hs u k₄ hl ih =>
      exact (((ih.after (stepwise_passBlock.ok hl)).after_advance hs).after_advance ha).after
        (hblanks hb)
  | case8 k blanks k₁ hb hc a k₂ ha => exact (hblanks hb).trans (steps_of_advance ha)
  | case9 k blanks k₁ hb => exact hblanks hb

/-! ### The branches -/

theorem stepwise_word (first : Piece) : Stepwise (word first) :=
  (stepwise_run _).bind fun _ => stepwise_pure _

theorem stepwise_numeral (first : Piece) : Stepwise (numeral first) := by
  refine (stepwise_run _).bind fun digits => (stepwise_looking _).bind fun spoilt => ?_
  split
  · exact (stepwise_run _).bind fun _ => stepwise_pure _
  · exact stepwise_pure _

theorem stepwise_doubled (x next : Piece) (alone : Kind) : Stepwise (doubled x next alone) := by
  refine (stepwise_accept _).bind fun both => ?_
  split <;> exact stepwise_pure _

theorem stepwise_symbol (x : Piece) : Stepwise (symbol x) := by
  unfold symbol
  repeat' split
  all_goals first | exact stepwise_doubled _ _ _ | exact stepwise_pure _

theorem stepwise_lexeme (first : Piece) : Stepwise (lexeme first) := by
  unfold lexeme
  split
  · exact stepwise_word first
  · split
    · exact stepwise_numeral first
    · exact stepwise_symbol first

theorem stepwise_found : Stepwise found := by
  refine Stepwise.bind stepwise_passGap fun slash => ?_
  cases slash with
  | some start => exact stepwise_pure _
  | none =>
      refine stepwise_get.bind fun k => stepwise_advance.bind fun first => ?_
      cases first with
      | none => exact stepwise_pure _
      | some first => exact (stepwise_lexeme first).bind fun _ => stepwise_pure _

end Reading

/-! ### What no step changes -/

namespace Cursor

variable {k k₁ k' : Cursor}

/-- The name, whose the stream is, whether the cursor has been closed, and what closing the
stream fails with, are the same. -/
structure SameFrame (k k' : Cursor) : Prop where
  name_eq : k'.name = k.name
  owned_eq : k'.owned = k.owned
  closed_eq : k'.closed = k.closed
  closing_eq : k'.stream.closing = k.stream.closing

theorem SameFrame.refl (k : Cursor) : SameFrame k k := ⟨rfl, rfl, rfl, rfl⟩

theorem SameFrame.trans (h : SameFrame k k₁) (h' : SameFrame k₁ k') : SameFrame k k' :=
  ⟨h'.name_eq.trans h.name_eq, h'.owned_eq.trans h.owned_eq, h'.closed_eq.trans h.closed_eq,
    h'.closing_eq.trans h.closing_eq⟩

theorem frame_of_load {u : Unit} (h : load k = .ok u k') : SameFrame k k' := by
  unfold load at h
  split at h
  · cases h
    exact ⟨rfl, rfl, rfl, rfl⟩
  · have hclosing := Stream.closing_read k.stream
    split at h
    · next next stream hr =>
      cases h
      rw [hr] at hclosing
      exact ⟨rfl, rfl, rfl, hclosing⟩
    · next f stream hr =>
      rw [hr] at hclosing
      split at h
      · cases h
        exact ⟨rfl, rfl, rfl, hclosing⟩
      · cases h

theorem frame_of_start {name : String} {stream : Stream} {owned : Bool}
    (h : start name stream owned = .ok k) : SameFrame { name, stream, owned } k := by
  unfold start at h
  split at h
  · next hload =>
    cases h
    exact frame_of_load hload
  · cases h

theorem Step.frame (h : Step k k') : SameFrame k k' := by
  obtain ⟨a, h⟩ := h
  unfold advance at h
  split at h
  · cases h
    exact .refl k
  · split at h
    · next hl =>
      cases h
      obtain ⟨hname, howned, hclosed, hclosing⟩ := frame_of_load hl
      exact ⟨hname, howned, hclosed, hclosing⟩
    · cases h

theorem Steps.frame (h : Steps k k') : SameFrame k k' := by
  induction h with
  | refl => exact .refl k
  | tail _ hstep ih => exact ih.trans hstep.frame

end Cursor

end KayLex
