import KayLex.Cursor

/-!
The text that lies ahead of a cursor. A stream is characters first and then its fate:
the end, or a failure. As long as that fate counts as the end of the input, a cursor
over the stream is known by the characters ahead of it, and an action on the cursor
by which of them it passes.

`Passes p x cs a rest` says just that: at the position `p`, before the text
`cs ++ rest`, the action `x` passes `cs`, leaves `rest` ahead and answers `a`. How
the stream ends does not show in it, so what is proved of an action in this form
holds for a text, for a file, and for a source that breaks off.
-/

namespace KayLex

/-! ### What a stream holds -/

namespace Stream

/-- The characters at the front of some items. -/
def charsOf : List Item → List Char
  | .char c :: rest => c :: charsOf rest
  | _ => []

/-- The first failure among some items, or else the one that comes after them. -/
def fateOf (thereafter : Option Failure) : List Item → Option Failure
  | .char _ :: rest => fateOf thereafter rest
  | .fault f :: _ => some f
  | [] => thereafter

/-- The characters that a stream delivers before anything else. -/
def chars (s : Stream) : List Char := charsOf s.items

/-- The failure behind those characters, if they do not stand at the end. -/
def fate (s : Stream) : Option Failure := fateOf s.thereafter s.items

/-- Whether the characters are followed by what counts as the end. -/
def Quiet (s : Stream) : Prop := ∀ f, s.fate = some f → f.endsInput = true

theorem exists_fate_of_not_quiet {s : Stream} (h : ¬ s.Quiet) :
    ∃ f, s.fate = some f ∧ f.endsInput = false := by
  simpa only [Quiet, Classical.not_forall, Bool.not_eq_true, exists_prop] using h

@[simp] theorem charsOf_map_char (cs : List Char) : charsOf (cs.map .char) = cs := by
  induction cs with
  | nil => rfl
  | cons c cs ih => rw [List.map_cons, charsOf, ih]

theorem charsOf_append (cs : List Char) (items : List Item) :
    charsOf (cs.map .char ++ items) = cs ++ charsOf items := by
  induction cs with
  | nil => rfl
  | cons c cs ih => rw [List.map_cons, List.cons_append, charsOf, ih, List.cons_append]

theorem fateOf_append (thereafter : Option Failure) (cs : List Char) (items : List Item) :
    fateOf thereafter (cs.map .char ++ items) = fateOf thereafter items := by
  induction cs with
  | nil => rfl
  | cons c cs ih => rw [List.map_cons, List.cons_append, fateOf, ih]

@[simp] theorem fateOf_map_char (thereafter : Option Failure) (cs : List Char) :
    fateOf thereafter (cs.map .char) = thereafter := by
  rw [← List.append_nil (cs.map _), fateOf_append, fateOf]

@[simp] theorem chars_ofChars (cs : List Char) : (ofChars cs).chars = cs := charsOf_map_char cs

@[simp] theorem fate_ofChars (cs : List Char) : (ofChars cs).fate = none := fateOf_map_char none cs

theorem quiet_ofChars (cs : List Char) : (ofChars cs).Quiet := by
  intro f hf
  rw [fate_ofChars] at hf
  cases hf

theorem read_of_chars_cons {s : Stream} {c : Char} {cs : List Char} (h : s.chars = c :: cs) :
    ∃ s', s.read = (.ok (some c), s') ∧ s'.chars = cs ∧ s'.fate = s.fate := by
  obtain ⟨items, thereafter, closing, reads, closes⟩ := s
  cases items with
  | nil => cases h
  | cons item items =>
      cases item with
      | fault f => cases h
      | char d =>
          obtain ⟨rfl, rfl⟩ := List.cons.inj h
          exact ⟨_, rfl, rfl, rfl⟩

theorem read_of_chars_nil {s : Stream} (h : s.chars = []) :
    ∃ s', s.read = ((match s.fate with | none => .ok none | some f => .error f), s') := by
  obtain ⟨items, thereafter, closing, reads, closes⟩ := s
  cases items with
  | nil => exact ⟨_, rfl⟩
  | cons item items =>
      cases item with
      | char d => cases h
      | fault f => exact ⟨_, rfl⟩

end Stream

/-! ### What lies ahead of a cursor -/

namespace Cursor

/-- Exactly the given text lies ahead of the cursor. With nothing ahead it makes no
difference what the stream still holds. -/
def Ahead (k : Cursor) : List Char → Prop
  | [] => k.current = none
  | c :: cs =>
    k.current = some (.single c) ∧ k.closed = false ∧ k.stream.chars = cs ∧ k.stream.Quiet

theorem Ahead.current_eq {k : Cursor} {cs : List Char} (h : k.Ahead cs) :
    k.current = cs.head?.map .single := by
  cases cs with
  | nil => exact h
  | cons c cs => exact h.1

theorem Ahead.note {k : Cursor} {cs : List Char} (h : k.Ahead cs) (e : Event) :
    (k.note e).Ahead cs := by
  cases cs <;> exact h

theorem ahead_ofChars (name : String) (cs : List Char) : (ofChars name cs).Ahead cs := by
  cases cs with
  | nil => rfl
  | cons c cs =>
      refine ⟨rfl, rfl, Stream.charsOf_map_char cs, ?_⟩
      intro f hf
      rw [Stream.fate, ofChars, List.tail_cons, Stream.fateOf_map_char] at hf
      cases hf

/-- What loading puts on record if the characters of the stream end as given: the failure
behind them, if there is one. -/
def onEnd (k : Cursor) : List Char → List Event
  | [] => (k.stream.fate.map (.readFailed k.name k.position)).toList
  | _ :: _ => []

theorem load_of_quiet {k : Cursor} (hopen : k.closed = false) (hquiet : k.stream.Quiet) :
    load k = .ok () { k with
      stream := k.stream.read.2
      current := k.stream.chars.head?.map .single
      journal := k.onEnd k.stream.chars ++ k.journal } := by
  cases hchars : k.stream.chars with
  | cons c cs =>
      obtain ⟨s, hread, -⟩ := Stream.read_of_chars_cons hchars
      simp [load, hopen, hread, onEnd]
  | nil =>
      obtain ⟨s, hread⟩ := Stream.read_of_chars_nil hchars
      cases hfate : k.stream.fate with
      | none => simp [load, hopen, hread, hfate, onEnd]
      | some f => simp [load, hopen, hread, hfate, onEnd, note, hquiet f hfate]

theorem load_of_chars {k : Cursor} {cs : List Char} (hopen : k.closed = false)
    (hchars : k.stream.chars = cs) (hquiet : k.stream.Quiet) :
    ∃ k', load k = .ok () k' ∧ k'.Ahead cs ∧ k'.position = k.position := by
  refine ⟨_, load_of_quiet hopen hquiet, ?_, rfl⟩
  cases cs with
  | nil => simp [Ahead, hchars]
  | cons c cs =>
      obtain ⟨s, hread, hcs, hfate⟩ := Stream.read_of_chars_cons hchars
      refine ⟨by simp [hchars], hopen, ?_, ?_⟩
      · rw [hread]
        exact hcs
      · intro f hf
        rw [hread] at hf
        exact hquiet f (hfate ▸ hf)

theorem advance_of_current {k : Cursor} {x : Piece} (hc : k.current = some x) :
    advance k =
      match load { k with position := k.position.behind x } with
      | .ok _ k' => .ok (some x) k'
      | .error f k' => .error f k' := by
  unfold advance
  split
  · next h =>
    rw [hc] at h
    cases h
  · next y h =>
    rw [hc] at h
    cases h
    rfl

end Cursor

/-! ### Passing what lies ahead -/

namespace Reading

open Cursor

variable {α β : Type} {p : Position} {x : Reading α} {cs rest : List Char} {a : α}

/-- Before `cs ++ rest`, at the position `p`, the action passes `cs` and answers `a`. -/
def Passes (p : Position) (x : Reading α) (cs : List Char) (a : α) (rest : List Char) : Prop :=
  ∀ ⦃k : Cursor⦄, k.Ahead (cs ++ rest) → k.position = p →
    ∃ k', x k = .ok a k' ∧ k'.Ahead rest ∧ k'.position = p.afterAll cs

theorem Passes.pure (a : α) : Passes p (pure a) [] a rest := by
  intro k hk hp
  exact ⟨k, rfl, hk, hp⟩

theorem Passes.bind {f : α → Reading β} {ds : List Char} {b : β}
    (hx : Passes p x cs a (ds ++ rest)) (hf : Passes (p.afterAll cs) (f a) ds b rest) :
    Passes p (x >>= f) (cs ++ ds) b rest := by
  intro k hk hp
  rw [List.append_assoc] at hk
  obtain ⟨k₁, hx, hk₁, hp₁⟩ := hx hk hp
  obtain ⟨k₂, hf, hk₂, hp₂⟩ := hf hk₁ hp₁
  refine ⟨k₂, ?_, hk₂, by rw [hp₂, Position.afterAll_append]⟩
  rw [Action.bind_apply, hx]
  exact hf

theorem Passes.bind_nil {f : α → Reading β} {b : β} (hx : Passes p x cs a rest)
    (hf : Passes (p.afterAll cs) (f a) [] b rest) : Passes p (x >>= f) cs b rest := by
  rw [← List.append_nil cs]
  exact hx.bind hf

theorem Passes.bind_pure {f : α → β} (hx : Passes p x cs a rest) :
    Passes p (x >>= fun a => Pure.pure (f a)) cs (f a) rest :=
  hx.bind_nil (.pure (f a))

section Branch

variable {x : Reading Bool} {t e : Reading β} {ds : List Char} {b : β}

theorem Passes.bind_true (hx : Passes p x cs true (ds ++ rest))
    (ht : Passes (p.afterAll cs) t ds b rest) :
    Passes p (x >>= fun y => if y = true then t else e) (cs ++ ds) b rest :=
  hx.bind (by rwa [if_pos rfl])

theorem Passes.test_true (hx : Passes p x [] true (cs ++ rest)) (ht : Passes p t cs b rest) :
    Passes p (x >>= fun y => if y = true then t else e) cs b rest :=
  hx.bind_true ht

theorem Passes.test_false (hx : Passes p x [] false (cs ++ rest)) (he : Passes p e cs b rest) :
    Passes p (x >>= fun y => if y = true then t else e) cs b rest :=
  hx.bind (by rwa [if_neg Bool.false_ne_true])

end Branch

/-- Looking at the cursor tells an action no more than the position. -/
theorem Passes.get {f : Cursor → Reading β} {b : β}
    (hf : ∀ k, k.position = p → Passes p (f k) cs b rest) :
    Passes p (MonadState.get >>= f) cs b rest := by
  intro k hk hp
  exact hf k hp hk hp

theorem passes_advance (c : Char) : Passes p advance [c] (some (.single c)) rest := by
  intro k hk hp
  obtain ⟨hc, hopen, hchars, hquiet⟩ := hk
  obtain ⟨k', hload, hk', hp'⟩ :=
    load_of_chars (k := { k with position := k.position.behind (.single c) }) hopen hchars hquiet
  refine ⟨k', by rw [advance_of_current hc, hload], hk', ?_⟩
  rw [hp', ← hp]
  exact Position.behind_single ..

theorem passes_advance_end : Passes p advance [] none [] := by
  intro k hk hp
  have hc : k.current = none := hk
  exact ⟨k, by simp [advance, hc], hk, hp⟩

theorem passes_accept (c : Char) : Passes p (accept (.single c)) [c] true rest := by
  intro k hk hp
  obtain ⟨k', ha, hk'⟩ := passes_advance c hk hp
  have hc : k.current = some (.single c) := hk.1
  exact ⟨k', by simp [accept, hc, ha], hk'⟩

theorem passes_accept_of_ne {c : Char} (h : rest.head? ≠ some c) :
    Passes p (accept (.single c)) [] false rest := by
  intro k hk hp
  refine ⟨k, ?_, hk, hp⟩
  have hc : k.current = rest.head?.map .single := Ahead.current_eq hk
  have hne : k.current ≠ some (.single c) := by
    rw [hc]
    cases hr : rest.head? with
    | none => simp
    | some d => simpa [hr] using h
  simp [accept, hne]

end Reading

end KayLex
