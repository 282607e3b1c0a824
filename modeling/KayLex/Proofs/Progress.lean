import KayLex.Proofs.Interruptions

/-!
How far a scan goes, and that it goes on. Every piece that is passed moves the cursor by one
place and costs one read at most, and it is either the one that is shown or one that the stream
has yet to hand out. So a call of `next` comes to its end within as many reads as there are
items left and one more, wherever the cursor has been left by failures and by whoever has put a
character in front of it, and as long as only single characters are put there, a token moves
the cursor by at least its length.
-/

namespace KayLex

open Cursor Reading KayLex.Action

/-! ### Cursors -/

namespace Cursor

variable {α : Type} {k k₀ k₁ k' : Cursor} {a : Option Piece} {f : Failure} {passed : List Char}
  {r : Outcome α}

theorem position_left_load (k : Cursor) : (left (load k)).position = k.position := by
  unfold load
  split
  · rfl
  · split
    · rfl
    · split <;> rfl

theorem reads_left_load_le (k : Cursor) :
    (left (load k)).stream.reads ≤ k.stream.reads + 1 := by
  have hreads := Stream.reads_read k.stream
  unfold load
  split
  · exact Nat.le_succ _
  · split
    · next hr =>
      rw [hr] at hreads
      exact Nat.le_of_eq hreads
    · next hr =>
      rw [hr] at hreads
      split <;> exact Nat.le_of_eq hreads

theorem remaining_le_items (k : Cursor) : k.remaining ≤ k.stream.items.length + 1 := by
  unfold remaining
  split
  · exact Nat.le_refl _
  · exact Nat.le_add_right _ _

/-- The cursor has been moved no further than what remained to be passed, and it has not read
more often than it was moved. -/
structure Moved (k k' : Cursor) : Prop where
  reads_le : k'.stream.reads + k.position.offset ≤ k.stream.reads + k'.position.offset
  offset_le : k'.position.offset ≤ k.position.offset + k.remaining

theorem Moved.refl (k : Cursor) : Moved k k := ⟨Nat.le_refl _, Nat.le_add_right _ _⟩

/-- The offset counts what is passed, also if the read behind it fails. The end is not passed. -/
theorem offset_left_advance (k : Cursor) :
    (left (advance k)).position.offset =
      k.position.offset + if k.current.isSome then 1 else 0 := by
  cases hc : k.current with
  | none =>
      rw [advance_of_end hc]
      rfl
  | some x =>
      have hposition := position_left_load { k with position := k.position.behind x }
      rw [advance_of_current hc]
      split <;> next hload =>
        rw [hload] at hposition
        exact (congrArg Position.offset hposition).trans (Position.offset_behind ..)

/-- A step: nothing is read unless something is passed. -/
theorem left_advance_reads_le (k : Cursor) :
    (left (advance k)).stream.reads + k.position.offset ≤
      k.stream.reads + (left (advance k)).position.offset := by
  rcases left_advance_cases k with hstay | ⟨x, hload⟩
  · rw [hstay]
  · have hreads := reads_left_load_le { k with position := k.position.behind x }
    dsimp only at hreads
    rw [hload, position_left_load, Position.offset_behind]
    omega

theorem offset_add_remaining_le_of_advance (h : advance k = .ok a k') :
    k'.position.offset + k'.remaining ≤ k.position.offset + k.remaining := by
  have hoffset := offset_left_advance k
  rw [h] at hoffset
  change k'.position.offset = _ at hoffset
  cases hc : k.current with
  | none =>
      rw [advance_of_end hc] at h
      cases h
      exact Nat.le_refl _
  | some x =>
      have hlt := remaining_lt_of_advance hc h
      rw [hc, Option.isSome_some, if_pos rfl] at hoffset
      omega

theorem moved_of_advance_error (h : advance k = .error f k') : Moved k k' := by
  have hreads := left_advance_reads_le k
  have hoffset := offset_left_advance k
  rw [h] at hreads hoffset
  refine ⟨hreads, ?_⟩
  change k'.position.offset = _ at hoffset
  rw [hoffset, remaining]
  exact Nat.add_le_add_left (Nat.le_add_left _ _) _

/-- A run: however often the cursor advances, it has moved away from what remained. -/
theorem Steps.moved (h : Steps k k') :
    k'.stream.reads + k.position.offset ≤ k.stream.reads + k'.position.offset ∧
      k'.position.offset + k'.remaining ≤ k.position.offset + k.remaining := by
  induction h with
  | refl => exact ⟨Nat.le_refl _, Nat.le_refl _⟩
  | @tail k₁ k₂ _ hstep ih =>
      obtain ⟨a, ha⟩ := hstep
      have hreads := left_advance_reads_le k₁
      have hremaining := offset_add_remaining_le_of_advance ha
      rw [ha] at hreads
      change k₂.stream.reads + _ ≤ _ + k₂.position.offset at hreads
      omega

theorem Leads.moved (h : Leads k r) : Moved k (left r) := by
  cases r with
  | ok b k' =>
      obtain ⟨hreads, hremaining⟩ := Steps.moved h
      exact ⟨hreads, Nat.le_trans (Nat.le_add_right _ _) hremaining⟩
  | error f k' =>
      obtain ⟨k₁, hsteps, ha⟩ := h
      obtain ⟨hreads, hremaining⟩ := Steps.moved hsteps
      obtain ⟨hreads₁, hoffset₁⟩ := moved_of_advance_error ha
      refine ⟨?_, ?_⟩ <;> dsimp only [left] <;> omega

/-! #### Single characters -/

/-- The cursor shows no piece that is longer than a character. -/
def Single (k : Cursor) : Prop := ∀ x ∈ k.current, x.rest = []

theorem single_left_load (h : k.Single) : (left (load k)).Single := by
  have hnone {k : Cursor} (h : k.current = none) : k.Single := fun x hx => by
    rw [h] at hx
    cases hx
  unfold load
  split
  · exact hnone rfl
  · split
    · next next stream hr =>
      intro x hx
      obtain ⟨c, -, rfl⟩ := Option.map_eq_some_iff.mp hx
      rfl
    · split
      · exact hnone rfl
      · exact h

theorem single_left_advance (h : k.Single) : (left (advance k)).Single := by
  rcases left_advance_cases k with hstay | ⟨x, hload⟩
  · rwa [hstay]
  · rw [hload]
    exact single_left_load (k := { k with position := k.position.behind x }) h

theorem single_left_close (h : k.Single) : (left (Cursor.close k)).Single := by
  cases hclosed : k.closed with
  | true => rwa [left_close_of_closed hclosed]
  | false =>
      intro x hx
      rw [current_left_close hclosed] at hx
      cases hx

/-- A run: as long as single characters are shown, what is passed counts character by character,
and a failure counts as well. -/
theorem Walk.offset_le (hsingle : k₀.Single) (h : Walk k₀ passed k) :
    k.Single ∧ k₀.position.offset + passed.length ≤ k.position.offset := by
  induction h with
  | start => exact ⟨hsingle, Nat.le_refl _⟩
  | @pass passed k k' a _ ha ih =>
      obtain ⟨hk, hpassed⟩ := ih
      have hsingle' := single_left_advance hk
      have hoffset := offset_left_advance k
      rw [ha] at hsingle' hoffset
      refine ⟨hsingle', ?_⟩
      change k'.position.offset = _ at hoffset
      rw [hoffset, current_of_advance ha, List.length_append]
      cases a with
      | none => exact hpassed
      | some x =>
          have hrest := hk x (current_of_advance ha)
          simp only [charsOf, Option.map_some, Option.getD_some, Piece.chars, hrest,
            List.length_singleton, Option.isSome_some, if_true]
          omega
  | @fail passed k k' f _ ha ih =>
      have hsingle' := single_left_advance ih.1
      have hoffset := offset_left_advance k
      rw [ha] at hsingle' hoffset
      refine ⟨hsingle', Nat.le_trans ih.2 ?_⟩
      exact hoffset ▸ Nat.le_add_right _ _
  | note _ _ ih => exact ih
  | close _ ih =>
      rw [position_left_close]
      exact ⟨single_left_close ih.1, ih.2⟩

end Cursor

/-! ### Scanners -/

theorem InTurn.length_le {piece text : List Char} (h : InTurn [piece] text) :
    piece.length ≤ text.length := by
  cases h with
  | cons gap piece h =>
      rw [List.length_append, List.length_append]
      omega

theorem Reading.lexeme_ne_nil_of_found {k k' : Cursor} {x : Found}
    (h : found k = .ok (some x) k') : x.lexeme ≠ [] := by
  obtain ⟨slash, k₁, -, h⟩ := bind_ok.mp h
  cases slash with
  | some start =>
      cases h
      exact List.cons_ne_nil _ _
  | none =>
      obtain ⟨_, _, ⟨⟩, h⟩ := bind_ok.mp h
      obtain ⟨first, k₂, -, h⟩ := bind_ok.mp h
      cases first with
      | none => cases h
      | some first =>
          obtain ⟨lex, k₃, hlexeme, h⟩ := bind_ok.mp h
          cases h
          obtain ⟨rest, -, hchars⟩ := yields_lexeme first hlexeme
          dsimp only at hchars ⊢
          rw [hchars]
          exact List.cons_ne_nil _ _

namespace Scanner

variable {s s' : Scanner} {t : Token}

/-- A call reads no more often than it moves the cursor, and it moves it no further than what
remains to be passed. -/
theorem moved_left_next (s : Scanner) : Moved s.cursor (left (next s)).cursor := by
  have hfound := (stepwise_found s.cursor).moved
  rw [next_apply]
  split
  · exact .refl _
  · cases hf : found s.cursor with
    | error f k =>
        rw [hf] at hfound
        exact hfound
    | ok x k =>
        rw [hf] at hfound
        cases x with
        | some x =>
            show Moved s.cursor (if _ then _ else _)
            split <;> exact ⟨hfound.reads_le, hfound.offset_le⟩
        | none =>
            have hend : k.current = none := current_of_found_none hf
            have hrests (e : Event) : Rests (k.note e) (left (Cursor.close (k.note e))) :=
              rests_left_close hend
            show Moved s.cursor (left (finish { s with cursor := k })).cursor
            rw [left_finish]
            dsimp only
            refine ⟨?_, ?_⟩
            · rw [(hrests _).reads_eq, (hrests _).position_eq]
              exact hfound.reads_le
            · rw [(hrests _).position_eq]
              exact hfound.offset_le

theorem offset_le_of_next (hsingle : s.cursor.Single) (h : next s = .ok t s')
    (ht : t.isEnd = false) :
    1 ≤ t.lexeme.length ∧
      s.cursor.position.offset + t.lexeme.length ≤ s'.cursor.position.offset := by
  obtain ⟨passed, hwalk, hturn⟩ := takes_of_next h
  have htexts : textsOf [t] = [t.lexeme.toList] := by simp [textsOf, ht]
  rw [htexts] at hturn
  have hlength := hturn.length_le
  have hoffset := (hwalk.offset_le hsingle).2
  rw [String.length_toList] at hlength
  refine ⟨?_, by omega⟩
  rw [next_apply] at h
  split at h
  · cases h
    cases ht
  · split at h
    · next x k hfound =>
      cases h
      rw [Found.token, String.length_ofList]
      exact List.length_pos_iff.mpr (lexeme_ne_nil_of_found hfound)
    · obtain rfl := eq_sentinel_of_finish h
      cases ht
    · cases h

/-- A run: a scan to the end finds no more tokens than pieces remain to be passed. -/
theorem length_drainFrom_le (found : List Token) (s : Scanner) :
    (drainFrom found s).tokens.length ≤ found.length + s.cursor.remaining := by
  fun_induction drainFrom found s with
  | case1 found s f s' hnext => simp
  | case2 found s t s' hnext ht => simp
  | case3 found s t s' hnext ht ih =>
      have hlt := remaining_lt_of_next hnext (by simpa using ht)
      rw [List.length_cons] at ih
      omega

end Scanner

/-! ### Sessions -/

/-- Whether a request puts no longer text in front than a character. -/
def Request.putsSingle : Request → Bool
  | replace text => text.length ≤ 1
  | next | all | openFeed | pull _ | close | advance _ | accept _ => true

namespace Session

variable {σ : Stream} {name : String} {owned : Bool} {s₀ : Scanner} {s : Session} {r : Request}
  {rs : List Request}

/-- A step: nothing longer than a character comes to be shown. -/
theorem single_left_serve (hr : r.putsSingle = true) (h : s.scanner.cursor.Single) :
    (left (serve r s)).scanner.cursor.Single := by
  cases hleaves : r.leavesText with
  | true =>
      obtain ⟨passed, hwalk⟩ := reaches_serve hleaves s
      exact (hwalk.offset_le h).1
  | false =>
      cases r with
      | replace text =>
          intro x hx
          change Piece.ofChars? text = some x at hx
          have hlength : text.length ≤ 1 := of_decide_eq_true hr
          rw [← Piece.ofChars?_eq_some_iff.mp hx, Piece.chars, List.length_cons] at hlength
          exact List.eq_nil_of_length_eq_zero (by omega)
      | next | all | openFeed | pull | close | advance | accept => cases hleaves

theorem single_after (hrs : ∀ r ∈ rs, r.putsSingle = true) (h : s.scanner.cursor.Single) :
    (s.after rs).cursor.Single := by
  induction rs generalizing s with
  | nil => exact h
  | cons r rs ih =>
      rw [after_cons]
      exact ih (fun q hq => hrs q (List.mem_cons_of_mem r hq))
        (single_left_serve (hrs r (List.mem_cons_self ..)) h)

/-- Scanning always ends and always gets on. Whatever has been asked of the scanner of a stream,
with whatever failures and with whatever character put in front, the next call makes one read
more at most than the stream has items left, and it moves the cursor no further than that; if
it answers a token of the text, it has moved the cursor by the length of the token at least;
and a scan to the end is over within two calls more than there are items left. -/
theorem scan_progresses (h : Scanner.ofStream σ name owned = .ok s₀) (rs : List Request)
    (hrs : ∀ r ∈ rs, r.putsSingle = true) :
    let s := after { scanner := s₀ } rs
    (left (Scanner.next s)).cursor.stream.reads ≤
        s.cursor.stream.reads + (s.cursor.stream.items.length + 1) ∧
      (left (Scanner.next s)).cursor.position.offset ≤
        s.cursor.position.offset + (s.cursor.stream.items.length + 1) ∧
      (∀ t s', Scanner.next s = .ok t s' → t.isEnd = false →
        1 ≤ t.lexeme.length ∧
          s.cursor.position.offset + t.lexeme.length ≤ s'.cursor.position.offset) ∧
      s.drain.calls.length ≤ s.cursor.stream.items.length + 2 := by
  intro s
  obtain ⟨k₀, hstart, rfl⟩ := exists_start_of_ofStream h
  have hfirst : k₀.Single := by
    rcases (tracks_of_start hstart).shows with hnone | ⟨c, hc, -⟩
    · exact fun x hx => by rw [hnone] at hx; cases hx
    · exact fun x hx => by rw [hc] at hx; cases hx; rfl
  have hsingle : s.cursor.Single := single_after (s := { scanner := ⟨k₀, false, 0⟩ }) hrs hfirst
  have hmoved := Scanner.moved_left_next s
  have hremaining := remaining_le_items s.cursor
  have htokens := Scanner.length_drainFrom_le [] s
  refine ⟨?_, ?_, fun t s' hnext ht => Scanner.offset_le_of_next hsingle hnext ht, ?_⟩
  · have := hmoved.reads_le
    have := hmoved.offset_le
    omega
  · exact Nat.le_trans hmoved.offset_le (Nat.add_le_add_left hremaining _)
  · change s.drain.tokens.length ≤ 0 + s.cursor.remaining at htokens
    rw [Scanner.Drained.calls, List.length_append, List.length_map, List.length_singleton]
    omega

/-- A word is interrupted behind its first character, and another one is put in its place: the
next token takes both items that are left, and no read could have been spared. -/
theorem scan_progresses_replaced :
    let σ : Stream := { items := [.char 'a', .fault (.badState "boom"), .char 'b', .char 'c'] }
    ∃ s₀, Scanner.ofStream σ "pipe" = .ok s₀ ∧
      let s := after { scanner := s₀ } [.next, .replace ['x']]
      s.cursor.stream.items = [.char 'b', .char 'c'] ∧
        told (Scanner.next s) = .ok ⟨.identifier, "xbc", 1, 2, 1, "pipe"⟩ ∧
        (left (Scanner.next s)).cursor.stream.reads = s.cursor.stream.reads + (2 + 1) ∧
        (left (Scanner.next s)).cursor.stream.reads ≤
          s.cursor.stream.reads + (s.cursor.stream.items.length + 1) ∧
        s.drain.calls.length ≤ s.cursor.stream.items.length + 2 := by
  intro σ
  obtain ⟨s₀, hs⟩ : ∃ s, Scanner.ofStream σ "pipe" = .ok s := ⟨_, rfl⟩
  obtain ⟨hreads, -, -, hcalls⟩ := scan_progresses hs [.next, .replace ['x']] (by decide)
  refine ⟨s₀, hs, ?_, ?_, ?_, hreads, hcalls⟩
  all_goals
    cases hs
    decide +kernel

end Session

end KayLex
