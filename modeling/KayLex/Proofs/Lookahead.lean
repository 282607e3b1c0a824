import KayLex.Proofs.Cursor.Lookahead
import KayLex.Proofs.Session.Walks

/-!
One character of lookahead, whoever asks for what. Consumers take tokens, move the cursor
and close it in any order, over a stream that ends or breaks off; at any time the cursor
has passed the first characters of the stream and has read one item more.
-/

namespace KayLex

open Cursor Grammar KayLex.Action

namespace Cursor

variable {σ : Stream} {name : String} {passed : List Char} {k₀ k : Cursor}

/-- The cursor `k₀` over the stream `σ` has become `k`: all that it has passed on the way are
the characters before its offset, it shows the one that comes next, and nothing behind that
one has been read. -/
structure OneAhead (σ : Stream) (k₀ k : Cursor) : Prop where
  walk_iff : ∀ passed, Walk k₀ passed k ↔ passed = σ.chars.take k.position.offset
  offset_le : k.position.offset ≤ σ.chars.length
  current_eq : k.current = if k.closed then none else σ.chars[k.position.offset]?.map .single
  reads_eq : k.stream.reads = σ.reads + (k.position.offset + 1)

theorem Follows.oneAhead (hquiet : σ.Quiet) (h : Follows σ name [] k₀) (hwalk : Walk k₀ passed k) :
    OneAhead σ k₀ k := by
  have hpassed {cs : List Char} (hcs : Walk k₀ cs k) : Follows σ name cs k := h.walk hquiet hcs
  have hk := hpassed hwalk
  refine ⟨fun cs => ⟨fun hcs => (hpassed hcs).eq_take, ?_⟩, ?_, ?_, ?_⟩
  · rintro rfl
    rwa [← hk.eq_take]
  · rw [hk.offset_eq]
    exact hk.isPrefix.length_le
  · rw [hk.offset_eq]
    exact hk.current_eq
  · rw [hk.offset_eq]
    exact hk.reads_eq

theorem Follows.exists_ahead (hquiet : σ.Quiet) (h : Follows σ name passed k) :
    ∃ cs, k.Ahead cs := by
  cases hclosed : k.closed with
  | false => exact ⟨_, h.ahead hquiet hclosed⟩
  | true => exact ⟨[], h.current_eq.trans (if_pos hclosed)⟩

end Cursor

namespace Scanner

variable {s s' : Scanner} {t : Token} {cs : List Char}

/-- The cursor is never moved past the lexeme of the token that is answered. -/
theorem offset_of_next (hahead : s.cursor.Ahead cs) (hnext : next s = .ok t s')
    (ht : t.isEnd = false) :
    (s'.cursor.position.offset : Int) = t.offset + t.lexeme.length := by
  cases hfinished : s.finished with
  | true =>
      rw [next_of_finished hfinished] at hnext
      cases hnext
      cases ht
  | false =>
      have hfacing := facing_of_ahead hahead hfinished
      cases hmore : (lexemesFrom s.cursor.position cs).1 with
      | nil =>
          rw [hmore] at hfacing
          obtain ⟨k, hfinish, -⟩ := next_of_facing_nil hfacing hfinished
          obtain rfl := eq_sentinel_of_finish (hfinish.symm.trans hnext)
          cases ht
      | cons x more =>
          rw [hmore] at hfacing
          obtain ⟨s₁, hs₁, -, -, hposition, -⟩ := next_of_facing_cons hfacing
          rw [hs₁] at hnext
          cases hnext
          rw [hposition, Position.offset_afterAll, Found.token, String.length_ofList,
            Int.natCast_add]

end Scanner

namespace Session

variable {σ : Stream} {name : String} {s : Session} {rs rs' : List Request}

theorem after_append_of_closed (hquiet : σ.Quiet) (h : Follows σ name [] s.scanner.cursor)
    (hrs : ∀ r ∈ rs, r.leavesText = true) (hrs' : ∀ r ∈ rs', r.leavesText = true)
    (hclosed : (s.after rs).cursor.closed = true) :
    (s.after (rs ++ rs')).cursor.closed = true ∧
      (s.after (rs ++ rs')).cursor.current = none ∧
      (s.after (rs ++ rs')).cursor.position = (s.after rs).cursor.position := by
  obtain ⟨passed, hwalk⟩ := reaches_after hrs s
  have hcurrent := (h.walk hquiet hwalk).current_eq.trans (if_pos hclosed)
  rw [after_append]
  obtain ⟨passed', hwalk'⟩ := reaches_after hrs' (serveAll rs s).2
  rw [hwalk'.of_closed hclosed hcurrent]
  exact ⟨hclosed, hcurrent, rfl⟩

/-- One character of lookahead. The stream may end, or break off with a failure that counts
as the end, and its cursor may own it or not. -/
theorem cursor_oneAhead (hquiet : σ.Quiet) (name : String) (owned : Bool) :
    ∃ s, Scanner.ofStream σ name owned = .ok s ∧
      ∀ rs, (∀ r ∈ rs, r.leavesText = true) →
        OneAhead σ s.cursor (after { scanner := s } rs).cursor ∧
        (∀ t s', Scanner.next (after { scanner := s } rs) = .ok t s' → t.isEnd = false →
          (s'.cursor.position.offset : Int) = t.offset + t.lexeme.length) ∧
        ∀ rs', (∀ r ∈ rs', r.leavesText = true) →
          (after { scanner := s } rs).cursor.closed = true ∨ rs'.head? = some .close →
          (after { scanner := s } (rs ++ rs')).cursor.closed = true ∧
          (after { scanner := s } (rs ++ rs')).cursor.current = none ∧
          (after { scanner := s } (rs ++ rs')).cursor.position =
            (after { scanner := s } rs).cursor.position := by
  obtain ⟨k₀, hstart, hk₀, -⟩ := exists_start hquiet name owned
  refine ⟨⟨k₀, false, 0⟩, by rw [Scanner.ofStream, hstart]; rfl, fun rs hrs => ?_⟩
  obtain ⟨passed, hwalk⟩ := reaches_after hrs { scanner := ⟨k₀, false, 0⟩ }
  refine ⟨hk₀.oneAhead hquiet hwalk, fun t s' hnext ht => ?_, fun rs' hrs' hend => ?_⟩
  · obtain ⟨cs, hahead⟩ := (hk₀.walk hquiet hwalk).exists_ahead hquiet
    exact Scanner.offset_of_next hahead hnext ht
  · rcases hend with hclosed | hhead
    · exact after_append_of_closed hquiet hk₀ hrs hrs' hclosed
    · obtain ⟨later, rfl⟩ := List.head?_eq_some_iff.mp hhead
      obtain ⟨hclosed, hposition⟩ := after_close { scanner := ⟨k₀, false, 0⟩ } rs
      rw [← hposition, ← List.singleton_append, ← List.append_assoc]
      refine after_append_of_closed hquiet hk₀ (fun r hr => ?_)
        (fun r hr => hrs' r (List.mem_cons_of_mem _ hr)) hclosed
      rcases List.mem_append.mp hr with hr | hr
      · exact hrs r hr
      · exact hrs' r (List.mem_cons.mpr (.inl (List.mem_singleton.mp hr)))

/-- A pipe that breaks after three characters, though there is a fourth one behind. -/
def brokenPipe : Stream :=
  { items := [.char 'a', .char ' ', .char 'b', .fault (.device "broken pipe"), .char 'c'] }

/-- The pipe is read in turn by two consumers, and it is closed before its end. -/
theorem cursor_oneAhead_brokenPipe :
    brokenPipe.Quiet ∧ ∃ s, Scanner.ofStream brokenPipe "pipe" true = .ok s ∧
      (after { scanner := s } [.next, .accept [' '], .next]).cursor.stream.reads =
        (after { scanner := s } [.next, .accept [' '], .next]).cursor.position.offset + 1 ∧
      (after { scanner := s } [.next, .close, .advance 2]).cursor.position =
        (after { scanner := s } [.next]).cursor.position := by
  have hquiet : brokenPipe.Quiet := by
    intro f hf
    cases hf
    rfl
  obtain ⟨s, hs, hrun⟩ := cursor_oneAhead hquiet "pipe" true
  obtain ⟨hahead, -, -⟩ := hrun [.next, .accept [' '], .next] (by decide)
  obtain ⟨-, -, hclose⟩ := hrun [.next] (by decide)
  refine ⟨hquiet, s, hs, hahead.reads_eq.trans (Nat.zero_add _), ?_⟩
  exact (hclose [.close, .advance 2] (by decide) (.inr rfl)).2.2

end Session

end KayLex
