import KayLex.Proofs.Cursor.Lookahead
import KayLex.Proofs.Session.Walks

/-!
A failed read is a truncation. A stream that breaks off, wherever in a gap or a lexeme that
is, is scanned like the text that it has delivered until then. The failed read is the last
one, whatever the stream would still deliver, and it is put on record once.
-/

namespace KayLex

open Cursor KayLex.Action

/-! ### Streams that break off -/

/-- A stream that delivers some characters and then fails, whatever comes behind. -/
def Stream.broken (cs : List Char) (f : Failure) (beyond : List Item)
    (thereafter closing : Option Failure) : Stream :=
  { items := cs.map .char ++ .fault f :: beyond, thereafter, closing }

namespace Stream

variable {cs : List Char} {f : Failure} {beyond : List Item} {thereafter closing : Option Failure}

@[simp] theorem chars_broken : (broken cs f beyond thereafter closing).chars = cs := by
  induction cs with
  | nil => rfl
  | cons c cs ih => exact congrArg (c :: ·) ih

@[simp] theorem fate_broken : (broken cs f beyond thereafter closing).fate = some f :=
  fateOf_append thereafter cs _

theorem quiet_broken (hf : f.endsInput = true) :
    (broken cs f beyond thereafter closing).Quiet := by
  intro g hg
  rw [fate_broken] at hg
  cases hg
  exact hf

theorem drop_items_broken :
    (broken cs f beyond thereafter closing).items.drop (cs.length + 1) = beyond := by
  induction cs with
  | nil => rfl
  | cons c cs ih => exact ih

end Stream

/-! ### Where the scan ends -/

namespace Scanner

variable {s : Scanner} {more : List Found} {last : Position}

theorem finish_of_open (hopen : s.cursor.closed = false) :
    finish s =
      match (if s.cursor.owned then s.cursor.stream.closing else none) with
      | none => .ok s.sentinel (left (finish s))
      | some f => .error f (left (finish s)) := by
  rw [finish, Action.bind_apply, onCursor]
  unfold Cursor.close
  cases howned : s.cursor.owned with
  | false => simp [Cursor.note, hopen, howned, left, pure, EStateM.pure]
  | true =>
      cases hclosing : s.cursor.stream.closing with
      | none => simp [Cursor.note, Stream.close, hopen, howned, hclosing, left, pure, EStateM.pure]
      | some f => simp [Cursor.note, Stream.close, hopen, howned, hclosing, left]

theorem drain_of_facing (h : Facing s more last) (hfinished : s.finished = false)
    (hopen : s.cursor.closed = false) :
    s.drain.tokens = more.map (Found.token s.cursor.name) ∧
      s.drain.ending = (if s.cursor.owned then s.cursor.stream.closing else none).elim
        (.ok (.sentinel s.cursor.name last)) .error ∧
      s.drain.scanner.cursor.position = last := by
  obtain ⟨s₁, hdrain, hs₁, hframe₁, hfinished₁, -⟩ := drainFrom_of_facing [] h
  obtain ⟨k, hnext, hframe₂, -, rfl⟩ := next_of_facing_nil hs₁ (hfinished₁.trans hfinished)
  have hframe := hframe₁.trans hframe₂
  have hfinish := finish_of_open (s := { s₁ with cursor := k }) (hframe.closed_eq.trans hopen)
  dsimp only at hfinish
  rw [hframe.owned_eq, hframe.closing_eq] at hfinish
  have hposition : (left (finish { s₁ with cursor := k })).cursor.position = k.position := by
    rw [left_finish]
    exact position_left_close _
  rw [drain, hdrain]
  cases hclosing : (if s.cursor.owned then s.cursor.stream.closing else none) with
  | none =>
      rw [hclosing] at hfinish
      rw [drainFrom_of_end (hnext.trans hfinish) (Token.isEnd_sentinel ..)]
      refine ⟨by simp, ?_, hposition⟩
      rw [← hframe.name_eq]
      rfl
  | some f =>
      rw [hclosing] at hfinish
      rw [drainFrom_of_error (hnext.trans hfinish)]
      exact ⟨by simp, rfl, hposition⟩

end Scanner

/-! ### What is left of the stream -/

namespace Cursor

variable {cs passed : List Char} {f : Failure} {beyond : List Item}
  {thereafter closing : Option Failure} {name : String} {k : Cursor}

/-- Wherever the cursor is, it has not read behind the failure. -/
theorem Follows.beyond_suffix
    (h : Follows (.broken cs f beyond thereafter closing) name passed k) :
    beyond <:+ k.stream.items ∧ k.stream.reads ≤ cs.length + 1 := by
  have hle := h.isPrefix.length_le
  rw [Stream.chars_broken] at hle
  have hreads := h.reads_eq
  refine ⟨?_, ?_⟩
  · rw [h.items_eq]
    have hdrop : (Stream.broken cs f beyond thereafter closing).items.drop (cs.length + 1) <:+
        (Stream.broken cs f beyond thereafter closing).items.drop (passed.length + 1) :=
      List.drop_suffix_drop_left _ (by omega)
    rwa [Stream.drop_items_broken] at hdrop
  · change k.stream.reads = 0 + (passed.length + 1) at hreads
    omega

theorem Follows.of_passed_all (h : Follows (.broken cs f beyond thereafter closing) name cs k) :
    k.stream.items = beyond ∧ k.stream.reads = cs.length + 1 ∧
      k.warnings = [.readFailed name (({} : Position).afterAll cs) f] := by
  refine ⟨h.items_eq.trans Stream.drop_items_broken, h.reads_eq.trans (Nat.zero_add _), ?_⟩
  rw [h.warnings_eq, if_pos Stream.chars_broken.symm, Stream.fate_broken, h.position_eq]
  rfl

end Cursor

/-! ### Truncation -/

namespace Session

variable {cs : List Char} {f : Failure} {beyond : List Item}
  {thereafter closing : Option Failure} {name : String} {k : Cursor} {rs : List Request}

theorem follows_after_all (hquiet : (Stream.broken cs f beyond thereafter closing).Quiet)
    (hk : Follows (.broken cs f beyond thereafter closing) name [] k)
    (hposition : (Scanner.drain ⟨k, false, 0⟩).scanner.cursor.position =
      ({} : Position).afterAll cs)
    (hrs : ∀ r ∈ rs, r.leavesText = true) :
    Follows (.broken cs f beyond thereafter closing) name cs
      (after { scanner := ⟨k, false, 0⟩ } (.all :: rs)).cursor := by
  obtain ⟨passed, hwalk⟩ := Scanner.reaches_drainFrom [] ⟨k, false, 0⟩
  have hdrained := hk.walk hquiet hwalk
  rw [List.nil_append] at hdrained
  have hpassed := hdrained.eq_of_position (by rw [Stream.chars_broken]; exact hposition)
  rw [Stream.chars_broken] at hpassed
  subst hpassed
  obtain ⟨more, hwalk'⟩ := reaches_after hrs (left (all { scanner := ⟨k, false, 0⟩ }))
  rw [scanner_left_all] at hwalk'
  have hend := hdrained.walk hquiet hwalk'
  have hmore : more = [] := by
    have hle := hend.isPrefix.length_le
    rw [Stream.chars_broken, List.length_append] at hle
    exact List.eq_nil_of_length_eq_zero (by omega)
  rw [hmore, List.append_nil] at hend
  rwa [after_cons]

/-- A stream that delivers `cs` and then fails is scanned to the end like the text `cs`, unless
closing it fails at last. Nothing behind the failure is ever read, and once the scan has come
to its end there is one warning, at the place of the sentinel. -/
theorem scan_of_broken (cs : List Char) {f : Failure} (hf : f.endsInput = true)
    (beyond : List Item) (thereafter closing : Option Failure) (name : String) (owned : Bool) :
    ∃ s last,
      Scanner.ofStream (.broken cs f beyond thereafter closing) name owned = .ok s ∧
      tokenize (String.ofList cs) name = s.drain.tokens ++ [.sentinel name last] ∧
      s.drain.all = (if owned then closing else none).elim
        (.ok (tokenize (String.ofList cs) name)) .error ∧
      ∀ rs, (∀ r ∈ rs, r.leavesText = true) →
        beyond <:+ (after { scanner := s } rs).cursor.stream.items ∧
        (after { scanner := s } rs).cursor.stream.reads ≤ cs.length + 1 ∧
        (after { scanner := s } (.all :: rs)).cursor.stream.items = beyond ∧
        (after { scanner := s } (.all :: rs)).cursor.stream.reads = cs.length + 1 ∧
        (after { scanner := s } (.all :: rs)).cursor.warnings = [.readFailed name last f] := by
  have hquiet : (Stream.broken cs f beyond thereafter closing).Quiet := Stream.quiet_broken hf
  obtain ⟨k, hstart, hk, hopen⟩ := exists_start hquiet name owned
  have hframe := frame_of_start hstart
  have hahead := hk.ahead hquiet hopen
  rw [Stream.chars_broken, List.length_nil, List.drop_zero] at hahead
  have hfacing := Scanner.facing_of_ahead (s := ⟨k, false, 0⟩) hahead rfl
  have hzero : k.position = {} := hk.position_eq
  dsimp only at hfacing
  rw [hzero] at hfacing
  obtain ⟨htokens, hending, hposition⟩ := Scanner.drain_of_facing hfacing rfl hopen
  dsimp only at htokens hending
  rw [hframe.name_eq] at htokens hending
  rw [hframe.owned_eq, hframe.closing_eq] at hending
  have htokenize : tokenize (String.ofList cs) name =
      (Scanner.drain ⟨k, false, 0⟩).tokens ++ [.sentinel name (({} : Position).afterAll cs)] := by
    rw [tokenize_eq_lexemes, String.toList_ofList, Grammar.last_lexemesFrom, htokens]
  refine ⟨⟨k, false, 0⟩, _, by rw [Scanner.ofStream, hstart]; rfl, htokenize, ?_, fun rs hrs => ?_⟩
  · rw [Scanner.Drained.all, hending, htokenize]
    cases owned <;> cases closing <;> rfl
  · obtain ⟨passed, hwalk⟩ := reaches_after hrs { scanner := ⟨k, false, 0⟩ }
    obtain ⟨hbeyond, hreads⟩ := (hk.walk hquiet hwalk).beyond_suffix
    exact ⟨hbeyond, hreads, (follows_after_all hquiet hk hposition hrs).of_passed_all⟩

/-- The medium fails between the two characters of an operator. -/
theorem scan_of_broken_operator :
    (Failure.device "I/O error").endsInput = true ∧
      ∃ s last, Scanner.ofStream (.broken ['x', ' ', ':'] (.device "I/O error") [.char '='] none
          none) "flaky" true = .ok s ∧
        s.drain.all = .ok (tokenize "x :" "flaky") ∧
        (after { scanner := s } [.all, .next]).cursor.warnings =
          [.readFailed "flaky" last (.device "I/O error")] := by
  have hf : (Failure.device "I/O error").endsInput = true := rfl
  obtain ⟨s, last, hs, -, hall, hrun⟩ :=
    scan_of_broken ['x', ' ', ':'] hf [.char '='] none none "flaky" true
  exact ⟨hf, s, last, hs, hall, (hrun [.next] (by decide)).2.2.2.2⟩

end Session

end KayLex
