import KayLex.Proofs.Cursor.Ahead
import KayLex.Proofs.Grammar.Gaps
import KayLex.Scanner

/-!
The loops of the scanner and the texts that they pass: a run of one class, the rest
of a block comment, and a gap with its blanks and comments. Each loop comes with the
equations of its rounds first, freed from the proofs that make it end.
-/

namespace KayLex.Cursor

variable {p : Char → Bool} {passed cs : List Char} {k k' k₁ k₂ k₃ k₄ : Cursor} {x : Piece}
  {a b : Option Piece} {u : Unit}

/-! ### Rounds -/

theorem passWhile_stop (h : k.current.any (·.all p) = false) :
    passWhile p passed k = .ok passed.reverse k := by
  rw [passWhile]
  split
  · rfl
  · next hc =>
    rw [hc] at h
    exact if_neg (by simpa using h)

theorem passWhile_round (hc : k.current = some x) (hx : x.all p = true)
    (ha : advance k = .ok a k') :
    passWhile p passed k = passWhile p (x.chars.reverse ++ passed) k' := by
  rw [passWhile]
  split
  · next h =>
    rw [hc] at h
    cases h
  · next y h =>
    rw [hc] at h
    cases h
    rw [if_pos hx]
    split
    · next h =>
      rw [ha] at h
      cases h
      rfl
    · next h =>
      rw [ha] at h
      cases h

theorem passBlock_end (ha : advance k = .ok none k') : passBlock k = .ok () k' := by
  rw [passBlock]
  split <;> simp_all

theorem passBlock_star {closed : Bool} (ha : advance k = .ok (some (.single '*')) k₁)
    (hs : accept (.single '/') k₁ = .ok closed k₂) :
    passBlock k = if closed then .ok () k₂ else passBlock k₂ := by
  rw [passBlock]
  cases closed <;> repeat' split
  all_goals simp_all

theorem passBlock_round (ha : advance k = .ok (some x) k') (hx : x ≠ .single '*') :
    passBlock k = passBlock k' := by
  rw [passBlock]
  split <;> simp_all

section Gap

variable (hb : passWhile Text.isBlank [] k = .ok cs k₁)
include hb

theorem passGap_end (hc : k₁.current ≠ some (.single '/')) : passGap k = .ok none k₁ := by
  rw [passGap]
  split <;> simp_all

variable (hc : k₁.current = some (.single '/')) (ha : advance k₁ = .ok a k₂)
include hc ha

theorem passGap_slash (hline : k₂.current ≠ some (.single '/'))
    (hblock : k₂.current ≠ some (.single '*')) : passGap k = .ok (some k₁.position) k₂ := by
  rw [passGap]
  repeat' split
  all_goals simp_all

theorem passGap_line (hline : k₂.current = some (.single '/'))
    (hl : passWhile (!Lexicon.endsLine ·) [] k₂ = .ok passed k₃) : passGap k = passGap k₃ := by
  rw [passGap]
  repeat' split
  all_goals simp_all

theorem passGap_block (hblock : k₂.current = some (.single '*')) (hs : advance k₂ = .ok b k₃)
    (hl : passBlock k₃ = .ok u k₄) : passGap k = passGap k₄ := by
  rw [passGap]
  repeat' split
  all_goals simp_all

end Gap

end KayLex.Cursor

namespace KayLex.Reading

open Cursor Grammar Text Lexicon

variable {p : Position} {q : Char → Bool} {passed cs rest body : List Char} {k : Cursor}

/-! ### Runs and block comments -/

theorem passes_passWhile (q : Char → Bool) (passed cs : List Char) :
    Passes p (passWhile q passed) (cs.takeWhile q) (passed.reverse ++ cs.takeWhile q)
      (cs.dropWhile q) := by
  induction cs generalizing p passed with
  | nil =>
      intro k hk hp
      have hc : k.current = none := hk
      exact ⟨k, by rw [passWhile_stop (by simp [hc])]; simp, hk, hp⟩
  | cons c cs ih =>
      intro k hk hp
      cases hq : q c with
      | true =>
          rw [List.takeWhile_cons_of_pos hq, List.dropWhile_cons_of_pos hq] at *
          obtain ⟨k₁, ha, hk₁, hp₁⟩ := passes_advance c hk hp
          obtain ⟨k₂, hrest, hk₂, hp₂⟩ := ih (c :: passed) hk₁ hp₁
          refine ⟨k₂, ?_, hk₂, hp₂⟩
          rw [passWhile_round hk.1 (by simpa using hq) ha]
          simpa using hrest
      | false =>
          rw [List.takeWhile_cons_of_neg (by simp [hq]), List.dropWhile_cons_of_neg (by simp [hq])]
            at *
          have hc : k.current = some (.single c) := hk.1
          exact ⟨k, by rw [passWhile_stop (by simp [hc, hq])]; simp, hk, hp⟩

theorem passes_run (q : Char → Bool) (cs : List Char) :
    Passes p (run q) (cs.takeWhile q) (cs.takeWhile q) (cs.dropWhile q) :=
  passes_passWhile q [] cs

theorem passes_passBlock (cs : List Char) :
    ∃ inside, cs = inside ++ afterBlock cs ∧ Passes p passBlock inside () (afterBlock cs) := by
  fun_induction afterBlock cs generalizing p with
  | case1 rest =>
      refine ⟨['*', '/'], rfl, ?_⟩
      intro k hk hp
      obtain ⟨k₁, ha, hk₁, hp₁⟩ := passes_advance '*' hk hp
      obtain ⟨k₂, hs, hk₂, hp₂⟩ := passes_accept '/' hk₁ hp₁
      exact ⟨k₂, by rw [passBlock_star ha hs, if_pos rfl], hk₂, hp₂⟩
  | case2 c rest hne ih =>
      obtain ⟨inside, hrest, hinside⟩ := ih (p := p.after c)
      refine ⟨c :: inside, by rw [List.cons_append, ← hrest], ?_⟩
      intro k hk hp
      obtain ⟨k₁, ha, hk₁, hp₁⟩ := passes_advance c hk hp
      by_cases hstar : c = '*'
      · subst hstar
        have hhead : (inside ++ afterBlock rest).head? ≠ some '/' := by
          rw [← hrest]
          cases rest with
          | nil => simp
          | cons d rest =>
              rintro ⟨⟩
              exact hne rest rfl rfl
        obtain ⟨k₂, hs, hk₂, hp₂⟩ := passes_accept_of_ne hhead hk₁ hp₁
        obtain ⟨k₃, hb, hk₃, hp₃⟩ := hinside hk₂ hp₂
        exact ⟨k₃, by rw [passBlock_star ha hs, if_neg (by simp), hb], hk₃, hp₃⟩
      · obtain ⟨k₂, hb, hk₂, hp₂⟩ := hinside hk₁ hp₁
        refine ⟨k₂, ?_, hk₂, hp₂⟩
        rw [passBlock_round ha (by simpa [Piece.single] using hstar), hb]
  | case3 =>
      refine ⟨[], rfl, ?_⟩
      intro k hk hp
      obtain ⟨k₁, ha, hk₁, hp₁⟩ := passes_advance_end hk hp
      exact ⟨k₁, passBlock_end ha, hk₁, hp₁⟩

/-! ### Gaps

A round of `passGap` passes blanks and looks at what stands behind them. Unless that
is a comment, the round is the last one. -/

theorem exists_passBlanks (hk : k.Ahead cs) :
    ∃ k₁, passWhile isBlank [] k = .ok (cs.takeWhile isBlank) k₁ ∧
      k₁.Ahead (cs.dropWhile isBlank) ∧
      k₁.position = k.position.afterAll (cs.takeWhile isBlank) :=
  passes_run isBlank cs (by rwa [List.takeWhile_append_dropWhile]) rfl

/-- A round before `cs` leaves `ds` to the next one. -/
def GapRound (cs ds : List Char) : Prop :=
  ∃ front, cs = front ++ ds ∧ ∀ ⦃k : Cursor⦄, k.Ahead cs →
    ∃ k', passGap k = passGap k' ∧ k'.Ahead ds ∧ k'.position = k.position.afterAll front

theorem gapRound_line (hcs : cs.dropWhile isBlank = '/' :: '/' :: body) :
    GapRound cs (body.dropWhile (!endsLine ·)) := by
  have hslash : endsLine '/' = false := by decide
  have hrest : ('/' :: body).dropWhile (!endsLine ·) = body.dropWhile (!endsLine ·) :=
    List.dropWhile_cons_of_pos (by simp [hslash])
  refine ⟨cs.takeWhile isBlank ++ ['/'] ++ ('/' :: body).takeWhile (!endsLine ·), ?_, ?_⟩
  · rw [← hrest, List.append_assoc, List.takeWhile_append_dropWhile, List.append_assoc]
    change cs = cs.takeWhile isBlank ++ '/' :: '/' :: body
    rw [← hcs, List.takeWhile_append_dropWhile]
  · intro k hk
    obtain ⟨k₁, hb, hk₁, hp₁⟩ := exists_passBlanks hk
    rw [hcs] at hk₁
    obtain ⟨k₂, ha, hk₂, hp₂⟩ := passes_advance '/' hk₁ hp₁
    obtain ⟨k₃, hl, hk₃, hp₃⟩ :=
      passes_run (!endsLine ·) ('/' :: body) (by rwa [List.takeWhile_append_dropWhile]) hp₂
    refine ⟨k₃, passGap_line hb hk₁.1 ha hk₂.1 hl, hrest ▸ hk₃, ?_⟩
    rw [hp₃, Position.afterAll_append, Position.afterAll_append]

theorem gapRound_block (hcs : cs.dropWhile isBlank = '/' :: '*' :: body) :
    GapRound cs (afterBlock body) := by
  obtain ⟨inside, hbody, -⟩ := passes_passBlock (p := {}) body
  refine ⟨cs.takeWhile isBlank ++ ['/'] ++ ['*'] ++ inside, ?_, ?_⟩
  · rw [List.append_assoc, ← hbody, List.append_assoc, List.append_assoc]
    change cs = cs.takeWhile isBlank ++ '/' :: '*' :: body
    rw [← hcs, List.takeWhile_append_dropWhile]
  · intro k hk
    obtain ⟨k₁, hb, hk₁, hp₁⟩ := exists_passBlanks hk
    rw [hcs] at hk₁
    obtain ⟨k₂, ha, hk₂, hp₂⟩ := passes_advance '/' hk₁ hp₁
    obtain ⟨k₃, hs, hk₃, hp₃⟩ := passes_advance '*' hk₂ hp₂
    obtain ⟨inside', hbody', hinside⟩ := passes_passBlock body
    obtain rfl : inside' = inside := List.append_cancel_right (hbody'.symm.trans hbody)
    obtain ⟨k₄, hl, hk₄, hp₄⟩ := hinside (hbody' ▸ hk₃) hp₃
    refine ⟨k₄, passGap_block hb hk₁.1 ha hk₂.1 hs hl, hk₄, ?_⟩
    simp only [hp₄, Position.afterAll_append]

/-- What `passGap` does to a text: it passes what `skip` leaves out and stops there, but a
slash behind it, which opens no comment, is passed too. -/
def GapPassed (p : Position) (cs : List Char) : Prop :=
  ∃ gap, cs = gap ++ skip cs ∧
    ((∃ rest, skip cs = '/' :: rest ∧
        Passes p passGap (gap ++ ['/']) (some (p.afterAll gap)) rest) ∨
      (skip cs).head? ≠ some '/' ∧ Passes p passGap gap none (skip cs))

theorem GapPassed.of_round {ds : List Char} (hround : GapRound cs ds) (hskip : skip cs = skip ds)
    (h : ∀ p, GapPassed p ds) : GapPassed p cs := by
  obtain ⟨front, hcs, hround⟩ := hround
  obtain ⟨gap, hds, hgap⟩ := h (p.afterAll front)
  have hsplit : cs = front ++ gap ++ skip cs := by
    rw [hskip, List.append_assoc, ← hds, ← hcs]
  have hthen {before rest : List Char} {a : Option Position}
      (hbefore : Passes (p.afterAll front) passGap before a rest) (hrest : ds = before ++ rest) :
      Passes p passGap (front ++ before) a rest := by
    intro k hk hp
    rw [List.append_assoc, ← hrest, ← hcs] at hk
    obtain ⟨k₁, heq, hk₁, hp₁⟩ := hround hk
    rw [hp] at hp₁
    obtain ⟨k₂, hg, hk₂, hp₂⟩ := hbefore (hrest ▸ hk₁) hp₁
    exact ⟨k₂, by rw [heq, hg], hk₂, by rw [hp₂, Position.afterAll_append]⟩
  refine ⟨front ++ gap, hsplit, ?_⟩
  rw [hskip]
  rcases hgap with ⟨rest, hslash, hgap⟩ | ⟨hne, hgap⟩
  · refine .inl ⟨rest, hslash, ?_⟩
    rw [List.append_assoc, Position.afterAll_append]
    apply hthen hgap
    rw [List.append_assoc, List.singleton_append, ← hslash, ← hds]
  · exact .inr ⟨hne, hthen hgap hds⟩

/-- The last round, with a slash behind the blanks. -/
theorem GapPassed.of_slash (hcs : cs.dropWhile isBlank = '/' :: rest)
    (hline : rest.head? ≠ some '/') (hblock : rest.head? ≠ some '*') : GapPassed p cs := by
  have hskip : skip cs = '/' :: rest := by
    rw [← skip_dropWhile_isBlank, hcs, skip_slash hline hblock]
  refine ⟨cs.takeWhile isBlank, by rw [hskip, ← hcs, List.takeWhile_append_dropWhile],
    .inl ⟨rest, hskip, ?_⟩⟩
  intro k hk hp
  rw [List.append_assoc, List.singleton_append, ← hcs, List.takeWhile_append_dropWhile] at hk
  obtain ⟨k₁, hb, hk₁, hp₁⟩ := exists_passBlanks hk
  rw [hcs] at hk₁
  obtain ⟨k₂, ha, hk₂, hp₂⟩ := passes_advance '/' hk₁ hp₁
  refine ⟨k₂, ?_, hk₂, by rw [hp₂, hp, Position.afterAll_append]⟩
  have hne (c : Char) (h : rest.head? ≠ some c) : k₂.current ≠ some (.single c) := by
    rw [hk₂.current_eq]
    cases hr : rest.head? <;> simp_all
  rw [passGap_slash hb hk₁.1 ha (hne '/' hline) (hne '*' hblock), hp₁, hp]

/-- The last round, with something else behind the blanks, or nothing. -/
theorem GapPassed.of_ne_slash (hcs : (cs.dropWhile isBlank).head? ≠ some '/') :
    GapPassed p cs := by
  have hskip : skip cs = cs.dropWhile isBlank := by
    rw [← skip_dropWhile_isBlank]
    cases hds : cs.dropWhile isBlank with
    | nil => exact skip_nil
    | cons c rest =>
        have hc := List.head?_dropWhile_not isBlank cs
        rw [hds] at hc hcs
        exact skip_of_ne_slash hc fun h => hcs (congrArg some h)
  refine ⟨cs.takeWhile isBlank, by rw [hskip, List.takeWhile_append_dropWhile],
    .inr ⟨by rwa [hskip], ?_⟩⟩
  rw [hskip]
  intro k hk hp
  rw [List.takeWhile_append_dropWhile] at hk
  obtain ⟨k₁, hb, hk₁, hp₁⟩ := exists_passBlanks hk
  refine ⟨k₁, passGap_end hb ?_, hk₁, by rw [hp₁, hp]⟩
  rw [hk₁.current_eq]
  cases hr : (cs.dropWhile isBlank).head? <;> simp_all

theorem gapPassed (p : Position) (cs : List Char) : GapPassed p cs := by
  have hskip := skip_dropWhile_isBlank cs
  by_cases hslash : (cs.dropWhile isBlank).head? = some '/'
  · obtain ⟨rest, hcs⟩ := List.head?_eq_some_iff.mp hslash
    have hlen : rest.length < cs.length := by
      have := (List.dropWhile_sublist isBlank (l := cs)).length_le
      rw [hcs] at this
      exact this
    by_cases hline : rest.head? = some '/'
    · obtain ⟨body, rfl⟩ := List.head?_eq_some_iff.mp hline
      have := (List.dropWhile_sublist (!endsLine ·) (l := body)).length_le
      rw [hcs, skip_line] at hskip
      exact .of_round (gapRound_line hcs) hskip.symm fun p => gapPassed p _
    · by_cases hblock : rest.head? = some '*'
      · obtain ⟨body, rfl⟩ := List.head?_eq_some_iff.mp hblock
        have := length_afterBlock_le body
        rw [hcs, skip_block] at hskip
        exact .of_round (gapRound_block hcs) hskip.symm fun p => gapPassed p _
      · exact .of_slash hcs hline hblock
  · exact .of_ne_slash hslash
termination_by cs.length
decreasing_by all_goals simp only [List.length_cons] at hlen; omega

end KayLex.Reading
