import KayLex.Grammar.Gap

/-!
What `skip` leaves out is a gap, and it leaves out nothing else. A comment that
nothing ends is left out with all of the text behind it, so it can only occur where
nothing is left.
-/

namespace KayLex.Grammar

open Text Lexicon

variable {c d : Char} {cs rest body : List Char}

theorem isBlank_slash : isBlank '/' = false := by decide

theorem isBlank_of_endsLine (h : endsLine c = true) : isBlank c = true := by
  simp only [endsLine, Bool.or_eq_true, beq_iff_eq] at h
  rcases h with rfl | rfl <;> decide

/-! ### The equations of `skip` -/

@[simp] theorem skip_nil : skip [] = [] := by
  rw [skip]

@[simp] theorem skip_line :
    skip ('/' :: '/' :: body) = skip (body.dropWhile (!endsLine ·)) := by
  rw [skip]

@[simp] theorem skip_block : skip ('/' :: '*' :: body) = skip (afterBlock body) := by
  rw [skip]

theorem skip_blank (h : isBlank c = true) : skip (c :: rest) = skip rest := by
  rw [skip, if_pos h]
  · rintro body rfl
    rw [isBlank_slash] at h
    cases h
  · rintro body rfl
    rw [isBlank_slash] at h
    cases h

theorem skip_of_ne_slash (h : isBlank c = false) (hc : c ≠ '/') :
    skip (c :: rest) = c :: rest := by
  rw [skip, if_neg (by simp [h])]
  · exact fun _ hslash => absurd hslash hc
  · exact fun _ hslash => absurd hslash hc

theorem skip_slash (hline : rest.head? ≠ some '/') (hblock : rest.head? ≠ some '*') :
    skip ('/' :: rest) = '/' :: rest := by
  rw [skip, if_neg (by simp [isBlank_slash])]
  · rintro body - rfl
    exact hline rfl
  · rintro body - rfl
    exact hblock rfl

theorem skip_dropWhile_isBlank (cs : List Char) : skip (cs.dropWhile isBlank) = skip cs := by
  induction cs with
  | nil => rfl
  | cons c cs ih =>
      cases hc : isBlank c with
      | true => rw [List.dropWhile_cons_of_pos hc, ih, skip_blank hc]
      | false => rw [List.dropWhile_cons_of_neg (by simp [hc])]

theorem isBlank_of_skip (h : skip cs = c :: rest) : isBlank c = false := by
  fun_induction skip cs with
  | case1 => cases h
  | case2 body ih => exact ih h
  | case3 body ih => exact ih h
  | case4 d tail _ _ hd ih => exact ih h
  | case5 d tail _ _ hd =>
      cases h
      simpa using hd

/-! ### Comments -/

theorem blockEnd_prefix_iff : blockEnd <+: cs ↔ ∃ rest, cs = '*' :: '/' :: rest :=
  ⟨fun ⟨rest, h⟩ => ⟨rest, h.symm⟩, fun ⟨rest, h⟩ => ⟨rest, h.symm⟩⟩

theorem blockEnd_infix_cons : blockEnd <:+: c :: cs ↔ blockEnd <+: c :: cs ∨ blockEnd <:+: cs :=
  List.infix_cons_iff

theorem afterBlock_cases (cs : List Char) :
    (∃ body, cs = body ++ (blockEnd ++ afterBlock cs) ∧ ¬ blockEnd <:+: body ++ ['*']) ∨
      afterBlock cs = [] ∧ ¬ blockEnd <:+: cs := by
  fun_induction afterBlock cs with
  | case1 rest => exact .inl ⟨[], rfl, fun h => by simpa [blockEnd] using h.length_le⟩
  | case2 c rest hne ih =>
      have hprefix : ¬ blockEnd <+: c :: rest := by
        rw [blockEnd_prefix_iff]
        rintro ⟨tail, heq⟩
        obtain ⟨rfl, rfl⟩ := List.cons.inj heq
        exact hne tail rfl rfl
      rcases ih with ⟨body, hrest, hbody⟩ | ⟨hnil, hrest⟩
      · refine .inl ⟨c :: body, by rw [List.cons_append, ← hrest], ?_⟩
        rw [List.cons_append, blockEnd_infix_cons]
        rintro (h | h)
        · -- The star that ends the comment stands behind the body, so what begins here
          -- begins the text too.
          refine hprefix (h.trans ?_)
          rw [hrest]
          exact ⟨'/' :: afterBlock rest, by simp [blockEnd]⟩
        · exact hbody h
      · refine .inr ⟨hnil, ?_⟩
        rw [blockEnd_infix_cons]
        rintro (h | h)
        · exact hprefix h
        · exact hrest h
  | case3 => exact .inr ⟨rfl, fun h => by simpa [blockEnd] using h.length_le⟩

theorem endsLine_dropWhile_cases (cs : List Char) :
    (∃ e rest, cs.dropWhile (!endsLine ·) = e :: rest ∧ endsLine e = true) ∨
      cs.dropWhile (!endsLine ·) = [] := by
  cases h : cs.dropWhile (!endsLine ·) with
  | nil => exact .inr rfl
  | cons e rest =>
      have he := List.head?_dropWhile_not (!endsLine ·) cs
      rw [h] at he
      exact .inl ⟨e, rest, rfl, by simpa using he⟩

/-! ### Gaps -/

theorem exists_gap (cs : List Char) :
    ∃ gap, cs = gap ++ skip cs ∧ Gap (skip cs).isEmpty gap := by
  fun_induction skip cs with
  | case1 => exact ⟨[], rfl, .nil⟩
  | case2 body ih =>
      have hbody : (body.takeWhile (!endsLine ·)).all (!endsLine ·) = true :=
        List.all_takeWhile ..
      obtain ⟨gap, hrest, hgap⟩ := ih
      rcases endsLine_dropWhile_cases body with ⟨e, rest, hdrop, he⟩ | hdrop
      · rw [hdrop] at hrest hgap ⊢
        -- The line break is left out too, so the gap behind the comment begins with it.
        cases gap with
        | nil =>
            have hlen := congrArg List.length hrest
            have := length_skip_le rest
            rw [List.nil_append, skip_blank (isBlank_of_endsLine he), List.length_cons] at hlen
            omega
        | cons e' gap =>
            obtain ⟨rfl, hgaprest⟩ := List.cons.inj hrest
            refine ⟨'/' :: '/' :: (body.takeWhile (!endsLine ·) ++ e :: gap), ?_,
              .line hbody he hgap⟩
            rw [List.cons_append, List.cons_append, List.append_assoc, ← hrest, ← hdrop,
              List.takeWhile_append_dropWhile]
      · rw [hdrop, skip_nil]
        refine ⟨'/' :: '/' :: body, by simp, ?_⟩
        rw [← List.takeWhile_append_dropWhile (p := (!endsLine ·)) (l := body), hdrop,
          List.append_nil]
        exact .lineToEnd hbody
  | case3 body ih =>
      obtain ⟨gap, hrest, hgap⟩ := ih
      rcases afterBlock_cases body with ⟨inner, hbody, hinner⟩ | ⟨hnil, hbody⟩
      · refine ⟨'/' :: '*' :: (inner ++ (blockEnd ++ gap)), ?_, .block hinner hgap⟩
        have hsplit : body = inner ++ (blockEnd ++ gap) ++ skip (afterBlock body) := by
          calc body = inner ++ (blockEnd ++ afterBlock body) := hbody
            _ = inner ++ (blockEnd ++ (gap ++ skip (afterBlock body))) := by rw [← hrest]
            _ = inner ++ (blockEnd ++ gap) ++ skip (afterBlock body) := by simp
        rw [List.cons_append, List.cons_append, ← hsplit]
      · rw [hnil, skip_nil]
        exact ⟨'/' :: '*' :: body, by simp, .blockToEnd hbody⟩
  | case4 c rest _ _ hc ih =>
      obtain ⟨gap, hrest, hgap⟩ := ih
      exact ⟨c :: gap, by rw [List.cons_append, ← hrest], .blank hc hgap⟩
  | case5 => exact ⟨[], rfl, .nil⟩

end KayLex.Grammar
