import KayLex.Lexicon

/-!
The classes of characters that a scan tells apart do not overlap. Two tables of
ranges are walked side by side, which settles the question for all code points at
once; the signs of the language are few enough to be looked up one by one.
-/

namespace KayLex.Text

namespace Ranges

/-- Whether a range meets none of a table, apart from those that lie beyond it: these are
left to the ranges after it. -/
def missesUpTo (r : Nat × Nat) (after : Ranges → Bool) : Ranges → Bool
  | [] => after []
  | s :: ss => if r.2 < s.1 then after (s :: ss) else s.2 < r.1 && missesUpTo r after ss

/-- Whether no range of one table meets a range of the other. -/
def apart : Ranges → Ranges → Bool
  | [], _ => true
  | r :: rs, ss => missesUpTo r (apart rs) ss

theorem exists_of_missesUpTo {r : Nat × Nat} {after : Ranges → Bool} {low : Nat} {ss : Ranges}
    (hss : ss.ascendsFrom low = true) (h : missesUpTo r after ss = true) :
    ∃ before beyond low', ss = before ++ beyond ∧ (∀ s ∈ before, s.2 < r.1) ∧
      (∀ s ∈ beyond, r.2 < s.1) ∧ ascendsFrom low' beyond = true ∧ after beyond = true := by
  induction ss generalizing low with
  | nil => exact ⟨[], [], low, rfl, by simp, by simp, rfl, h⟩
  | cons s ss ih =>
      unfold missesUpTo at h
      split at h
      · next hbeyond =>
        refine ⟨[], s :: ss, low, rfl, by simp, ?_, hss, h⟩
        intro t ht
        simp only [ascendsFrom, Bool.and_eq_true, decide_eq_true_eq] at hss
        rcases List.mem_cons.mp ht with rfl | ht
        · exact hbeyond
        · have := le_of_mem_of_ascendsFrom hss.2 ht
          omega
      · simp only [Bool.and_eq_true, decide_eq_true_eq] at h
        simp only [ascendsFrom, Bool.and_eq_true] at hss
        obtain ⟨before, beyond, low', rfl, hbefore, hbeyond⟩ := ih hss.2 h.2
        refine ⟨s :: before, beyond, low', rfl, ?_, hbeyond⟩
        intro t ht
        rcases List.mem_cons.mp ht with rfl | ht
        · exact h.1
        · exact hbefore t ht

theorem lt_or_lt_of_apart {low low' : Nat} {rs ss : Ranges} (hrs : rs.ascendsFrom low = true)
    (hss : ss.ascendsFrom low' = true) (h : apart rs ss = true) {r s : Nat × Nat}
    (hr : r ∈ rs) (hs : s ∈ ss) : r.2 < s.1 ∨ s.2 < r.1 := by
  induction rs generalizing low low' ss with
  | nil => simp at hr
  | cons first rs ih =>
      simp only [ascendsFrom, Bool.and_eq_true, decide_eq_true_eq] at hrs
      obtain ⟨before, beyond, low'', rfl, hbefore, hbeyond, hasc, hafter⟩ :=
        exists_of_missesUpTo hss h
      rcases List.mem_cons.mp hr with rfl | hr
      · rcases List.mem_append.mp hs with hs | hs
        · exact .inr (hbefore s hs)
        · exact .inl (hbeyond s hs)
      · rcases List.mem_append.mp hs with hs | hs
        · have := hbefore s hs
          have := le_of_mem_of_ascendsFrom hrs.2 hr
          omega
        · exact ih hrs.2 hasc hafter hr hs

theorem covers_eq_false_of_apart {low low' : Nat} {rs ss : Ranges}
    (hrs : rs.ascendsFrom low = true) (hss : ss.ascendsFrom low' = true)
    (h : rs.apart ss = true) {n : Nat} (hn : rs.covers n = true) : ss.covers n = false := by
  obtain ⟨r, hr, hrlow, hrhigh⟩ := (covers_iff hrs n).mp hn
  rw [Bool.eq_false_iff]
  intro hs
  obtain ⟨s, hs, hslow, hshigh⟩ := (covers_iff hss n).mp hs
  have := lt_or_lt_of_apart hrs hss h hr hs
  omega

end Ranges

theorem letterRanges_apart :
    letterRanges.apart decimalDigitRanges = true ∧ letterRanges.apart blankRanges = true := by
  decide +kernel

theorem isDecimalDigit_of_isLetter {c : Char} (h : isLetter c = true) :
    isDecimalDigit c = false :=
  Ranges.covers_eq_false_of_apart letterRanges_ascend decimalDigitRanges_ascend
    letterRanges_apart.1 h

theorem isBlank_of_isLetter {c : Char} (h : isLetter c = true) : isBlank c = false :=
  Ranges.covers_eq_false_of_apart letterRanges_ascend blankRanges_ascend letterRanges_apart.2 h

theorem isBlank_of_isDecimalDigit {c : Char} (h : isDecimalDigit c = true) : isBlank c = false :=
  Ranges.covers_eq_false_of_apart decimalDigitRanges_ascend blankRanges_ascend
    (by decide) h

end KayLex.Text

namespace KayLex.Lexicon

open Text

theorem isWordChar_of_isLetter {c : Char} (h : isLetter c = true) : isWordChar c = true := by
  simp [isWordChar, h]

theorem isWordChar_of_isDecimalDigit {c : Char} (h : isDecimalDigit c = true) :
    isWordChar c = true := by
  simp [isWordChar, h]

theorem isWordChar_of_spoilsNumeral {c : Char} (h : spoilsNumeral c = true) :
    isWordChar c = true := by
  simp only [spoilsNumeral, Bool.or_eq_true] at h
  rcases h with h | h <;> simp [isWordChar, h]

/-- What goes on a word spoils a numeral, unless it is a digit. -/
theorem isDecimalDigit_of_spoilsNumeral {c : Char} (h : spoilsNumeral c = true) :
    isDecimalDigit c = false := by
  simp only [spoilsNumeral, Bool.or_eq_true, beq_iff_eq] at h
  rcases h with h | rfl
  · exact isDecimalDigit_of_isLetter h
  · decide

/-- The characters that operators and separators are made of. -/
def signs : List Char :=
  ':' :: '&' :: '|' :: '/' :: (comparisonSigns ++ arithmeticSigns ++ separators)

theorem isWordChar_of_mem_signs {c : Char} (h : c ∈ signs) : isWordChar c = false := by
  have hall : signs.all (!isWordChar ·) = true := by decide
  simpa using List.all_eq_true.mp hall c h

/-! Blanks only separate: no character that a lexeme is made of is one. -/

theorem isBlank_of_mem_signs {c : Char} (h : c ∈ signs) : isBlank c = false := by
  have hall : signs.all (!isBlank ·) = true := by decide
  simpa using List.all_eq_true.mp hall c h

theorem isBlank_of_isWordChar {c : Char} (h : isWordChar c = true) : isBlank c = false := by
  simp only [isWordChar, Bool.or_eq_true, beq_iff_eq] at h
  rcases h with (h | h) | rfl
  · exact isBlank_of_isLetter h
  · exact isBlank_of_isDecimalDigit h
  · decide

end KayLex.Lexicon
