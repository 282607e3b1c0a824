import KayLex.Listing
import KayLex.Proofs.Places
import KayLex.Proofs.Text.ControlSequence
import Mathlib.Data.Nat.Digits.Defs

/-!
The lines of a listing. What a line shows in front of the text of a token are printable
characters of its own. The text of a token breaks no line, since it holds no blank, and it has
no control sequence in it, since the escape character is always a lexeme by itself. So a
listing has as many lines as it lists tokens, and it goes out as it is.
-/

namespace KayLex

open Text Lexicon

/-! ### What stands in front of the text of a token -/

namespace Listing

variable {ls : List String} {ts : List Token}

theorem bounds_of_mem_number {n : Nat} {c : Char} (h : c ∈ (toString n).toList) :
    ' ' ≤ c ∧ c ≤ '~' := by
  rw [Nat.toString_eq_repr, Nat.toList_repr] at h
  have hdigit := Nat.isDigit_of_mem_toDigits (by decide) (by decide) h
  simp only [Char.isDigit, Bool.and_eq_true, decide_eq_true_eq] at hdigit
  exact ⟨Char.le_trans (by decide : ' ' ≤ '0') hdigit.1,
    Char.le_trans hdigit.2 (by decide : '9' ≤ '~')⟩

/-- The text of the token stands at the end of its line, behind printable characters. -/
theorem exists_front_line (n : Nat) (t : Token) :
    ∃ front, (line n t).toList = front ++ t.lexeme.toList ∧ ∀ c ∈ front, ' ' ≤ c ∧ c ≤ '~' := by
  have hline : line n t = "Token " ++ toString n ++ " - " ++
      ("Type: " ++ t.kind.label ++ " - Value: " ++ t.lexeme) := rfl
  have hfixed : ["Token ", " - ", "Type: ", " - Value: "].all
      (fun s => s.toList.all fun c => ' ' ≤ c ∧ c ≤ '~') = true := by decide
  have hlabel : Kind.all.all (fun k => k.label.toList.all fun c => ' ' ≤ c ∧ c ≤ '~') = true := by
    decide
  simp only [List.all_eq_true, decide_eq_true_eq] at hfixed hlabel
  refine ⟨("Token " ++ toString n ++ " - " ++
    ("Type: " ++ t.kind.label ++ " - Value: ")).toList, ?_, ?_⟩
  · rw [hline]
    simp only [String.toList_append, List.append_assoc]
  · intro c hc
    simp only [String.toList_append, List.mem_append] at hc
    rcases hc with ((hc | hc) | hc) | (hc | hc) | hc
    · exact hfixed "Token " (by decide) c hc
    · exact bounds_of_mem_number hc
    · exact hfixed " - " (by decide) c hc
    · exact hfixed "Type: " (by decide) c hc
    · exact hlabel _ (Kind.mem_all _) c hc
    · exact hfixed " - Value: " (by decide) c hc

/-! ### The lines of tokens -/

variable {text source : String} {t : Token} {l : String}

theorem feed_not_mem_line (ht : t ∈ tokenize text source) (hend : t.isEnd = false) (n : Nat) :
    '\n' ∉ (line n t).toList := by
  obtain ⟨front, hline, hfront⟩ := exists_front_line n t
  obtain ⟨_, _, _, _, _, _, hlexeme⟩ := Grammar.exists_start ht
  rw [hline, List.mem_append, not_or]
  refine ⟨fun hmem => ?_, (hlexeme hend).2⟩
  exact absurd (hfront '\n' hmem).1 (by decide)

theorem feed_not_mem_of_mem_lines (h : ∀ t ∈ ts, t ∈ tokenize text source ∧ t.isEnd = false)
    (hl : l ∈ lines ts) : '\n' ∉ l.toList := by
  obtain ⟨i, hi, rfl⟩ := List.mem_mapIdx.mp hl
  obtain ⟨hmem, hend⟩ := h _ (List.getElem_mem hi)
  exact feed_not_mem_line hmem hend (i + 1)

theorem count_unlines (h : ∀ l ∈ ls, '\n' ∉ l.toList) :
    (unlines ls).toList.count '\n' = ls.length := by
  induction ls with
  | nil => rfl
  | cons l ls ih =>
      have hl : l.toList.count '\n' = 0 := List.count_eq_zero.mpr (h l (List.mem_cons_self ..))
      have hrest := ih fun m hm => h m (List.mem_cons_of_mem l hm)
      have hunlines : unlines (l :: ls) = l ++ "\n" ++ unlines ls := by
        simp [unlines]
      rw [hunlines, String.toList_append, String.toList_append, List.count_append,
        List.count_append, hl, hrest, List.length_cons]
      simp [Nat.add_comm]

theorem count_unlines_lines (h : ∀ t ∈ ts, t ∈ tokenize text source ∧ t.isEnd = false) :
    (unlines (lines ts)).toList.count '\n' = ts.length := by
  rw [count_unlines fun l hl => feed_not_mem_of_mem_lines h hl, lines, List.length_mapIdx]

end Listing

/-! ### Control sequences -/

theorem Grammar.Spells.eq_singleton {k : Kind} {cs : List Char} {c : Char} (h : Spells k cs)
    (hmem : c ∈ cs) (hword : ¬ isWordChar c = true) (hop : ∀ op ∈ operators, c ∉ op.toList) :
    cs = [c] := by
  cases h with
  | keyword hkeyword =>
      exact absurd (isWordChar_of_mem_words (List.mem_append_left _ hkeyword) hmem) hword
  | boolean hboolean =>
      exact absurd (isWordChar_of_mem_words (List.mem_append_right _ hboolean) hmem) hword
  | numeral _ hdigits => exact absurd (isWordChar_of_isDecimalDigit (hdigits _ hmem)) hword
  | identifier hletter htail =>
      rcases List.mem_cons.mp hmem with rfl | hmem
      · exact absurd (isWordChar_of_isLetter hletter) hword
      · exact absurd (htail _ hmem) hword
  | operator hoperator =>
      obtain ⟨op, hmemOp, rfl⟩ := List.mem_map.mp (ofList_mem_iff.mp hoperator)
      exact absurd hmem (hop op hmemOp)
  | malformedNumeral _ hdigits hspoils htail =>
      rcases List.mem_append.mp hmem with hmem | hmem
      · exact absurd (isWordChar_of_isDecimalDigit (hdigits _ hmem)) hword
      rcases List.mem_cons.mp hmem with rfl | hmem
      · rcases hspoils with hletter | hscore
        · exact absurd (isWordChar_of_isLetter hletter) hword
        · exact absurd (by rw [hscore]; rfl) hword
      · exact absurd (htail _ hmem) hword
  | separator | half | unknown => rw [List.mem_singleton.mp hmem]

theorem spells_of_mem_tokenize {text source : String} {t : Token} (ht : t ∈ tokenize text source)
    (hend : t.isEnd = false) : Grammar.Spells t.kind t.lexeme.toList := by
  rw [tokenize_eq_lexemes] at ht
  rcases List.mem_append.mp ht with ht | ht
  · obtain ⟨x, hx, rfl⟩ := List.mem_map.mp ht
    rw [Found.token, String.toList_ofList]
    exact Grammar.spells_of_valid (Grammar.valid_of_mem_lexemesFrom hx).1
  · rw [List.mem_singleton.mp ht] at hend
    cases hend

/-- The line of a token has no control sequence in it, so it goes out as it is. -/
theorem Listing.plain_line_token {text source : String} {t : Token} (ht : t ∈ tokenize text source)
    (hend : t.isEnd = false) (n : Nat) : plain (line n t ++ "\n") = line n t ++ "\n" := by
  obtain ⟨front, hline, hfront⟩ := exists_front_line n t
  have hwords : escapeChar ∉ (String.ofList front).toList := by
    rw [String.toList_ofList]
    exact fun hmem => absurd (hfront _ hmem).1 (by decide)
  have hlexeme : plain t.lexeme = t.lexeme := by
    by_cases hmem : escapeChar ∈ t.lexeme.toList
    · have halone : plainFrom [] [escapeChar] = [escapeChar] := by
        rw [plainFrom_of_none (by decide), plainFrom]
        rfl
      have heq := (spells_of_mem_tokenize ht hend).eq_singleton hmem (by decide) (by decide)
      rw [plain, heq, halone, ← heq, String.ofList_toList]
    · exact plain_of_not_mem hmem
  have hsplit : line n t = String.ofList front ++ t.lexeme := by
    rw [← String.toList_inj, hline, String.toList_append, String.toList_ofList]
  rw [hsplit, plain_line hwords, hlexeme]

end KayLex
