import KayLex.Grammar.Spelling
import KayLex.Proofs.Grammar.Lexemes

/-!
What lexemes are spelled with. `Spells` and `Valid` say the same, one case by case and
the other by the first rule that applies; so the kind of a lexeme is a function of its
text. No spelling holds a blank, which is why a blank ends every lexeme.
-/

namespace KayLex.Grammar

open Text Lexicon

variable {c d : Char} {cs ds rest : List Char} {k : Kind}

/-! ### No blanks -/

theorem isBlank_of_mem_operators (h : String.ofList cs ∈ operators) (hc : c ∈ cs) :
    isBlank c = false := by
  have hall : (operators.map String.toList).all (·.all (!isBlank ·)) = true := by decide
  have hcs := List.all_eq_true.mp hall cs (ofList_mem_iff.mp h)
  simpa using List.all_eq_true.mp hcs c hc

theorem isWordChar_of_mem_words (h : String.ofList cs ∈ keywords ++ booleans) (hc : c ∈ cs) :
    isWordChar c = true := by
  have hall : ((keywords ++ booleans).map String.toList).all (·.all isWordChar) = true := by
    decide
  have hcs := List.all_eq_true.mp hall cs (ofList_mem_iff.mp h)
  exact List.all_eq_true.mp hcs c hc

theorem Spells.isBlank (h : Spells k cs) (hc : c ∈ cs) : Text.isBlank c = false := by
  cases h with
  | keyword hword =>
      exact isBlank_of_isWordChar (isWordChar_of_mem_words (List.mem_append_left _ hword) hc)
  | boolean hword =>
      exact isBlank_of_isWordChar (isWordChar_of_mem_words (List.mem_append_right _ hword) hc)
  | numeral _ hdigits => exact isBlank_of_isDecimalDigit (hdigits c hc)
  | identifier hletter htail =>
      rcases List.mem_cons.mp hc with rfl | hc
      · exact isBlank_of_isLetter hletter
      · exact isBlank_of_isWordChar (htail c hc)
  | operator hop => exact isBlank_of_mem_operators hop hc
  | separator hsep =>
      rw [List.mem_singleton.mp hc]
      exact isBlank_of_mem_signs (mem_signs_of_mem_separators hsep)
  | malformedNumeral _ hdigits hspoils htail =>
      rcases List.mem_append.mp hc with hc | hc
      · exact isBlank_of_isDecimalDigit (hdigits c hc)
      rcases List.mem_cons.mp hc with rfl | hc
      · exact isBlank_of_isWordChar (isWordChar_of_spoilsNumeral (by simpa [spoilsNumeral]))
      · exact isBlank_of_isWordChar (htail c hc)
  | half hhalf =>
      rw [List.mem_singleton.mp hc]
      rcases hhalf with rfl | rfl | rfl <;> decide
  | unknown hblank =>
      rw [List.mem_singleton.mp hc]
      exact hblank

/-! ### From a spelling to the rule -/

theorem kindOf?_of_mem_words (h : String.ofList cs ∈ keywords ++ booleans) :
    kindOf? cs = some (wordKind cs) := by
  have hall : ((keywords ++ booleans).map String.toList).all
      (fun cs => kindOf? cs = some (wordKind cs)) = true := by decide
  exact of_decide_eq_true (List.all_eq_true.mp hall cs (ofList_mem_iff.mp h))

theorem kindOf?_of_mem_operators (h : String.ofList cs ∈ operators) :
    kindOf? cs = some .operator := by
  have hall : (operators.map String.toList).all (kindOf? · = some .operator) = true := by
    decide
  exact of_decide_eq_true (List.all_eq_true.mp hall cs (ofList_mem_iff.mp h))

theorem kindOf?_of_mem_separators (h : c ∈ separators) : kindOf? [c] = some .separator := by
  have hall : separators.all (kindOf? [·] = some .separator) = true := by decide
  exact of_decide_eq_true (List.all_eq_true.mp hall c h)

theorem kindOf?_of_spells (h : Spells k cs) : kindOf? cs = some k := by
  cases h with
  | keyword hword =>
      rw [kindOf?_of_mem_words (List.mem_append_left _ hword), wordKind,
        if_neg (not_mem_booleans_of_mem_keywords hword), if_pos hword]
  | boolean hword =>
      rw [kindOf?_of_mem_words (List.mem_append_right _ hword), wordKind, if_pos hword]
  | numeral hne hdigits =>
      obtain ⟨d, ds, rfl⟩ := List.exists_cons_of_ne_nil hne
      rw [kindOf?_of_isDecimalDigit (hdigits d (List.mem_cons_self ..)),
        List.dropWhile_eq_nil_iff.mpr fun e he => hdigits e (List.mem_cons_of_mem d he)]
  | identifier hletter htail hboolean hkeyword =>
      rw [kindOf?_of_isLetter hletter, if_pos (List.all_eq_true.mpr htail), wordKind,
        if_neg hboolean, if_neg hkeyword]
  | operator hop => exact kindOf?_of_mem_operators hop
  | separator hsep => exact kindOf?_of_mem_separators hsep
  | @malformedNumeral ds tail c hne hdigits hspoils htail =>
      obtain ⟨d, ds, rfl⟩ := List.exists_cons_of_ne_nil hne
      have hspoils : spoilsNumeral c = true := by simpa [spoilsNumeral] using hspoils
      rw [List.cons_append, kindOf?_of_isDecimalDigit (hdigits d (List.mem_cons_self ..)),
        List.dropWhile_append_of_pos fun e he => hdigits e (List.mem_cons_of_mem d he),
        List.dropWhile_cons_of_neg (by simp [isDecimalDigit_of_spoilsNumeral hspoils])]
      simp only [hspoils, List.all_eq_true.mpr htail, Bool.and_self, if_true]
  | half hhalf => rcases hhalf with rfl | rfl | rfl <;> decide
  | @unknown c _ hletter hdigit hoperator hseparator =>
      have hop : String.ofList [c] ∉ operators := fun h => hoperator _ h (by simp)
      rw [kindOf?_single hletter hdigit, if_neg hop, if_neg hseparator]

/-! ### From the rule to a spelling -/

theorem spells_wordKind (h : Rule.word.admits cs = true) : Spells (wordKind cs) cs := by
  cases cs with
  | nil => cases h
  | cons c cs =>
      simp only [Rule.admits, Bool.and_eq_true, List.all_eq_true] at h
      unfold wordKind
      split
      · next hboolean => exact .boolean hboolean
      split
      · next hkeyword => exact .keyword hkeyword
      · next hboolean hkeyword => exact .identifier h.1 h.2 hboolean hkeyword

theorem spells_malformedNumeral (h : Rule.malformedNumeral.admits cs = true) :
    Spells .other cs := by
  simp only [Rule.admits] at h
  split at h
  · cases h
  · next c tail hdrop =>
    simp only [Bool.and_eq_true, List.all_eq_true] at h
    obtain ⟨⟨hhead, hspoils⟩, htail⟩ := h
    rw [← List.takeWhile_append_dropWhile (p := isDecimalDigit) (l := cs), hdrop]
    refine .malformedNumeral ?_ (fun d hd => List.mem_takeWhile_imp hd)
      (by simpa [spoilsNumeral] using hspoils) htail
    cases cs with
    | nil => cases hhead
    | cons d ds => simp [List.takeWhile_cons_of_pos (show isDecimalDigit d = true from hhead)]

/-- A sign that starts an operator without being one starts it only together with another. -/
theorem half_of_head_operators (hop : String.ofList [c] ∉ operators) {s : String}
    (hs : s ∈ operators) (hhead : s.toList.head? = some c) : c = ':' ∨ c = '&' ∨ c = '|' := by
  have hall : operators.all (fun s => s.toList.head?.all fun c =>
      String.ofList [c] ∈ operators ∨ c = ':' ∨ c = '&' ∨ c = '|') = true := by decide
  have hc := List.all_eq_true.mp hall s hs
  rw [hhead] at hc
  exact (of_decide_eq_true hc).resolve_left hop

theorem admits_of_ruleFor?_single (h : ruleFor? cs = some .single) {r : Rule} (hr : r ≠ .single) :
    r.admits cs = false := by
  have hsplit : ruleFor? cs = (Rule.all.dropLast.find? (·.admits cs)).or
      ([Rule.single].find? (·.admits cs)) := by
    rw [← List.find?_append]
    rfl
  cases hbefore : Rule.all.dropLast.find? (·.admits cs) with
  | some r' =>
      rw [hsplit, hbefore] at h
      cases h
      have hmem := List.mem_of_find?_eq_some hbefore
      simp [Rule.all] at hmem
  | none =>
      have hmem : r ∈ Rule.all.dropLast := by cases r <;> simp_all [Rule.all]
      simpa using List.find?_eq_none.mp hbefore r hmem

theorem spells_single (hblank : isBlank c = false) (h : ruleFor? [c] = some .single) :
    Spells .other [c] := by
  have hword := admits_of_ruleFor?_single h (r := .word) (by simp)
  have hnumeral := admits_of_ruleFor?_single h (r := .numeral) (by simp)
  have hsep := admits_of_ruleFor?_single h (r := .separator) (by simp)
  have hop : String.ofList [c] ∉ operators :=
    of_decide_eq_false (admits_of_ruleFor?_single h (r := .operator) (by simp))
  by_cases hstart : ∃ s ∈ operators, s.toList.head? = some c
  · obtain ⟨s, hs, hhead⟩ := hstart
    exact .half (half_of_head_operators hop hs hhead)
  · refine .unknown hblank ?_ ?_ (fun s hs hhead => hstart ⟨s, hs, hhead⟩) ?_
    · simpa [Rule.admits] using hword
    · simpa [Rule.admits] using hnumeral
    · simpa [Rule.admits] using hsep

theorem spells_of_valid (h : Valid k cs) : Spells k cs := by
  obtain ⟨hkind, hsingle⟩ := h
  obtain ⟨rule, hrule, rfl⟩ := Option.map_eq_some_iff.mp hkind
  have hadmits := List.find?_some hrule
  cases rule with
  | word => exact Rule.kind_word cs ▸ spells_wordKind hadmits
  | numeral =>
      simp only [Rule.admits, Bool.and_eq_true, List.all_eq_true] at hadmits
      exact .numeral (by simpa using hadmits.1) hadmits.2
  | malformedNumeral => exact spells_malformedNumeral hadmits
  | operator => exact .operator (of_decide_eq_true hadmits)
  | separator =>
      obtain ⟨c, hc, rfl⟩ := List.mem_map.mp (of_decide_eq_true hadmits)
      exact .separator hc
  | single =>
      obtain ⟨c, rfl⟩ := List.length_eq_one_iff.mp (length_of_ruleFor?_single hrule)
      exact spells_single (by simpa using hsingle hrule) hrule

theorem spells_iff_valid : Spells k cs ↔ Valid k cs := by
  refine ⟨fun h => ⟨kindOf?_of_spells h, fun _ => ?_⟩, spells_of_valid⟩
  rw [List.all_eq_true]
  intro c hc
  simp [h.isBlank hc]

theorem Spells.ne_nil (h : Spells k cs) : cs ≠ [] := by
  rintro rfl
  have hnone : kindOf? [] = none := by decide
  rw [kindOf?_of_spells h] at hnone
  cases hnone

/-! ### Blanks end lexemes -/

theorem kindOf?_append_of_isBlank (hne : cs ≠ []) (hd : isBlank d = true) :
    kindOf? (cs ++ d :: ds) = none := by
  rw [Option.eq_none_iff_forall_ne_some]
  intro k hk
  have hvalid : Valid k (cs ++ d :: ds) := by
    refine ⟨hk, fun hsingle => ?_⟩
    have hlength := length_of_ruleFor?_single hsingle
    have hpos := List.length_pos_iff.mpr hne
    simp only [List.length_append, List.length_cons] at hlength
    omega
  have hblank := (spells_of_valid hvalid).isBlank (c := d) (by simp)
  rw [hd] at hblank
  cases hblank

end KayLex.Grammar
