import KayLex.Text.ControlSequence

/-!
Plain texts in parts. What holds no escape character is not touched, and a line feed neither
begins nor ends a control sequence. So in a line of fixed words with a name at its end, it is
the name that is made plain.
-/

namespace KayLex.Text

variable {c : Char} {cs rest behind : List Char}

theorem plainFrom_of_some (h : behindControl? (c :: rest) = some behind) (seen : List Char) :
    plainFrom seen (c :: rest) = plainFrom seen behind := by
  rw [plainFrom]
  split
  · next h' =>
    rw [h] at h'
    cases h'
    rfl
  · next h' =>
    rw [h] at h'
    cases h'

theorem plainFrom_of_none (h : behindControl? (c :: rest) = none) (seen : List Char) :
    plainFrom seen (c :: rest) = plainFrom (c :: seen) rest := by
  rw [plainFrom]
  split
  · next h' =>
    rw [h] at h'
    cases h'
  · rfl

theorem plainFrom_eq_append (seen cs : List Char) :
    plainFrom seen cs = seen.reverse ++ plainFrom [] cs := by
  induction hn : cs.length using Nat.strongRecOn generalizing seen cs with
  | _ n ih =>
      cases cs with
      | nil => simp [plainFrom]
      | cons c rest =>
          cases h : behindControl? (c :: rest) with
          | some behind =>
              rw [plainFrom_of_some h, plainFrom_of_some h]
              exact ih _ (hn ▸ length_lt_of_behindControl? h) seen behind rfl
          | none =>
              have hlt : rest.length < n := by
                rw [← hn]
                exact Nat.lt_succ_self _
              rw [plainFrom_of_none h, plainFrom_of_none h, ih _ hlt (c :: seen) rest rfl,
                ih _ hlt [c] rest rfl]
              simp

theorem plainFrom_append_of_not_mem (h : escapeChar ∉ cs) (seen rest : List Char) :
    plainFrom seen (cs ++ rest) = plainFrom (cs.reverse ++ seen) rest := by
  induction cs generalizing seen with
  | nil => rfl
  | cons c cs ih =>
      rw [List.mem_cons, not_or] at h
      rw [List.cons_append, plainFrom_of_none (behindControl?_eq_none _ (Ne.symm h.1)), ih h.2,
        List.reverse_cons, List.append_assoc, List.singleton_append]

theorem dropWhile_append_feed {p : Char → Bool} (hp : p '\n' = false) (cs : List Char) :
    (cs ++ ['\n']).dropWhile p = cs.dropWhile p ++ ['\n'] := by
  rw [List.dropWhile_append]
  split
  · next hempty =>
    rw [List.isEmpty_iff.mp hempty]
    simp [hp]
  · rfl

theorem behindControl?_append_feed (cs : List Char) :
    behindControl? (cs ++ ['\n']) = (behindControl? cs).map (· ++ ['\n']) := by
  match cs with
  | [] => decide
  | [c] => simp [behindControl?]
  | c :: d :: cs =>
      by_cases hd : d = '['
      · subst hd
        simp only [behindControl?, List.cons_append]
        rw [dropWhile_append_feed (by decide), dropWhile_append_feed (by decide)]
        split
        · cases hrest : (cs.dropWhile isParameter).dropWhile isIntermediate with
          | nil => simp [show isFinal '\n' = false by decide]
          | cons last rest =>
              simp only [List.cons_append]
              split <;> rfl
        · rfl
      · simp [behindControl?, hd]

theorem plainFrom_append_feed (seen cs : List Char) :
    plainFrom seen (cs ++ ['\n']) = plainFrom seen cs ++ ['\n'] := by
  fun_induction plainFrom seen cs with
  | case1 seen => rw [List.nil_append, plainFrom_of_not_mem (by decide)]
  | case2 seen c rest behind h ih =>
      have hfeed := behindControl?_append_feed (c :: rest)
      rw [h] at hfeed
      exact (plainFrom_of_some hfeed seen).trans ih
  | case3 seen c rest h ih =>
      have hfeed := behindControl?_append_feed (c :: rest)
      rw [h] at hfeed
      exact (plainFrom_of_none hfeed seen).trans ih

/-- In a line that ends with a name, only the name is made plain if the words in front of it are
plain already. -/
theorem plain_line {words : String} (h : escapeChar ∉ words.toList) (name : String) :
    plain (words ++ name ++ "\n") = words ++ plain name ++ "\n" := by
  have hfeed : "\n".toList = ['\n'] := rfl
  rw [← String.toList_inj]
  simp only [plain, String.toList_append, String.toList_ofList]
  rw [hfeed, plainFrom_append_feed, plainFrom_append_of_not_mem h, plainFrom_eq_append,
    List.append_nil, List.reverse_reverse]

end KayLex.Text
