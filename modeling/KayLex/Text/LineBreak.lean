/-!
Line breaks. A line ends with a line feed, with a carriage return, or with a carriage
return that a line feed follows. A text whose lines end with line feeds can be given other
line breaks, and each line may get one of its own.
-/

namespace KayLex.Text

inductive LineBreak where
  | feed
  | returnFeed
  | carriageReturn
  deriving DecidableEq

def LineBreak.chars : LineBreak → List Char
  | feed => ['\n']
  | returnFeed => ['\r', '\n']
  | carriageReturn => ['\r']

/-- A text with other line breaks in the place of its line feeds, in their order. -/
def rebreak (breaks : Nat → LineBreak) : List Char → List Char
  | [] => []
  | c :: cs =>
    if c = '\n' then (breaks 0).chars ++ rebreak (fun i => breaks (i + 1)) cs
    else c :: rebreak breaks cs

/-- The line breaks that are left for what stands behind a text. -/
def breaksBehind (cs : List Char) (breaks : Nat → LineBreak) : Nat → LineBreak :=
  fun i => breaks (i + cs.count '\n')

section

variable {breaks : Nat → LineBreak} {c : Char} {cs : List Char}

theorem breaksBehind_append (cs ds : List Char) (breaks : Nat → LineBreak) :
    breaksBehind (cs ++ ds) breaks = breaksBehind ds (breaksBehind cs breaks) := by
  funext i
  rw [breaksBehind, breaksBehind, breaksBehind, List.count_append, Nat.add_right_comm,
    Nat.add_assoc]

theorem breaksBehind_of_not_mem (h : '\n' ∉ cs) : breaksBehind cs breaks = breaks := by
  funext i
  rw [breaksBehind, List.count_eq_zero.mpr h, Nat.add_zero]

theorem rebreak_feed :
    rebreak breaks ('\n' :: cs) = (breaks 0).chars ++ rebreak (fun i => breaks (i + 1)) cs :=
  if_pos rfl

theorem rebreak_cons (hc : c ≠ '\n') : rebreak breaks (c :: cs) = c :: rebreak breaks cs :=
  if_neg hc

theorem rebreak_append (breaks : Nat → LineBreak) (cs ds : List Char) :
    rebreak breaks (cs ++ ds) = rebreak breaks cs ++ rebreak (breaksBehind cs breaks) ds := by
  induction cs generalizing breaks with
  | nil => rfl
  | cons c cs ih =>
    rw [← List.singleton_append, breaksBehind_append, List.singleton_append]
    by_cases hc : c = '\n'
    · subst hc
      rw [List.cons_append, rebreak_feed, rebreak_feed, ih, List.append_assoc]
      rfl
    · have hnone : '\n' ∉ [c] := by simpa using Ne.symm hc
      rw [List.cons_append, rebreak_cons hc, rebreak_cons hc, ih, List.cons_append,
        breaksBehind_of_not_mem hnone]

theorem rebreak_of_not_mem (h : '\n' ∉ cs) : rebreak breaks cs = cs := by
  induction cs with
  | nil => rfl
  | cons c cs ih =>
    rw [List.mem_cons, not_or] at h
    rw [rebreak_cons (Ne.symm h.1), ih h.2]

end

end KayLex.Text
