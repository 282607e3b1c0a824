/-!
How alike two texts are. The longest run that both hold is taken to stand for the same
thing in both; what stands before it in the one is then compared with what stands
before it in the other, and what stands behind it likewise. The characters of all
these runs are what the two share.

Texts are alike if the shared characters make up six tenths of both together. A name
that was mistyped is alike to the one that was meant.
-/

namespace KayLex.Text

def sharedBeginning : List Char → List Char → Nat
  | a :: as, b :: bs => if a = b then sharedBeginning as bs + 1 else 0
  | _, _ => 0

/-- A run of characters that two lists hold: where it starts in each of them, and its
length. -/
structure Run where
  first : Nat
  second : Nat
  size : Nat
  deriving DecidableEq

/-- The runs that two lists hold, one for every pair of places, ordered by the place in the
first list. -/
def runs (a b : List Char) : List Run :=
  (List.range a.length).flatMap fun i =>
    (List.range b.length).map fun j => ⟨i, j, sharedBeginning (a.drop i) (b.drop j)⟩

/-- The longer one of two runs, the earlier one if they are equally long. -/
def Run.longer (earlier later : Run) : Run :=
  if earlier.size < later.size then later else earlier

/-- The longest run that two lists hold, and the first such. -/
def longestRun (a b : List Char) : Run := (runs a b).foldl Run.longer ⟨0, 0, 0⟩

theorem foldl_longer_mem (rs : List Run) (r : Run) :
    rs.foldl Run.longer r = r ∨ rs.foldl Run.longer r ∈ rs := by
  induction rs generalizing r with
  | nil => simp
  | cons s rs ih =>
    rw [List.foldl_cons]
    rcases ih (r.longer s) with same | mem
    · rw [same]
      by_cases longer : r.size < s.size <;> simp [Run.longer, longer]
    · exact .inr (List.mem_cons_of_mem s mem)

theorem first_longestRun_lt {a b : List Char} (h : (longestRun a b).size ≠ 0) :
    (longestRun a b).first < a.length := by
  rcases foldl_longer_mem (runs a b) ⟨0, 0, 0⟩ with same | mem
  · exact absurd (by simp [longestRun, same]) h
  · simp only [runs, List.mem_flatMap, List.mem_map, List.mem_range] at mem
    obtain ⟨i, hi, j, -, hr⟩ := mem
    have first : (longestRun a b).first = i := by
      rw [longestRun, runs, ← hr]
    omega

def sharedCount (a b : List Char) : Nat :=
  let run := longestRun a b
  if _h : run.size = 0 then 0
  else
    sharedCount (a.take run.first) (b.take run.second) + run.size +
      sharedCount (a.drop (run.first + run.size)) (b.drop (run.second + run.size))
termination_by a.length
decreasing_by
  · have := first_longestRun_lt _h
    simp only [List.length_take]
    omega
  · have := first_longestRun_lt _h
    have : (longestRun a b).size ≠ 0 := _h
    simp only [List.length_drop]
    omega

/-- Whether two lists of characters are alike. They share no more than the shorter one
holds, so lists of very different lengths are not compared. -/
def isAlike (a b : List Char) : Bool :=
  let needed := 3 * (a.length + b.length)
  needed ≤ 10 * min a.length b.length && needed ≤ 10 * sharedCount a b

/-- Whether `a` comes before `b` as a guess at what `word` was meant to be: it is more alike
to the word, or as much and later in the alphabet. -/
def isBetterGuess (word a b : String) : Bool :=
  let weight (s t : String) : Nat :=
    sharedCount s.toList word.toList * (t.length + word.length)
  weight b a < weight a b || (weight a b = weight b a && b < a)

/-- The best guesses at what a word was meant to be, at most so many, in the order in which
the candidates are given. -/
def guesses (limit : Nat) (word : String) (candidates : List String) : List String :=
  let alike := candidates.filter fun c => isAlike c.toList word.toList
  alike.filter fun c => (alike.filter (isBetterGuess word · c)).length < limit

end KayLex.Text
