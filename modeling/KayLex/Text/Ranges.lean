/-!
Sets of code points, written as ascending lists of closed ranges. The character
classes of a Unicode table are of this kind: a few hundred ranges stand for a
hundred thousand code points, and a question about all of them becomes a walk
over the list.

Membership stops at the first range that begins beyond the code point. For an
ascending list nothing is missed by that (`covers_iff`), and the early characters
of a table, which texts are mostly made of, are found at once.
-/

namespace KayLex.Text

/-- Closed ranges of code points, in ascending order. -/
abbrev Ranges := List (Nat × Nat)

namespace Ranges

def covers : Ranges → Nat → Bool
  | [], _ => false
  | (first, last) :: rest, n =>
    if n < first then false else if n ≤ last then true else covers rest n

/-- Whether every range is nonempty and begins after `low`, and after the end of the
range before it. -/
def ascendsFrom (low : Nat) : Ranges → Bool
  | [] => true
  | (first, last) :: rest => low ≤ first && first ≤ last && ascendsFrom (last + 1) rest

@[simp] theorem covers_nil (n : Nat) : covers [] n = false := rfl

theorem le_of_mem_of_ascendsFrom {low : Nat} {rs : Ranges} (h : ascendsFrom low rs)
    {r : Nat × Nat} (hr : r ∈ rs) : low ≤ r.1 := by
  induction rs generalizing low with
  | nil => simp at hr
  | cons s rest ih =>
    obtain ⟨first, last⟩ := s
    simp only [ascendsFrom, Bool.and_eq_true, decide_eq_true_eq] at h
    rcases List.mem_cons.mp hr with rfl | hr
    · exact h.1.1
    · have := ih h.2 hr
      omega

/-- On an ascending list, stopping early loses nothing. -/
theorem covers_iff {low : Nat} {rs : Ranges} (h : ascendsFrom low rs) (n : Nat) :
    covers rs n = true ↔ ∃ r ∈ rs, r.1 ≤ n ∧ n ≤ r.2 := by
  induction rs generalizing low with
  | nil => simp
  | cons s rest ih =>
    obtain ⟨first, last⟩ := s
    simp only [ascendsFrom, Bool.and_eq_true, decide_eq_true_eq] at h
    simp only [covers]
    by_cases below : n < first
    · simp only [below, if_true, Bool.false_eq_true, false_iff]
      rintro ⟨r, hr, hle, -⟩
      rcases List.mem_cons.mp hr with rfl | hr
      · simp only at hle
        omega
      · have := le_of_mem_of_ascendsFrom h.2 hr
        omega
    · by_cases inside : n ≤ last
      · simp only [below, inside, if_false, if_true, true_iff]
        exact ⟨(first, last), by simp, by simp only; omega, inside⟩
      · simp only [below, inside, if_false, ih h.2, List.mem_cons]
        constructor
        · rintro ⟨r, hr, hb⟩
          exact ⟨r, Or.inr hr, hb⟩
        · rintro ⟨r, rfl | hr, hb⟩
          · exact absurd hb.2 inside
          · exact ⟨r, hr, hb⟩

end Ranges

end KayLex.Text
