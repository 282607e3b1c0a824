/-!
Control sequences, and texts without them. A control sequence tells a terminal to do
something, such as to change its colour. It is the escape character and an opening
bracket, any number of parameters, any number of intermediate characters, and one
final character; the three classes have no character in common, so there is one way
to read it.

What is written where no terminal shows it is written without control sequences. What
begins like one and does not end like one is kept. It is the library that the command
writes through that leaves them out; it is no part of the program, and `plain` is what
it is taken to do.
-/

namespace KayLex.Text

/-- The character that a control sequence begins with. -/
def escapeChar : Char := '\x1b'

def isParameter (c : Char) : Bool := '0' ≤ c && c ≤ '?'

/-- The characters that may stand between the parameters and the end. -/
def isIntermediate (c : Char) : Bool := ' ' ≤ c && c ≤ '/'

def isFinal (c : Char) : Bool := '@' ≤ c && c ≤ '~'

/-- What stands behind the control sequence that the characters begin with. -/
def behindControl? : List Char → Option (List Char)
  | c :: '[' :: cs =>
    if c = escapeChar then
      match (cs.dropWhile isParameter).dropWhile isIntermediate with
      | last :: rest => if isFinal last then some rest else none
      | [] => none
    else none
  | _ => none

theorem length_dropWhile_le (p : Char → Bool) (cs : List Char) :
    (cs.dropWhile p).length ≤ cs.length :=
  (List.dropWhile_suffix p).length_le

theorem length_lt_of_behindControl? {cs rest : List Char} (h : behindControl? cs = some rest) :
    rest.length < cs.length := by
  match cs with
  | [] | [_] => simp [behindControl?] at h
  | c :: d :: cs =>
    simp only [behindControl?] at h
    split at h
    · rename_i heq
      simp only [List.cons.injEq] at heq
      obtain ⟨rfl, rfl, rfl⟩ := heq
      split at h
      · split at h
        · rename_i last rest' hdrop
          split at h
          · have inner := length_dropWhile_le isParameter cs
            have outer := length_dropWhile_le isIntermediate (cs.dropWhile isParameter)
            simp only [hdrop, List.length_cons] at outer
            simp only [Option.some.injEq] at h
            subst h
            simp only [List.length_cons]
            omega
          · simp at h
        · simp at h
      · simp at h
    · simp at h

/-- The characters without their control sequences, behind those that have been seen (which
are given latest first). -/
def plainFrom (seen : List Char) (cs : List Char) : List Char :=
  match cs with
  | [] => seen.reverse
  | c :: rest =>
    match _h : behindControl? (c :: rest) with
    | some behind => plainFrom seen behind
    | none => plainFrom (c :: seen) rest
termination_by cs.length
decreasing_by
  · exact length_lt_of_behindControl? _h
  · simp

/-- A text without its control sequences, as the library that writes it is taken to leave
them out. -/
def plain (s : String) : String := String.ofList (plainFrom [] s.toList)

theorem behindControl?_eq_none {c : Char} (cs : List Char) (h : c ≠ escapeChar) :
    behindControl? (c :: cs) = none := by
  match cs with
  | [] => rfl
  | d :: cs =>
    simp only [behindControl?]
    split
    · rename_i heq
      simp only [List.cons.injEq] at heq
      obtain ⟨rfl, rfl, rfl⟩ := heq
      simp [h]
    · rfl

theorem plainFrom_of_not_mem {cs : List Char} (h : escapeChar ∉ cs) (seen : List Char) :
    plainFrom seen cs = seen.reverse ++ cs := by
  induction cs generalizing seen with
  | nil => simp [plainFrom]
  | cons c rest ih =>
    simp only [List.mem_cons, not_or] at h
    rw [plainFrom]
    split
    · rename_i hsome
      simp [behindControl?_eq_none rest (Ne.symm h.1)] at hsome
    · simp [ih h.2]

theorem plain_of_not_mem {s : String} (h : escapeChar ∉ s.toList) : plain s = s := by
  simp [plain, plainFrom_of_not_mem h]

end KayLex.Text
