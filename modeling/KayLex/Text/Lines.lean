/-!
Lines of a text, for a reader who knows every character that can end one. A carriage return
with a line feed behind it is a single end. The last line needs no end, and behind an end
there is no line if there is no text.
-/

namespace KayLex.Text

def lineEnds : List Char :=
  ['\n', '\r', '\x0b', '\x0c', '\x1c', '\x1d', '\x1e', '\x85', '\u2028', '\u2029']

/-- The lines of a text, when some of the first one has been seen (which is given latest
first). -/
def linesFrom (seen : List Char) : List Char → List (List Char)
  | [] => if seen.isEmpty then [] else [seen.reverse]
  | '\r' :: '\n' :: rest => seen.reverse :: linesFrom [] rest
  | c :: rest =>
    if c ∈ lineEnds then seen.reverse :: linesFrom [] rest else linesFrom (c :: seen) rest

def splitLines (text : String) : List String := (linesFrom [] text.toList).map String.ofList

/-- A line goes on up to the first character that ends one. -/
theorem linesFrom_append {cs : List Char} (h : ∀ c ∈ cs, c ∉ lineEnds) (seen rest : List Char) :
    linesFrom seen (cs ++ '\n' :: rest) = (seen.reverse ++ cs) :: linesFrom [] rest := by
  induction cs generalizing seen with
  | nil =>
    rw [List.nil_append, List.append_nil, linesFrom, if_pos (by decide)]
    rintro _ ⟨⟩
  | cons c cs ih =>
    have hc := h c (List.mem_cons_self ..)
    have hcs := ih (fun d hd => h d (List.mem_cons_of_mem c hd)) (c :: seen)
    rw [List.cons_append, linesFrom, if_neg hc, hcs, List.reverse_cons, List.append_assoc,
      List.singleton_append]
    -- A carriage return in front of the line feed would end the line before.
    rintro _ rfl
    exact absurd hc (by decide)

end KayLex.Text
