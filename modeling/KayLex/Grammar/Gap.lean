import KayLex.Lexicon

/-!
What may stand between lexemes: blanks and comments. `Gap` says so piece by piece,
and `skip` drops the longest gap at the front of a text.

A line comment goes up to the next line break and leaves it to the blanks behind
it. A block comment goes up to the first star and slash behind the two characters
that open it; one that is never closed goes to the end of the text. So a comment
that nothing ends can only be the last piece of a gap at the end of a text.
-/

namespace KayLex.Grammar

def blockEnd : List Char := ['*', '/']

/-- A text made of blanks and comments. The flag says that the text behind it is empty,
which is where a comment may go unended. -/
inductive Gap : (final : Bool) → List Char → Prop where
  | nil {final : Bool} : Gap final []
  | blank {final : Bool} {c : Char} {rest : List Char} (hc : Text.isBlank c = true)
      (hrest : Gap final rest) : Gap final (c :: rest)
  | line {final : Bool} {body : List Char} {e : Char} {rest : List Char}
      (hbody : body.all (!Lexicon.endsLine ·) = true) (he : Lexicon.endsLine e = true)
      (hrest : Gap final (e :: rest)) : Gap final ('/' :: '/' :: (body ++ e :: rest))
  | lineToEnd {body : List Char} (hbody : body.all (!Lexicon.endsLine ·) = true) :
      Gap true ('/' :: '/' :: body)
  | block {final : Bool} {body rest : List Char} (hbody : ¬ blockEnd <:+: body ++ ['*'])
      (hrest : Gap final rest) : Gap final ('/' :: '*' :: (body ++ (blockEnd ++ rest)))
  | blockToEnd {body : List Char} (hbody : ¬ blockEnd <:+: body) :
      Gap true ('/' :: '*' :: body)

/-- The text behind the first end of a block comment, or nothing if there is none. -/
def afterBlock : List Char → List Char
  | '*' :: '/' :: rest => rest
  | _ :: rest => afterBlock rest
  | [] => []

theorem length_afterBlock_le (cs : List Char) : (afterBlock cs).length ≤ cs.length := by
  fun_induction afterBlock cs with
  | case1 rest => simp only [List.length_cons]; omega
  | case2 c rest _ ih => simp only [List.length_cons]; omega
  | case3 => exact Nat.le_refl _

/-- A text without the longest gap at its front. -/
def skip (cs : List Char) : List Char :=
  match cs with
  | [] => []
  | '/' :: '/' :: body => skip (body.dropWhile (!Lexicon.endsLine ·))
  | '/' :: '*' :: body => skip (afterBlock body)
  | c :: rest => if Text.isBlank c then skip rest else c :: rest
termination_by cs.length
decreasing_by
  · have := (List.dropWhile_sublist (!Lexicon.endsLine ·) (l := body)).length_le
    simp only [List.length_cons]
    omega
  · have := length_afterBlock_le body
    simp only [List.length_cons]
    omega
  · simp

theorem length_skip_le (cs : List Char) : (skip cs).length ≤ cs.length := by
  fun_induction skip cs with
  | case1 => exact Nat.le_refl _
  | case2 body ih =>
    have := (List.dropWhile_sublist (!Lexicon.endsLine ·) (l := body)).length_le
    simp only [List.length_cons]
    omega
  | case3 body ih =>
    have := length_afterBlock_le body
    simp only [List.length_cons]
    omega
  | case4 c rest _ _ _ ih => simp only [List.length_cons]; omega
  | case5 => exact Nat.le_refl _

end KayLex.Grammar
