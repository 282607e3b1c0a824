import KayLex.Proofs.Grammar.Lexemes

/-!
How lexemes cover a text. Told by offsets alone, a list of tokens covers a text if
each token is the slice of the text at its offset and what lies before, between and
behind the tokens are gaps. So no character is lost and none is told twice.
-/

namespace KayLex

/-- The characters of a text from the offset `i` up to the offset `j`. -/
def slice (cs : List Char) (i j : Nat) : List Char := (cs.drop i).take (j - i)

namespace Grammar

/-- From the offset `i` on, the text is gaps and the tokens between them. -/
inductive Covers (text : List Char) : (i : Nat) → List Token → Prop where
  | last {i : Nat} (hi : i ≤ text.length) (hgap : Gap true (text.drop i)) : Covers text i []
  | token {i start : Nat} {t : Token} {ts : List Token} (hstart : t.offset = start)
      (hi : i ≤ start) (hgap : Gap false (slice text i start)) (hlexeme : t.lexeme ≠ "")
      (hslice : slice text start (start + t.lexeme.length) = t.lexeme.toList)
      (hrest : Covers text (start + t.lexeme.length) ts) : Covers text i (t :: ts)

namespace Covers

variable {text : List Char} {i : Nat} {t : Token} {ts : List Token}

theorem le_offset (h : Covers text i ts) (ht : t ∈ ts) : (i : Int) ≤ t.offset := by
  induction h with
  | last => cases ht
  | token hstart hi _ _ _ _ ih =>
      rcases List.mem_cons.mp ht with rfl | ht
      · omega
      · have := ih ht
        omega

theorem slice_of_mem (h : Covers text i ts) (ht : t ∈ ts) :
    t.lexeme ≠ "" ∧ ∃ start : Nat, t.offset = start ∧
      slice text start (start + t.lexeme.length) = t.lexeme.toList := by
  induction h with
  | last => cases ht
  | token hstart _ _ hlexeme hslice _ ih =>
      rcases List.mem_cons.mp ht with rfl | ht
      · exact ⟨hlexeme, _, hstart, hslice⟩
      · exact ih ht

theorem pairwise (h : Covers text i ts) :
    ts.Pairwise fun a b : Token => a.offset + a.lexeme.length ≤ b.offset := by
  induction h with
  | last => exact .nil
  | token hstart _ _ _ _ hrest ih =>
      refine .cons (fun b hb => ?_) ih
      have := hrest.le_offset hb
      omega

end Covers

/-! ### The lexemes of a text cover it -/

theorem slice_append (front cs : List Char) (n : Nat) :
    slice (front ++ cs) front.length (front.length + n) = cs.take n := by
  rw [slice, List.drop_left' rfl, Nat.add_sub_cancel_left]

theorem Covers.cons {front gap lexeme beyond : List Char} {t : Token} {ts : List Token}
    (hgap : Gap false gap) (hstart : t.offset = (front ++ gap).length)
    (hlexeme : t.lexeme.toList = lexeme) (hne : lexeme ≠ [])
    (hrest : Covers (front ++ gap ++ lexeme ++ beyond) (front ++ gap ++ lexeme).length ts) :
    Covers (front ++ gap ++ lexeme ++ beyond) front.length (t :: ts) := by
  have hlength : t.lexeme.length = lexeme.length := by rw [← String.length_toList, hlexeme]
  refine .token hstart (by simp) ?_ ?_ ?_ ?_
  · rw [List.append_assoc, List.append_assoc, List.length_append, slice_append, List.take_left' rfl]
    exact hgap
  · rintro h
    rw [h] at hlexeme
    exact hne hlexeme.symm
  · rw [hlength, List.append_assoc, slice_append, List.take_left' rfl, hlexeme]
  · rwa [hlength, ← List.length_append]

theorem covers_lexemesFrom (source : String) {p : Position} (cs front : List Char)
    (hp : p.offset = front.length) :
    Covers (front ++ cs) front.length ((lexemesFrom p cs).1.map (Found.token source)) ∧
      (lexemesFrom p cs).2.offset = (front ++ cs).length := by
  refine lexemesFrom_induction
    (motive := fun p cs r => ∀ front : List Char, p.offset = front.length →
      Covers (front ++ cs) front.length (r.1.map (Found.token source)) ∧
        r.2.offset = (front ++ cs).length) ?_ ?_ p cs front hp
  · intro p cs hgap front hp
    refine ⟨.last (by simp) ?_, by rw [Position.offset_afterAll, hp, List.length_append]⟩
    rwa [List.drop_left' rfl]
  · intro p gap kind c tail beyond found last hgap _ ih front hp
    have hassoc :
        front ++ (gap ++ c :: (tail ++ beyond)) = front ++ gap ++ (c :: tail) ++ beyond := by
      simp
    obtain ⟨hcovers, hlast⟩ := ih (front ++ gap ++ (c :: tail)) (by
      rw [Position.offset_afterAll, hp, List.append_assoc, ← List.length_append])
    rw [hassoc]
    refine ⟨?_, hlast⟩
    refine Covers.cons hgap ?_ String.toList_ofList (List.cons_ne_nil _ _) hcovers
    rw [Found.token, Position.offset_afterAll, hp, List.length_append]

end Grammar

end KayLex
