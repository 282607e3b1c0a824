import KayLex.Proofs.Grammar.Coverage
import KayLex.Proofs.Session.Consumers

/-!
What the tokens of a text are. The scanner reads a text once, from left to right and
with one character of lookahead, and yet it finds what a comparison of all prefixes
finds; and the tokens and the gaps between them make up the whole text.
-/

namespace KayLex

open Scanner

/-! ### Longest match -/

namespace Session

variable {s : Session} {more : List Found} {last : Position}

theorem serveAll_next_of_over (n : Nat) (h : Over s.scanner) :
    (serveAll (.replicate n .next) s).1 = .replicate n (.ok (.token s.scanner.sentinel)) := by
  induction n generalizing s with
  | zero => rfl
  | succ n ih =>
      obtain ⟨scanner, hnext, hover, hsentinel, -⟩ := next_of_over h
      have hrest := ih (s := { s with scanner }) hover
      rw [List.replicate_succ, serveAll, serve_next hnext, List.replicate_succ, ← hsentinel]
      dsimp only
      rw [hrest]

theorem serveAll_next_of_pending {ts : List Token} {e : Token} (n : Nat)
    (h : Pending s.scanner more last)
    (hts : ts = more.map (Found.token s.scanner.cursor.name) ++ [e])
    (he : e = .sentinel s.scanner.cursor.name last) :
    (serveAll (.replicate n .next) s).1 =
      (ts.take n ++ .replicate (n - ts.length) e).map (.ok <| .token ·) := by
  induction n generalizing s more ts with
  | zero => simp [serveAll]
  | succ n ih =>
      subst hts
      rw [List.replicate_succ, serveAll]
      cases more with
      | nil =>
          obtain ⟨scanner, hnext, hover, hsentinel, -⟩ := next_of_pending_nil h
          have hrest := serveAll_next_of_over n (s := { s with scanner }) hover
          rw [serve_next hnext]
          dsimp only at hrest ⊢
          rw [hrest, hsentinel, ← he]
          simp
      | cons x more =>
          obtain ⟨scanner, hnext, hpending, hname, -⟩ := next_of_pending_cons h
          have hrest := ih (s := { s with scanner }) hpending rfl (by rw [hname]; exact he)
          rw [serve_next hnext]
          dsimp only at hrest ⊢
          rw [hrest, hname]
          simp

end Session

/-- The scanner is a longest match: all tokens of a text are those of the grammar, and asked
for one token at a time it answers them one by one, and its last one from then on. -/
theorem tokenize_eq_longest_match (text source : String) :
    tokenize text source = Grammar.tokens source text.toList ∧
      ∀ n, (Session.run text source (.replicate n .next)).1 =
        ((Grammar.tokens source text.toList).take n ++
          .replicate (n - (Grammar.tokens source text.toList).length)
            (.sentinel source (Grammar.lexemesFrom {} text.toList).2)).map (.ok <| .token ·) := by
  have htokens := tokenize_eq_lexemes text source
  refine ⟨htokens, fun n => ?_⟩
  exact Session.serveAll_next_of_pending n (pending_ofText text source) rfl rfl

/-! ### Coverage -/

/-- The tokens of a text lose none of it: the sentinel stands at the end, every other token
is the slice of the text at its offset, tokens do not overlap, and what lies before, between
and behind them are gaps. -/
theorem tokenize_covers (text source : String) :
    ∃ (found : List Token) (last : Token), tokenize text source = found ++ [last] ∧
      last.kind = .endOfStream ∧ last.offset = text.length ∧
      (∀ t ∈ found, t.kind ≠ .endOfStream ∧ t.lexeme ≠ "" ∧ ∃ start : Nat, t.offset = start ∧
        slice text.toList start (start + t.lexeme.length) = t.lexeme.toList) ∧
      found.Pairwise (fun a b : Token => a.offset + a.lexeme.length ≤ b.offset) ∧
      Grammar.Covers text.toList 0 found := by
  obtain ⟨hcovers, hlast⟩ := Grammar.covers_lexemesFrom source text.toList [] (p := {}) rfl
  refine ⟨_, _, tokenize_eq_lexemes text source, rfl, ?_, ?_, hcovers.pairwise, hcovers⟩
  · rw [Token.sentinel, Found.token, hlast, List.nil_append, String.length_toList]
  · intro t ht
    refine ⟨?_, hcovers.slice_of_mem ht⟩
    obtain ⟨x, hx, rfl⟩ := List.mem_map.mp ht
    exact Grammar.kind_of_mem_lexemesFrom hx

end KayLex
