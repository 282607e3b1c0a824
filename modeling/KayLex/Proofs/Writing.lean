import KayLex.Command.Scan
import KayLex.Proofs.FileScan
import KayLex.Proofs.Listing

/-!
What of a scan can be written. The tokens of a file are those of a text, in which a stand-in
marks the place of every surrogate that a decoder has delivered. Such a surrogate is a token by
itself, and a malformed one. Its line cannot be written: a scan whose tokens are handed on to be
written stops there, with the lines before it written. Without a surrogate it goes on to the end
as if nobody were listening, and the lines are written as they are.
-/

namespace KayLex

open Encoding

/-! ### The text of a file -/

namespace Encoding

theorem withoutLastReturn_prefix (cs : List Char) : withoutLastReturn cs <+: cs := by
  rw [withoutLastReturn]
  split
  · exact List.dropLast_prefix cs
  · exact List.prefix_rfl

namespace CodePoint

theorem lookup_surrogatesFrom_of_lt {n i : Nat} (h : i < n) (ps : List CodePoint) :
    (surrogatesFrom n ps).lookup i = none := by
  induction ps generalizing n with
  | nil => rfl
  | cons p ps ih => cases p with
    | char c => exact ih (Nat.lt_succ_of_lt h)
    | surrogate s =>
        rw [surrogatesFrom, List.lookup_cons, beq_false_of_ne (Nat.ne_of_lt h)]
        exact ih (Nat.lt_succ_of_lt h)

theorem lookup_surrogatesFrom (n i : Nat) (ps : List CodePoint) :
    (surrogatesFrom n ps).lookup (n + i) = ps[i]?.bind surrogate? := by
  induction ps generalizing n i with
  | nil => rfl
  | cons p ps ih =>
      cases i with
      | zero => cases p with
        | char c => exact lookup_surrogatesFrom_of_lt (Nat.lt_succ_self n) ps
        | surrogate s => simp [surrogatesFrom, surrogate?]
      | succ i =>
          have hplace : n + (i + 1) = n + 1 + i := by omega
          rw [hplace, List.getElem?_cons_succ, ← ih]
          cases p with
          | char c => rfl
          | surrogate s =>
              rw [surrogatesFrom, List.lookup_cons, beq_false_of_ne (by omega)]

theorem standIn_of_surrogate? {p : CodePoint} {u : Surrogate} (h : p.surrogate? = some u) :
    p.standIn = Policy.replacement := by
  cases p with
  | char c => cases h
  | surrogate s => rfl

end CodePoint

theorem Reader.eq_replacement_of_surrogate {reader : Reader} {octets : List UInt8} {i : Nat}
    {u : Surrogate} {c : Char} (hu : (reader.surrogates octets).lookup i = some u)
    (hc : (reader.stream octets).chars[i]? = some c) : c = Policy.replacement := by
  cases reader with
  | described charset policy => cases hu
  | foreign decoder =>
      have hprefix : (((decoder.answers octets).map CodePoint.standIn).stream).chars <+:
          (decoder.answers octets).text.map CodePoint.standIn := by
        rw [Answers.chars_stream, Answers.text_map]
        split
        · exact List.prefix_rfl
        · exact withoutLastReturn_prefix _
      obtain ⟨p, hp, hpu⟩ : ∃ p, (decoder.answers octets).text[i]? = some p ∧
          p.surrogate? = some u := by
        rw [surrogates, ← Nat.zero_add i, CodePoint.lookup_surrogatesFrom] at hu
        exact Option.bind_eq_some_iff.mp hu
      obtain ⟨rest, hrest⟩ := hprefix
      have hsame : ((decoder.answers octets).text.map CodePoint.standIn)[i]? = some c :=
        hrest ▸ (List.getElem?_append_left (List.getElem?_eq_some_iff.mp hc).1).trans hc
      rw [List.getElem?_map, hp] at hsame
      rw [← Option.some.inj hsame]
      exact CodePoint.standIn_of_surrogate? hpu

end Encoding

/-! ### Surrogates among tokens -/

namespace Command

variable {look : String → Place} {path : String} {o : Options} {codecs : Codecs}
  {reader : Reader} {octets : List UInt8} {t : Token} {u : Surrogate}

/-- A surrogate stands somewhere in the lexeme of a token. -/
def HoldsSurrogate (surrogates : List (Nat × Surrogate)) (t : Token) (u : Surrogate) : Prop :=
  ∃ i : Nat, surrogates.lookup i = some u ∧ t.offset ≤ i ∧ i < t.offset + t.lexeme.length

/-- With the default options a file is read without surrogates. -/
theorem not_holdsSurrogate_of_defaults (t : Token) (u : Surrogate) :
    ¬ HoldsSurrogate (Opening.surrogates look path {} codecs) t u := by
  rw [Opening.surrogates_of_described (ofNames_defaults codecs)]
  rintro ⟨i, hi, -⟩
  cases hi

/-- A token that holds a surrogate is nothing else, and it is malformed. -/
theorem HoldsSurrogate.alone
    (ht : t ∈ tokenize (String.ofList (reader.stream octets).chars) path) (hend : t.isEnd = false)
    (h : HoldsSurrogate (reader.surrogates octets) t u) :
    t.lexeme.toList = [Policy.replacement] ∧ t.kind = .other ∧
      surrogate? (reader.surrogates octets) t = some u := by
  obtain ⟨i, hu, hle, hlt⟩ := h
  obtain ⟨front, beyond, htext, hoffset, -, -, hlexeme⟩ := Grammar.exists_start ht
  obtain ⟨⟨rest, hrest⟩, -⟩ := hlexeme hend
  rw [String.toList_ofList, ← hrest] at htext
  rw [hoffset] at hle hlt
  obtain ⟨j, rfl⟩ : ∃ j, i = front.length + j := ⟨i - front.length, by omega⟩
  have hj : j < t.lexeme.toList.length := by
    rw [String.length_toList]
    omega
  -- The surrogate is the `j`-th character of the lexeme, which therefore has no other.
  have hchar : (reader.stream octets).chars[front.length + j]? = some t.lexeme.toList[j] := by
    rw [htext, List.getElem?_append_right (by omega), Nat.add_sub_cancel_left,
      List.getElem?_append_left hj, List.getElem?_eq_getElem hj]
  have hmem : Policy.replacement ∈ t.lexeme.toList :=
    Reader.eq_replacement_of_surrogate hu hchar ▸ List.getElem_mem hj
  have hspells := spells_of_mem_tokenize ht hend
  have halone := hspells.eq_singleton hmem (by decide +kernel) (by decide)
  rw [halone] at hspells
  refine ⟨halone, ?_, ?_⟩
  · have hkind : Grammar.kindOf? [Policy.replacement] = some .other := by decide +kernel
    rw [(Grammar.spells_iff_valid.mp hspells).1] at hkind
    exact Option.some.inj hkind
  · rw [halone, List.length_singleton] at hj
    obtain rfl : j = 0 := by omega
    rw [surrogate?, hoffset]
    exact hu

theorem holdsSurrogate_iff (ht : t ∈ tokenize (String.ofList (reader.stream octets).chars) path)
    (hend : t.isEnd = false) :
    HoldsSurrogate (reader.surrogates octets) t u ↔
      surrogate? (reader.surrogates octets) t = some u := by
  refine ⟨fun h => (h.alone ht hend).2.2, fun h => ⟨t.offset.toNat, h, ?_, ?_⟩⟩
  · exact Int.self_le_toNat _
  · obtain ⟨front, -, -, hoffset, -⟩ := Grammar.exists_start ht
    have hpos : 0 < t.lexeme.toList.length :=
      List.length_pos_iff.mpr (spells_of_mem_tokenize ht hend).ne_nil
    rw [String.length_toList] at hpos
    omega

end Command

/-! ### Handing tokens on -/

namespace Scanner

variable {write? : List Token → Token → Option Failure} {found : List Token} {s : Scanner}

theorem relayFrom_eq (write? : List Token → Token → Option Failure) (found : List Token)
    (s : Scanner) :
    relayFrom write? found s =
      match next s with
      | .error f s' => ⟨found.reverse, .error f, s'⟩
      | .ok t s' =>
        if t.isEnd then ⟨found.reverse, .ok t, s'⟩
        else
          match write? found t with
          | some f => ⟨found.reverse, .error f, s'⟩
          | none => relayFrom write? (t :: found) s' := by
  conv => lhs; rw [relayFrom]
  split
  · next hnext => rw [hnext]
  · next hnext =>
    rw [hnext]
    rfl

theorem exists_tokens_drainFrom (found : List Token) (s : Scanner) :
    ∃ more, (drainFrom found s).tokens = found.reverse ++ more := by
  fun_induction drainFrom found s with
  | case1 | case2 => exact ⟨[], (List.append_nil _).symm⟩
  | case3 found s t s' hnext ht ih =>
      obtain ⟨more, hmore⟩ := ih
      exact ⟨t :: more, by rw [hmore, List.reverse_cons, List.append_assoc]; rfl⟩

/-- If nothing is refused, a scan goes on as if its tokens were not handed on. -/
theorem relayFrom_eq_drainFrom
    (h : ∀ t ∈ (drainFrom found s).tokens, ∀ before, write? before t = none) :
    relayFrom write? found s = drainFrom found s := by
  fun_induction drainFrom found s with
  | case1 found s f s' hnext => rw [relayFrom_eq, hnext]
  | case2 found s t s' hnext ht =>
      rw [relayFrom_eq, hnext]
      dsimp only
      rw [if_pos ht]
  | case3 found s t s' hnext ht ih =>
      obtain ⟨more, hmore⟩ := exists_tokens_drainFrom (t :: found) s'
      have hwritten : write? found t = none := h t (by simp [hmore]) found
      rw [relayFrom_eq, hnext]
      dsimp only
      rw [if_neg ht, hwritten]
      exact ih h

end Scanner

/-! ### What is written -/

namespace Text

end Text

namespace Command

open Text

variable {surrogates : List (Nat × Surrogate)} {ts : List Token} {text source : String}

theorem unwritable?_eq_none {before : List Token} {t : Token}
    (h : surrogate? surrogates t = none) : unwritable? surrogates before t = none := by
  rw [unwritable?, h]
  rfl

theorem written_eq (h : ∀ t ∈ ts, t ∈ tokenize text source ∧ t.isEnd = false) :
    written ts = Listing.unlines (Listing.lines ts) := by
  rw [written, Listing.unlines]
  refine congrArg String.join (List.map_congr_left fun l hl => ?_)
  obtain ⟨i, hi, rfl⟩ := List.mem_mapIdx.mp hl
  obtain ⟨hmem, hend⟩ := h _ (List.getElem_mem hi)
  exact Listing.plain_line_token hmem hend (i + 1)

end Command

end KayLex
