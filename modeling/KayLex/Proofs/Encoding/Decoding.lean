import KayLex.Proofs.Encoding.Flaws

/-!
Decoding as a relation between octets, the characters they come to and the octets that are
kept. It leaves out where the octets are counted from, which only failures show. Decoding
more octets later is decoding them behind those that were kept, so it makes no difference
where the octets are cut.
-/

namespace KayLex.Encoding

theorem Policy.repair_congr {p : Policy} {u v : Undecodable} {cs : List Char}
    (h : u.octets = v.octets) (hrepair : p.repair u = .ok cs) : p.repair v = .ok cs := by
  cases p
  case replace | ignore => exact hrepair
  case escape =>
    unfold repair at hrepair ⊢
    rwa [← h]
  all_goals cases hrepair

namespace Codec

/-- The octets come to the characters `cs`, and what is in `kept` waits for its rest. -/
inductive Decodes (codec : Codec) (policy : Policy) (whole : Bool) :
    (octets : List UInt8) → (cs : List Char) → (kept : List UInt8) → Prop where
  | nil : Decodes codec policy whole [] [] []
  | unfinished {octet : UInt8} {rest : List UInt8}
      (h : codec.front whole octet rest = .unfinished) :
      Decodes codec policy whole (octet :: rest) [] (octet :: rest)
  | char {octet : UInt8} {rest kept : List UInt8} {c : Char} {cs : List Char} {more : Nat}
      (h : codec.front whole octet rest = .char c more)
      (hrest : Decodes codec policy whole (rest.drop more) cs kept) :
      Decodes codec policy whole (octet :: rest) (c :: cs) kept
  | flaw {octet : UInt8} {rest kept : List UInt8} {ds cs : List Char} {more : Nat}
      {reason : Flaw} {u : Undecodable} (h : codec.front whole octet rest = .flaw more reason)
      (hrun : u.octets = octet :: rest.take more) (hrepair : policy.repair u = .ok ds)
      (hrest : Decodes codec policy whole (rest.drop more) cs kept) :
      Decodes codec policy whole (octet :: rest) (ds ++ cs) kept

variable {codec : Codec} {policy : Policy} {whole : Bool} {chars cs ds : List Char}
  {position : Nat} {octet : UInt8} {octets rest behind kept : List UInt8} {c : Char} {more : Nat}
  {reason : Flaw} {decoded : Decoded}

theorem decodeFrom_char (h : codec.front whole octet rest = .char c more) :
    codec.decodeFrom policy whole chars position (octet :: rest) =
      codec.decodeFrom policy whole (c :: chars) (position + 1 + more) (rest.drop more) := by
  conv => lhs; rw [decodeFrom]
  split
  · next hfront =>
    rw [h] at hfront
    cases hfront
  · next hfront =>
    rw [h] at hfront
    cases hfront
    rfl
  · next hfront =>
    rw [h] at hfront
    cases hfront

/-! ### Decoding is the relation -/

theorem decodes_of_decodeFrom
    (h : codec.decodeFrom policy whole chars position octets = .ok decoded) :
    ∃ cs, decoded.chars = chars.reverse ++ cs ∧
      Decodes codec policy whole octets cs decoded.kept := by
  fun_induction decodeFrom codec policy whole chars position octets with
  | case1 =>
      cases h
      exact ⟨[], (List.append_nil _).symm, .nil⟩
  | case2 chars position octet rest hfront =>
      cases h
      exact ⟨[], (List.append_nil _).symm, .unfinished hfront⟩
  | case3 chars position octet rest c more hfront ih =>
      obtain ⟨cs, hchars, hcs⟩ := ih h
      exact ⟨c :: cs, by simpa using hchars, .char hfront hcs⟩
  | case4 => cases h
  | case5 chars position octet rest more reason hfront run ds hrepair ih =>
      obtain ⟨cs, hchars, hcs⟩ := ih h
      exact ⟨ds ++ cs, by simpa using hchars, .flaw hfront rfl hrepair hcs⟩

theorem Decodes.decodeFrom (h : Decodes codec policy whole octets cs kept) (chars : List Char)
    (position : Nat) :
    codec.decodeFrom policy whole chars position octets =
      .ok { chars := chars.reverse ++ cs, kept } := by
  induction h generalizing chars position with
  | nil => rw [decodeFrom_nil, List.append_nil]
  | unfinished hfront => rw [decodeFrom_unfinished hfront, List.append_nil]
  | char hfront _ ih =>
      rw [decodeFrom_char hfront, ih, List.reverse_cons, List.append_assoc, List.singleton_append]
  | flaw hfront hrun hrepair _ ih =>
      rw [decodeFrom_flaw hfront, Policy.repair_congr hrun hrepair]
      dsimp only
      rw [ih, List.reverse_append, List.reverse_reverse, List.append_assoc]

/-- Decoding answers just what the octets come to, wherever they are counted from. -/
theorem decode_eq_ok_iff :
    codec.decode policy whole position octets = .ok decoded ↔
      Decodes codec policy whole octets decoded.chars decoded.kept := by
  constructor
  · intro h
    obtain ⟨cs, hchars, hcs⟩ := decodes_of_decodeFrom h
    rw [hchars]
    exact hcs
  · intro h
    exact h.decodeFrom [] position

theorem Decodes.unique {kept' : List UInt8} (h : Decodes codec policy whole octets cs kept)
    (h' : Decodes codec policy whole octets ds kept') : cs = ds ∧ kept = kept' := by
  have heq := (h.decodeFrom [] 0).symm.trans (h'.decodeFrom [] 0)
  cases heq
  exact ⟨rfl, rfl⟩

/-! ### What can be decoded -/

/-- Octets without a flaw can be decoded, and with a policy that repairs all octets can. -/
theorem exists_decodes (h : policy.Repairs ∨ ¬ Flawed codec whole octets) :
    ∃ cs kept, Decodes codec policy whole octets cs kept := by
  cases hdecode : codec.decodeFrom policy whole [] 0 octets with
  | ok decoded =>
      obtain ⟨cs, -, hcs⟩ := decodes_of_decodeFrom hdecode
      exact ⟨cs, decoded.kept, hcs⟩
  | error f =>
      obtain ⟨⟨u, hrepair⟩, hflawed⟩ := exists_repair_of_error hdecode
      rcases h with hp | hsound
      · obtain ⟨cs, hcs⟩ := Policy.exists_repair hp u
        rw [hrepair] at hcs
        cases hcs
      · exact absurd hflawed hsound

theorem exists_decodes_iff (hp : ¬ policy.Repairs) :
    (∃ cs kept, Decodes codec policy whole octets cs kept) ↔ ¬ Flawed codec whole octets := by
  constructor
  · rintro ⟨cs, kept, h⟩
    exact not_flawed_of_ok hp (h.decodeFrom [] 0)
  · exact fun h => exists_decodes (.inr h)

theorem exists_error_iff_flawed (hp : ¬ policy.Repairs) (position : Nat) :
    (∃ f, codec.decode policy whole position octets = .error f) ↔ Flawed codec whole octets := by
  cases hdecode : codec.decode policy whole position octets with
  | error f => exact iff_of_true ⟨f, rfl⟩ (exists_repair_of_error hdecode).2
  | ok decoded => exact iff_of_false (by simp) (not_flawed_of_ok hp hdecode)

/-! ### Decoding in pieces -/

theorem Decodes.of_kept (h : Decodes codec policy whole octets cs kept) :
    Decodes codec policy whole kept [] kept := by
  induction h with
  | nil => exact .nil
  | unfinished hfront => exact .unfinished hfront
  | char _ _ ih => exact ih
  | flaw _ _ _ _ ih => exact ih

theorem decodes_char_iff (h : codec.front whole octet rest = .char c more) :
    Decodes codec policy whole (octet :: rest) cs kept ↔
      ∃ ds, cs = c :: ds ∧ Decodes codec policy whole (rest.drop more) ds kept := by
  constructor
  · rintro (_ | hfront | ⟨hfront, hrest⟩ | hfront)
    · rw [h] at hfront
      cases hfront
    · rw [h] at hfront
      cases hfront
      exact ⟨_, rfl, hrest⟩
    · rw [h] at hfront
      cases hfront
  · rintro ⟨ds, rfl, hrest⟩
    exact .char h hrest

theorem decodes_flaw_iff {u : Undecodable} (h : codec.front whole octet rest = .flaw more reason)
    (hrun : u.octets = octet :: rest.take more) (hrepair : policy.repair u = .ok ds) :
    Decodes codec policy whole (octet :: rest) cs kept ↔
      ∃ es, cs = ds ++ es ∧ Decodes codec policy whole (rest.drop more) es kept := by
  constructor
  · rintro (_ | hfront | hfront | ⟨hfront, hrun', hrepair', hrest⟩)
    · rw [h] at hfront
      cases hfront
    · rw [h] at hfront
      cases hfront
    · rw [h] at hfront
      cases hfront
      rw [Policy.repair_congr (hrun'.trans hrun.symm) hrepair'] at hrepair
      cases hrepair
      exact ⟨_, rfl, hrest⟩
  · rintro ⟨es, rfl, hrest⟩
    exact .flaw h hrun hrepair hrest

/-- Decoding more octets is decoding them behind those that were kept. -/
theorem decodes_append_iff (hs : Steady codec) (h : Decodes codec policy false octets cs kept)
    {kept' : List UInt8} :
    Decodes codec policy whole (octets ++ behind) ds kept' ↔
      ∃ es, ds = cs ++ es ∧ Decodes codec policy whole (kept ++ behind) es kept' := by
  induction h generalizing ds with
  | nil => simp
  | unfinished => simp
  | @char octet rest kept c cs more hfront _ ih =>
      have hmore : (codec.front false octet rest).more? = some more := by rw [hfront, Front.more?]
      rw [List.cons_append, decodes_char_iff ((hs.stays hmore whole behind).trans hfront),
        hs.drop_append hmore]
      simp only [ih]
      constructor
      · rintro ⟨_, rfl, es, rfl, hes⟩
        exact ⟨es, rfl, hes⟩
      · rintro ⟨es, rfl, hes⟩
        exact ⟨cs ++ es, rfl, es, rfl, hes⟩
  | @flaw octet rest kept ds' cs more reason u hfront hrun hrepair _ ih =>
      have hmore : (codec.front false octet rest).more? = some more := by rw [hfront, Front.more?]
      have hrun' : u.octets = octet :: (rest ++ behind).take more := by
        rw [hrun, List.take_append_of_le_length (hs.takes hmore)]
      rw [List.cons_append, decodes_flaw_iff ((hs.stays hmore whole behind).trans hfront) hrun'
        hrepair, hs.drop_append hmore]
      simp only [ih]
      constructor
      · rintro ⟨_, rfl, es, rfl, hes⟩
        exact ⟨es, (List.append_assoc ..).symm, hes⟩
      · rintro ⟨es, rfl, hes⟩
        exact ⟨cs ++ es, List.append_assoc .., es, rfl, hes⟩

end Codec

end KayLex.Encoding
