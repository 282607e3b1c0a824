import KayLex.Encoding.Codec

/-!
Ill-formed runs and what they come to. A policy that gives up fails at the first
ill-formed run and nowhere else, and the other policies never fail. Whether there is
such a run does not depend on how the octets are cut, as long as a codec keeps to
what it has made of a front when more octets arrive.
-/

namespace KayLex.Encoding

/-! ### Policies -/

namespace Policy

variable {p : Policy} {u : Undecodable}

/-- The policies for characters, which fail on octets in a way that does not count as the
end of the input. -/
def Foreign (p : Policy) : Prop := p = reference ∨ p = named

/-- The policies that always find characters. -/
def Repairs (p : Policy) : Prop := p = replace ∨ p = ignore ∨ p = escape

instance : DecidablePred Foreign := fun p => inferInstanceAs (Decidable (p = _ ∨ p = _))

theorem Foreign.not_repairs (h : p.Foreign) : ¬ p.Repairs := by
  rcases h with rfl | rfl <;> simp [Repairs]

theorem not_repairs_strict : ¬ strict.Repairs := by simp [Repairs]

theorem exists_repair (h : p.Repairs) (u : Undecodable) : ∃ cs, p.repair u = .ok cs := by
  rcases h with rfl | rfl | rfl <;> exact ⟨_, rfl⟩

theorem exists_repair_error (h : ¬ p.Repairs) (u : Undecodable) :
    ∃ f, p.repair u = .error f := by
  cases p
  case replace | ignore | escape => simp [Repairs] at h
  all_goals exact ⟨_, rfl⟩

/-- A failure of a policy counts as the end of the input unless the policy is foreign. -/
theorem endsInput_of_repair {f : Failure} (h : p.repair u = .error f) :
    f.endsInput = true ↔ ¬ p.Foreign := by
  cases p <;> cases h <;> simp [Foreign, Failure.endsInput]

theorem strict_iff_of_repair {f : Failure} (h : p.repair u = .error f) :
    p = strict ↔ ¬ p.Foreign := by
  cases p <;> cases h <;> simp [Foreign]

theorem repairs_of_repair {cs : List Char} (h : p.repair u = .ok cs) : p.Repairs := by
  cases p <;> cases h <;> simp [Repairs]

end Policy

/-! ### Flaws -/

/-- How many octets besides the first an answer takes, if there is one. -/
def Front.more? : Front → Option Nat
  | char _ more | flaw more _ => some more
  | unfinished => none

namespace Codec

/-- There is an ill-formed run among the octets. -/
inductive Flawed (codec : Codec) (whole : Bool) : List UInt8 → Prop where
  | here {octet : UInt8} {rest : List UInt8} {more : Nat} {reason : Flaw}
      (h : codec.front whole octet rest = .flaw more reason) : Flawed codec whole (octet :: rest)
  | later {octet : UInt8} {rest : List UInt8} {c : Char} {more : Nat}
      (h : codec.front whole octet rest = .char c more)
      (hrest : Flawed codec whole (rest.drop more)) : Flawed codec whole (octet :: rest)

/-- What has been made of a front is not taken back when more octets arrive. -/
structure Steady (codec : Codec) : Prop where
  takes : ∀ {octet rest more}, (codec.front false octet rest).more? = some more →
    more ≤ rest.length
  stays : ∀ {octet rest more}, (codec.front false octet rest).more? = some more →
    ∀ whole behind, codec.front whole octet (rest ++ behind) = codec.front false octet rest

variable {codec : Codec} {policy : Policy} {whole : Bool} {chars : List Char} {position : Nat}
  {octet : UInt8} {octets rest behind : List UInt8} {c : Char} {more : Nat} {reason : Flaw}
  {f : Failure} {decoded : Decoded}

theorem not_flawed_nil : ¬ Flawed codec whole [] := by
  intro h
  cases h

theorem not_flawed_of_unfinished (h : codec.front whole octet rest = .unfinished) :
    ¬ Flawed codec whole (octet :: rest) := by
  rintro (hflaw | hchar)
  · rw [h] at hflaw
    cases hflaw
  · rw [h] at hchar
    cases hchar

theorem flawed_char_iff (h : codec.front whole octet rest = .char c more) :
    Flawed codec whole (octet :: rest) ↔ Flawed codec whole (rest.drop more) := by
  refine ⟨?_, .later h⟩
  rintro (hflaw | ⟨hchar, hrest⟩)
  · rw [h] at hflaw
    cases hflaw
  · rw [h] at hchar
    cases hchar
    exact hrest

/-! ### Decoding fails at flaws -/

theorem exists_repair_of_error
    (h : codec.decodeFrom policy whole chars position octets = .error f) :
    (∃ u, policy.repair u = .error f) ∧ Flawed codec whole octets := by
  fun_induction decodeFrom codec policy whole chars position octets with
  | case1 => cases h
  | case2 => cases h
  | case3 chars position octet rest c more hfront ih =>
      obtain ⟨hrepair, hrest⟩ := ih h
      exact ⟨hrepair, .later hfront hrest⟩
  | case4 chars position octet rest more reason hfront run f' hrepair =>
      cases h
      exact ⟨⟨_, hrepair⟩, .here hfront⟩
  | case5 chars position octet rest more reason hfront run cs hrepair ih =>
      exact ⟨(ih h).1, .here hfront⟩

theorem not_flawed_of_ok (hp : ¬ policy.Repairs)
    (h : codec.decodeFrom policy whole chars position octets = .ok decoded) :
    ¬ Flawed codec whole octets := by
  fun_induction decodeFrom codec policy whole chars position octets with
  | case1 => exact not_flawed_nil
  | case2 chars position octet rest hfront => exact not_flawed_of_unfinished hfront
  | case3 chars position octet rest c more hfront ih =>
      rw [flawed_char_iff hfront]
      exact ih h
  | case4 => cases h
  | case5 chars position octet rest more reason hfront run cs hrepair =>
      obtain ⟨f, hf⟩ := Policy.exists_repair_error hp ⟨codec.name, run, position, reason.text⟩
      rw [hf] at hrepair
      cases hrepair

/-! ### What is kept -/

theorem decodeFrom_nil :
    codec.decodeFrom policy whole chars position [] = .ok { chars := chars.reverse } := by
  rw [decodeFrom]

theorem decodeFrom_unfinished (h : codec.front whole octet rest = .unfinished) :
    codec.decodeFrom policy whole chars position (octet :: rest) =
      .ok { chars := chars.reverse, kept := octet :: rest } := by
  rw [decodeFrom]
  split
  · rfl
  · next hfront =>
    rw [h] at hfront
    cases hfront
  · next hfront =>
    rw [h] at hfront
    cases hfront

theorem decodeFrom_flaw (h : codec.front whole octet rest = .flaw more reason) :
    codec.decodeFrom policy whole chars position (octet :: rest) =
      match policy.repair ⟨codec.name, octet :: rest.take more, position, reason.text⟩ with
      | .error f => .error f
      | .ok cs =>
        codec.decodeFrom policy whole (cs.reverse ++ chars) (position + 1 + more)
          (rest.drop more) := by
  rw [decodeFrom]
  split
  · next hfront =>
    rw [h] at hfront
    cases hfront
  · next hfront =>
    rw [h] at hfront
    cases hfront
  · next hfront =>
    rw [h] at hfront
    cases hfront
    rfl

theorem length_kept_le
    (h : codec.decodeFrom policy whole chars position octets = .ok decoded) :
    decoded.kept.length ≤ octets.length := by
  fun_induction decodeFrom codec policy whole chars position octets with
  | case1 | case2 => cases h; exact Nat.le_refl _
  | case3 chars position octet rest c more hfront ih =>
      have := ih h
      rw [List.length_drop] at this
      rw [List.length_cons]
      omega
  | case4 => cases h
  | case5 chars position octet rest more reason hfront run cs hrepair ih =>
      have := ih h
      rw [List.length_drop] at this
      rw [List.length_cons]
      omega

theorem length_kept_le_of_more (hmore : (codec.front whole octet rest).more? = some more)
    (h : codec.decodeFrom policy whole chars position (octet :: rest) = .ok decoded) :
    decoded.kept.length ≤ rest.length - more := by
  rw [← List.length_drop]
  rw [decodeFrom] at h
  split at h
  · next hfront =>
    rw [hfront] at hmore
    cases hmore
  · next hfront =>
    rw [hfront] at hmore
    cases hmore
    exact length_kept_le h
  · next hfront =>
    rw [hfront] at hmore
    cases hmore
    dsimp only at h
    split at h
    · cases h
    · exact length_kept_le h

/-! ### Cutting the octets -/

section Cut

variable (hs : Steady codec)
include hs

theorem Steady.drop_append (h : (codec.front false octet rest).more? = some more) :
    (rest ++ behind).drop more = rest.drop more ++ behind :=
  List.drop_append_of_le_length (hs.takes h)

theorem Flawed.append (h : Flawed codec false octets) : Flawed codec whole (octets ++ behind) := by
  induction h with
  | @here octet rest more reason hfront =>
      have hmore : (codec.front false octet rest).more? = some more := by rw [hfront, Front.more?]
      exact .here ((hs.stays hmore whole behind).trans hfront)
  | @later octet rest c more hfront _ ih =>
      have hmore : (codec.front false octet rest).more? = some more := by rw [hfront, Front.more?]
      rw [List.cons_append, flawed_char_iff ((hs.stays hmore whole behind).trans hfront),
        hs.drop_append hmore]
      exact ih

/-- Without a flaw in them, the octets that were kept are all that matters later. -/
theorem flawed_append_iff (hp : ¬ policy.Repairs)
    (h : codec.decodeFrom policy false chars position octets = .ok decoded) :
    Flawed codec whole (octets ++ behind) ↔ Flawed codec whole (decoded.kept ++ behind) := by
  fun_induction decodeFrom codec policy false chars position octets with
  | case1 => cases h; rfl
  | case2 => cases h; rfl
  | case3 chars position octet rest c more hfront ih =>
      have hmore : (codec.front false octet rest).more? = some more := by rw [hfront, Front.more?]
      have hstays := (hs.stays hmore whole behind).trans hfront
      rw [List.cons_append, flawed_char_iff hstays, hs.drop_append hmore]
      exact ih h
  | case4 => cases h
  | case5 chars position octet rest more reason hfront run cs hrepair =>
      obtain ⟨f, hf⟩ := Policy.exists_repair_error hp ⟨codec.name, run, position, reason.text⟩
      rw [hf] at hrepair
      cases hrepair

end Cut

end Codec

end KayLex.Encoding
