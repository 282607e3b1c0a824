import KayLex.Encoding.SingleOctet
import KayLex.Encoding.Utf32
import KayLex.Encoding.Utf8
import KayLex.Proofs.Encoding.Flaws

/-!
Every codec is steady: it answers only once the octets that have arrived decide the
answer, whatever follows them. For the codecs with wide units this also says how few
octets can be left unfinished, and that these are ill-formed at the end of a text.
-/

namespace KayLex.Encoding

open Codec

variable {octet : UInt8} {rest octets : List UInt8} {more : Nat}

/-! ### One octet to a character -/

namespace SingleOctet

theorem steady_ascii : Steady ascii := by
  constructor
  · intro octet rest more h
    simp only [ascii] at h
    split at h <;> cases h <;> exact Nat.zero_le _
  · intros
    rfl

theorem steady_latin1 : Steady latin1 := by
  constructor
  · intro octet rest more h
    cases h
    exact Nat.zero_le _
  · intros
    rfl

theorem steady_windows1252 : Steady windows1252 := by
  constructor
  · intro octet rest more h
    simp only [windows1252] at h
    split at h
    · split at h <;> cases h <;> exact Nat.zero_le _
    · cases h
      exact Nat.zero_le _
  · intros
    rfl

end SingleOctet

/-! ### UTF-8 -/

namespace Utf8

theorem trail_settled {follow low high bits seen : Nat}
    (h : (trail false follow low high bits seen octets).more? = some more) :
    more ≤ seen + octets.length ∧ ∀ whole behind,
      trail whole follow low high bits seen (octets ++ behind) =
        trail false follow low high bits seen octets := by
  induction follow generalizing low high bits seen octets with
  | zero =>
      rw [trail] at h
      cases h
      exact ⟨Nat.le_add_right _ _, fun whole behind => by rw [trail, trail]⟩
  | succ follow ih =>
      cases octets with
      | nil => cases h
      | cons octet rest =>
          simp only [List.cons_append, trail] at h ⊢
          split
          · next hrange =>
            rw [if_pos hrange] at h
            obtain ⟨hmore, hstays⟩ := ih h
            refine ⟨?_, hstays⟩
            rw [List.length_cons]
            omega
          · next hrange =>
            rw [if_neg hrange] at h
            cases h
            exact ⟨Nat.le_add_right _ _, fun whole behind => rfl⟩

theorem exists_of_halfSurrogate {l : Lead} (h : halfSurrogate octet octets = true)
    (hl : lead? octet.toNat = some l) : (∃ second, octets = [second]) ∧ l.follow = 2 := by
  unfold halfSurrogate at h
  split at h
  · next second =>
    have hoctet : octet = 0xED := by
      simp only [Bool.and_eq_true, decide_eq_true_eq] at h
      exact h.1.1
    rw [hoctet] at hl
    cases hl
    exact ⟨⟨second, rfl⟩, rfl⟩
  · cases h

theorem steady_codec : Steady codec := by
  constructor
  · intro octet rest more h
    simp only [codec, front] at h
    split at h
    · cases h
      exact Nat.zero_le _
    · split at h
      · cases h
      · have := (trail_settled h).1
        omega
  · intro octet rest more h whole behind
    simp only [codec, front] at h ⊢
    cases hl : lead? octet.toNat with
    | none => rfl
    | some l =>
        rw [hl] at h
        dsimp only at h ⊢
        split at h
        · cases h
        · next hhalf =>
          have hlater : ¬ (!whole && halfSurrogate octet (rest ++ behind)) = true := by
            -- The one octet cannot have arrived later, since then nothing had been settled.
            intro hlater
            rw [Bool.and_eq_true] at hlater
            obtain ⟨⟨second, hsecond⟩, hfollow⟩ := exists_of_halfSurrogate hlater.2 hl
            cases rest with
            | nil =>
                rw [hfollow, trail] at h
                cases h
            | cons third rest =>
                obtain ⟨rfl, hnil⟩ := List.cons.inj hsecond
                obtain ⟨rfl, rfl⟩ := List.append_eq_nil_iff.mp hnil
                exact hhalf hlater.2
          rw [if_neg hhalf, if_neg hlater]
          exact (trail_settled h).2 whole behind

end Utf8

/-! ### UTF-16 and UTF-32 -/

/-- A codec with units of some octets: only less than two of these can be unfinished, and
what is unfinished at the end is ill-formed as a whole. -/
structure Codec.Wide (codec : Codec) (width : Nat) : Prop where
  unit : ∀ {octet rest more}, (codec.front false octet rest).more? = some more →
    width ≤ more + 1
  unfinished : ∀ {octet rest}, codec.front false octet rest = .unfinished →
    rest.length < 3 ∧ ∃ reason, codec.front true octet rest = .flaw rest.length reason

/-- For each front, that it is unfinished, or what is made of it for good. -/
theorem steady_and_wide {codec : Codec} {width : Nat}
    (h : ∀ octet rest,
      (codec.front false octet rest = .unfinished ∧ rest.length < 3 ∧
        ∃ reason, codec.front true octet rest = .flaw rest.length reason) ∨
      ∃ more, (codec.front false octet rest).more? = some more ∧
        width ≤ more + 1 ∧ more ≤ rest.length ∧ ∀ whole behind,
          codec.front whole octet (rest ++ behind) = codec.front false octet rest) :
    Steady codec ∧ Wide codec width := by
  have hsettled {octet : UInt8} {rest : List UInt8} {more : Nat}
      (hmore : (codec.front false octet rest).more? = some more) :
      width ≤ more + 1 ∧ more ≤ rest.length ∧ ∀ whole behind,
        codec.front whole octet (rest ++ behind) = codec.front false octet rest := by
    rcases h octet rest with ⟨hfront, -⟩ | ⟨more', hmore', hrest⟩
    · rw [hfront] at hmore
      cases hmore
    · rw [hmore] at hmore'
      cases hmore'
      exact hrest
  refine ⟨⟨fun hmore => (hsettled hmore).2.1, fun hmore => (hsettled hmore).2.2⟩,
    ⟨fun hmore => (hsettled hmore).1, fun {octet rest} hfront => ?_⟩⟩
  rcases h octet rest with ⟨-, hrest⟩ | ⟨more, hmore, -⟩
  · exact hrest
  · rw [hfront] at hmore
    cases hmore

namespace Utf16

theorem steady_and_wide_codec (o : Order) : Steady (codec o) ∧ Wide (codec o) 2 := by
  refine steady_and_wide fun octet rest => ?_
  cases rest with
  | nil => exact .inl ⟨rfl, by simp, _, rfl⟩
  | cons second rest =>
      simp only [codec, front, List.cons_append]
      cases hlow : isLow (o.number [octet, second]) with
      | true => exact .inr ⟨1, rfl, by omega, by simp, fun whole behind => rfl⟩
      | false =>
          cases hhigh : isHigh (o.number [octet, second]) with
          | false => exact .inr ⟨1, rfl, by omega, by simp, fun whole behind => rfl⟩
          | true =>
              rcases rest with _ | ⟨third, _ | ⟨fourth, rest⟩⟩
              · exact .inl ⟨rfl, by simp, _, rfl⟩
              · exact .inl ⟨rfl, by simp, _, rfl⟩
              · simp only [List.cons_append]
                cases isLow (o.number [third, fourth]) with
                | true => exact .inr ⟨3, rfl, by omega, by simp, fun whole behind => trivial⟩
                | false => exact .inr ⟨1, rfl, by omega, by simp, fun whole behind => trivial⟩

end Utf16

namespace Utf32

theorem steady_and_wide_codec (o : Order) : Steady (codec o) ∧ Wide (codec o) 4 := by
  refine steady_and_wide fun octet rest => ?_
  rcases rest with _ | ⟨second, _ | ⟨third, _ | ⟨fourth, rest⟩⟩⟩
  · exact .inl ⟨rfl, by simp, _, rfl⟩
  · exact .inl ⟨rfl, by simp, _, rfl⟩
  · exact .inl ⟨rfl, by simp, _, rfl⟩
  · simp only [codec, front, List.cons_append]
    refine .inr ⟨3, ?_, by omega, by simp, fun whole behind => trivial⟩
    split
    · rfl
    · split <;> rfl

end Utf32

end KayLex.Encoding
