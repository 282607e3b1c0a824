import KayLex.Proofs.Encoding.Decoding
import KayLex.Proofs.Encoding.Steady
import Mathlib.Data.List.Basic

/-!
UTF-8 and texts. The octets of a text in UTF-8 come to that text whatever the policy is, and
they are the only octets without a flaw. Of other octets a longest front is still that of a
text, and what comes behind it is the first ill-formed sequence.
-/

namespace KayLex.Encoding.Utf8

open Codec

variable {octet : UInt8} {octets rest kept : List UInt8} {c d : Char} {cs ds : List Char}
  {policy : Policy} {whole : Bool} {more low high bits seen follow n : Nat}

def encode (cs : List Char) : List UInt8 := cs.flatMap String.utf8EncodeChar

@[simp] theorem encode_nil : encode [] = [] := rfl

@[simp] theorem encode_cons (c : Char) (cs : List Char) :
    encode (c :: cs) = String.utf8EncodeChar c ++ encode cs := List.flatMap_cons ..

/-! ### The octets of a character -/

theorem code_bounds (c : Char) : c.toNat < 0xD800 ∨ 0xE000 ≤ c.toNat ∧ c.toNat < 0x110000 := by
  rcases c.valid with h | ⟨h, h'⟩
  · exact .inl h
  · exact .inr ⟨h, h'⟩

theorem encodeChar_one (h : c.toNat < 0x80) : String.utf8EncodeChar c = [UInt8.ofNat c.toNat] := by
  unfold String.utf8EncodeChar
  dsimp only
  rw [Char.toNat_val, if_pos (by omega)]

theorem encodeChar_two (h : 0x80 ≤ c.toNat) (h' : c.toNat < 0x800) :
    String.utf8EncodeChar c =
      [UInt8.ofNat (0xC0 + c.toNat / 64), UInt8.ofNat (0x80 + c.toNat % 64)] := by
  unfold String.utf8EncodeChar
  dsimp only
  rw [Char.toNat_val, if_neg (by omega), if_pos (by omega), Nat.mod_eq_of_lt (by omega)]
  simp only [Nat.add_comm]

theorem encodeChar_three (h : 0x800 ≤ c.toNat) (h' : c.toNat < 0x10000) :
    String.utf8EncodeChar c =
      [UInt8.ofNat (0xE0 + c.toNat / 4096), UInt8.ofNat (0x80 + c.toNat / 64 % 64),
        UInt8.ofNat (0x80 + c.toNat % 64)] := by
  unfold String.utf8EncodeChar
  dsimp only
  rw [Char.toNat_val, if_neg (by omega), if_neg (by omega), if_pos (by omega),
    Nat.mod_eq_of_lt (a := c.toNat / 4096) (by omega)]
  simp only [Nat.add_comm]

theorem encodeChar_four (h : 0x10000 ≤ c.toNat) :
    String.utf8EncodeChar c =
      [UInt8.ofNat (0xF0 + c.toNat / 262144), UInt8.ofNat (0x80 + c.toNat / 4096 % 64),
        UInt8.ofNat (0x80 + c.toNat / 64 % 64), UInt8.ofNat (0x80 + c.toNat % 64)] := by
  have hlt := code_bounds c
  unfold String.utf8EncodeChar
  dsimp only
  rw [Char.toNat_val, if_neg (by omega), if_neg (by omega), if_neg (by omega),
    Nat.mod_eq_of_lt (a := c.toNat / 262144) (by omega)]
  simp only [Nat.add_comm]

/-! ### What an octet says -/

theorem lead?_eq_some_iff {l : Lead} :
    lead? n = some l ↔
      n < 0x80 ∧ l = ⟨0, n, 0x80, 0xBF⟩ ∨
      0xC2 ≤ n ∧ n < 0xE0 ∧ l = ⟨1, n - 0xC0, 0x80, 0xBF⟩ ∨
      0xE0 ≤ n ∧ n < 0xF0 ∧ l = ⟨2, n - 0xE0, if n = 0xE0 then 0xA0 else 0x80,
        if n = 0xED then 0x9F else 0xBF⟩ ∨
      0xF0 ≤ n ∧ n < 0xF5 ∧ l = ⟨3, n - 0xF0, if n = 0xF0 then 0x90 else 0x80,
        if n = 0xF4 then 0x8F else 0xBF⟩ := by
  unfold lead?
  constructor
  · intro h
    split at h
    · cases h
      exact .inl ⟨‹_›, rfl⟩
    · split at h
      · cases h
      · split at h
        · cases h
          exact .inr (.inl ⟨by omega, ‹_›, rfl⟩)
        · split at h
          · cases h
            exact .inr (.inr (.inl ⟨by omega, ‹_›, rfl⟩))
          · split at h
            · cases h
              exact .inr (.inr (.inr ⟨by omega, ‹_›, rfl⟩))
            · cases h
  · rintro (⟨h, rfl⟩ | ⟨h, h', rfl⟩ | ⟨h, h', rfl⟩ | ⟨h, h', rfl⟩)
    · rw [if_pos h]
    · rw [if_neg (by omega), if_neg (by omega), if_pos h']
    · rw [if_neg (by omega), if_neg (by omega), if_neg (by omega), if_pos h']
    · rw [if_neg (by omega), if_neg (by omega), if_neg (by omega), if_neg (by omega), if_pos h']

theorem trail_eq_char_iff :
    trail whole (follow + 1) low high bits seen octets = .char c more ↔
      ∃ octet rest, octets = octet :: rest ∧ low ≤ octet.toNat ∧ octet.toNat ≤ high ∧
        trail whole follow 0x80 0xBF (bits * 64 + (octet.toNat - 0x80)) (seen + 1) rest =
          .char c more := by
  cases octets with
  | nil =>
      rw [trail]
      split <;> simp
  | cons octet rest =>
      rw [trail]
      by_cases hrange : low ≤ octet.toNat ∧ octet.toNat ≤ high
      · rw [if_pos hrange]
        constructor
        · exact fun h => ⟨octet, rest, rfl, hrange.1, hrange.2, h⟩
        · rintro ⟨_, _, hcons, -, -, h⟩
          cases hcons
          exact h
      · rw [if_neg hrange]
        constructor
        · intro h
          cases h
        · rintro ⟨_, _, hcons, hlow, hhigh, -⟩
          cases hcons
          exact absurd ⟨hlow, hhigh⟩ hrange

/-- Half a surrogate is no character either way. -/
theorem front_eq_char_iff :
    front whole octet rest = .char c more ↔
      ∃ l, lead? octet.toNat = some l ∧
        trail whole l.follow l.low l.high l.bits 0 rest = .char c more := by
  unfold front
  cases hl : lead? octet.toNat with
  | none => simp
  | some l =>
      dsimp only
      split
      · next hhalf =>
        rw [Bool.and_eq_true] at hhalf
        obtain ⟨⟨second, rfl⟩, hfollow⟩ := exists_of_halfSurrogate hhalf.2 hl
        simp [hfollow, trail_eq_char_iff]
      · simp

/-! ### From a character to its octets and back -/

theorem toNat_ofNat (h : n < 256) : (UInt8.ofNat n).toNat = n := UInt8.toNat_ofNat_of_lt h

theorem ofNat_eq {o : UInt8} (h : o.toNat = n) : UInt8.ofNat n = o := by
  rw [← h, UInt8.ofNat_toNat]

theorem trail_zero : trail whole 0 low high bits seen octets = .char (Char.ofNat bits) seen := by
  rw [trail]

theorem trail_eq_char (h : bits = c.toNat) :
    trail whole 0 low high bits seen octets = .char c seen := by
  rw [trail_zero, h, Char.ofNat_toNat]

theorem exists_front_encodeChar (c : Char) :
    ∃ octet tail, String.utf8EncodeChar c = octet :: tail ∧
      front false octet tail = .char c tail.length := by
  have hbounds := code_bounds c
  -- The code point decides the length. From three octets on, the bounds on the second one leave
  -- out code points that are too small and surrogates, and `hbounds` keeps within them.
  rcases Nat.lt_or_ge c.toNat 0x80 with h₁ | h₁
  · refine ⟨_, _, encodeChar_one h₁, front_eq_char_iff.mpr ?_⟩
    rw [toNat_ofNat (by omega)]
    exact ⟨_, lead?_eq_some_iff.mpr (.inl ⟨h₁, rfl⟩), trail_eq_char rfl⟩
  rcases Nat.lt_or_ge c.toNat 0x800 with h₂ | h₂
  · refine ⟨_, _, encodeChar_two h₁ h₂, front_eq_char_iff.mpr ?_⟩
    have hsecond := toNat_ofNat (n := 0x80 + c.toNat % 64) (by omega)
    rw [toNat_ofNat (by omega)]
    refine ⟨_, lead?_eq_some_iff.mpr (.inr (.inl ⟨by omega, by omega, rfl⟩)), ?_⟩
    dsimp only
    refine trail_eq_char_iff.mpr ⟨_, _, rfl, by omega, by omega, ?_⟩
    exact trail_eq_char (by omega)
  rcases Nat.lt_or_ge c.toNat 0x10000 with h₃ | h₃
  · refine ⟨_, _, encodeChar_three h₂ h₃, front_eq_char_iff.mpr ?_⟩
    have hsecond := toNat_ofNat (n := 0x80 + c.toNat / 64 % 64) (by omega)
    have hthird := toNat_ofNat (n := 0x80 + c.toNat % 64) (by omega)
    rw [toNat_ofNat (by omega)]
    refine ⟨_, lead?_eq_some_iff.mpr (.inr (.inr (.inl ⟨by omega, by omega, rfl⟩))), ?_⟩
    dsimp only
    refine trail_eq_char_iff.mpr ⟨_, _, rfl, ?_, ?_, ?_⟩
    · split <;> omega
    · split <;> omega
    refine trail_eq_char_iff.mpr ⟨_, _, rfl, by omega, by omega, ?_⟩
    exact trail_eq_char (by omega)
  · refine ⟨_, _, encodeChar_four h₃, front_eq_char_iff.mpr ?_⟩
    have hsecond := toNat_ofNat (n := 0x80 + c.toNat / 4096 % 64) (by omega)
    have hthird := toNat_ofNat (n := 0x80 + c.toNat / 64 % 64) (by omega)
    have hfourth := toNat_ofNat (n := 0x80 + c.toNat % 64) (by omega)
    rw [toNat_ofNat (by omega)]
    refine ⟨_, lead?_eq_some_iff.mpr (.inr (.inr (.inr ⟨by omega, by omega, rfl⟩))), ?_⟩
    dsimp only
    refine trail_eq_char_iff.mpr ⟨_, _, rfl, ?_, ?_, ?_⟩
    · split <;> omega
    · split <;> omega
    refine trail_eq_char_iff.mpr ⟨_, _, rfl, by omega, by omega, ?_⟩
    refine trail_eq_char_iff.mpr ⟨_, _, rfl, by omega, by omega, ?_⟩
    exact trail_eq_char (by omega)

theorem toNat_of_trail (h : trail whole 0 low high bits seen rest = .char c more)
    (hbits : bits < 0xD800 ∨ 0xE000 ≤ bits ∧ bits < 0x110000) : c.toNat = bits ∧ more = seen := by
  rw [trail_zero] at h
  simp only [Front.char.injEq] at h
  obtain ⟨rfl, rfl⟩ := h
  have hvalid : bits.isValidChar := by
    rcases hbits with hbits | hbits
    · exact .inl hbits
    · exact .inr ⟨by omega, hbits.2⟩
  refine ⟨?_, rfl⟩
  rw [Char.ofNat, dif_pos hvalid]
  rfl

theorem encodeChar_of_front (h : front whole octet rest = .char c more) :
    String.utf8EncodeChar c = octet :: rest.take more ∧ more ≤ rest.length := by
  obtain ⟨l, hl, htrail⟩ := front_eq_char_iff.mp h
  -- The first octet decides the length, and the code point is put together from all of them.
  rcases lead?_eq_some_iff.mp hl with ⟨h₀, rfl⟩ | ⟨h₀, h₀', rfl⟩ | ⟨h₀, h₀', rfl⟩ | ⟨h₀, h₀', rfl⟩
  · obtain ⟨hc, rfl⟩ := toNat_of_trail htrail (.inl (Nat.lt_trans h₀ (by decide)))
    dsimp only at hc
    rw [encodeChar_one (by omega), ofNat_eq hc.symm]
    simp
  · obtain ⟨o₁, rest, rfl, h₁, h₁', htrail⟩ := trail_eq_char_iff.mp htrail
    dsimp only at h₁ h₁' htrail
    obtain ⟨hc, rfl⟩ := toNat_of_trail htrail (by omega)
    rw [encodeChar_two (by omega) (by omega), ofNat_eq (o := octet) (by omega),
      ofNat_eq (o := o₁) (by omega)]
    simp
  · obtain ⟨o₁, rest, rfl, h₁, h₁', htrail⟩ := trail_eq_char_iff.mp htrail
    obtain ⟨o₂, rest, rfl, h₂, h₂', htrail⟩ := trail_eq_char_iff.mp htrail
    dsimp only at h₁ h₁' htrail
    have hlow : octet.toNat = 0xE0 → 0xA0 ≤ o₁.toNat := fun h => by rwa [if_pos h] at h₁
    have hhigh : octet.toNat = 0xED → o₁.toNat ≤ 0x9F := fun h => by rwa [if_pos h] at h₁'
    have hrange : 0x80 ≤ o₁.toNat ∧ o₁.toNat ≤ 0xBF := by
      constructor
      · split at h₁ <;> omega
      · split at h₁' <;> omega
    obtain ⟨hc, rfl⟩ := toNat_of_trail htrail (by omega)
    rw [encodeChar_three (by omega) (by omega), ofNat_eq (o := octet) (by omega),
      ofNat_eq (o := o₁) (by omega), ofNat_eq (o := o₂) (by omega)]
    simp
  · obtain ⟨o₁, rest, rfl, h₁, h₁', htrail⟩ := trail_eq_char_iff.mp htrail
    obtain ⟨o₂, rest, rfl, h₂, h₂', htrail⟩ := trail_eq_char_iff.mp htrail
    obtain ⟨o₃, rest, rfl, h₃, h₃', htrail⟩ := trail_eq_char_iff.mp htrail
    dsimp only at h₁ h₁' htrail
    have hlow : octet.toNat = 0xF0 → 0x90 ≤ o₁.toNat := fun h => by rwa [if_pos h] at h₁
    have hhigh : octet.toNat = 0xF4 → o₁.toNat ≤ 0x8F := fun h => by rwa [if_pos h] at h₁'
    have hrange : 0x80 ≤ o₁.toNat ∧ o₁.toNat ≤ 0xBF := by
      constructor
      · split at h₁ <;> omega
      · split at h₁' <;> omega
    obtain ⟨hc, rfl⟩ := toNat_of_trail htrail (by omega)
    rw [encodeChar_four (by omega), ofNat_eq (o := octet) (by omega),
      ofNat_eq (o := o₁) (by omega), ofNat_eq (o := o₂) (by omega),
      ofNat_eq (o := o₃) (by omega)]
    simp

theorem front_encodeChar_append (h : String.utf8EncodeChar c = octet :: octets) :
    front whole octet (octets ++ rest) = .char c octets.length := by
  obtain ⟨octet', tail, heq, hfront⟩ := exists_front_encodeChar c
  obtain ⟨rfl, rfl⟩ := List.cons.inj (h.symm.trans heq)
  have hmore : (codec.front false octet octets).more? = some octets.length :=
    congrArg Front.more? hfront
  exact (steady_codec.stays hmore whole rest).trans hfront

theorem encodeChar_ne_nil (c : Char) : String.utf8EncodeChar c ≠ [] := by
  obtain ⟨octet, tail, heq, -⟩ := exists_front_encodeChar c
  rw [heq]
  exact List.cons_ne_nil octet tail

/-! ### Texts -/

theorem decodes_encode_append_iff :
    Decodes codec policy whole (encode cs ++ rest) ds kept ↔
      ∃ es, ds = cs ++ es ∧ Decodes codec policy whole rest es kept := by
  induction cs generalizing ds with
  | nil => simp
  | cons c cs ih =>
      obtain ⟨octet, tail, heq, -⟩ := exists_front_encodeChar c
      rw [encode_cons, heq, List.append_assoc, List.cons_append,
        decodes_char_iff (front_encodeChar_append heq), List.drop_left' rfl]
      simp only [ih]
      constructor
      · rintro ⟨_, rfl, es, rfl, hes⟩
        exact ⟨es, rfl, hes⟩
      · rintro ⟨es, rfl, hes⟩
        exact ⟨cs ++ es, rfl, es, rfl, hes⟩

theorem decodes_encode (cs : List Char) : Decodes codec policy whole (encode cs) cs [] := by
  rw [← List.append_nil (encode cs), decodes_encode_append_iff]
  exact ⟨[], (List.append_nil cs).symm, .nil⟩

theorem trail_ne_unfinished : trail true follow low high bits seen octets ≠ .unfinished := by
  induction follow generalizing low high bits seen octets with
  | zero =>
      rw [trail_zero]
      intro h
      cases h
  | succ follow ih =>
      cases octets with
      | nil =>
          intro h
          cases h
      | cons octet rest =>
          rw [trail]
          split
          · exact ih
          · intro h
            cases h

theorem front_ne_unfinished : codec.front true octet rest ≠ .unfinished := by
  simp only [codec, front]
  split
  · intro h
    cases h
  · exact trail_ne_unfinished

theorem kept_eq_nil (h : Decodes codec policy true octets cs kept) : kept = [] := by
  induction h with
  | nil => rfl
  | unfinished hfront => exact absurd hfront front_ne_unfinished
  | char _ _ ih => exact ih
  | flaw _ _ _ _ ih => exact ih

/-- A policy that gives up decodes nothing but the octets of a text. -/
theorem eq_encode_append (hp : ¬ policy.Repairs)
    (h : Decodes codec policy whole octets cs kept) : octets = encode cs ++ kept := by
  induction h with
  | nil => rfl
  | unfinished => rfl
  | @char octet rest kept c cs more hfront _ ih =>
      rw [encode_cons, (encodeChar_of_front hfront).1, List.append_assoc, ← ih, List.cons_append,
        List.take_append_drop]
  | flaw _ _ hrepair => exact absurd (Policy.repairs_of_repair hrepair) hp

/-- The octets without a flaw are those of the texts. -/
theorem flawed_iff : Flawed codec true octets ↔ ∀ cs, octets ≠ encode cs := by
  have hp := Policy.not_repairs_strict
  constructor
  · rintro hflawed cs rfl
    exact (exists_decodes_iff hp).mp ⟨cs, [], decodes_encode cs⟩ hflawed
  · intro h
    by_contra hsound
    obtain ⟨cs, kept, hdecodes⟩ := (exists_decodes_iff hp).mpr hsound
    have heq := eq_encode_append hp hdecodes
    rw [kept_eq_nil hdecodes, List.append_nil] at heq
    exact h cs heq

/-! ### The first ill-formed sequence -/

/-- The octets are those of the text `cs` and then `rest`, which no character begins. -/
structure SoundUpTo (octets : List UInt8) (cs : List Char) (rest : List UInt8) : Prop where
  octets_eq : octets = encode cs ++ rest
  not_prefix : ∀ c, ¬ String.utf8EncodeChar c <+: rest

theorem exists_soundUpTo (octets : List UInt8) : ∃ cs rest, SoundUpTo octets cs rest := by
  induction hn : octets.length using Nat.strongRecOn generalizing octets with
  | _ n ih =>
      by_cases h : ∃ c, String.utf8EncodeChar c <+: octets
      · obtain ⟨c, behind, rfl⟩ := h
        have hpos := List.length_pos_iff.mpr (encodeChar_ne_nil c)
        rw [List.length_append] at hn
        obtain ⟨cs, rest, heq, hrest⟩ := ih behind.length (by omega) behind rfl
        exact ⟨c :: cs, rest, by rw [encode_cons, List.append_assoc, ← heq], hrest⟩
      · exact ⟨[], octets, rfl, fun c hc => h ⟨c, hc⟩⟩

theorem SoundUpTo.isPrefix (h : SoundUpTo octets cs rest) {behind : List UInt8}
    (heq : octets = encode ds ++ behind) : ds <+: cs := by
  obtain ⟨hoctets, hrest⟩ := h
  rw [hoctets] at heq
  induction ds generalizing cs octets with
  | nil => exact List.nil_prefix
  | cons d ds ih =>
      rw [encode_cons, List.append_assoc] at heq
      cases cs with
      | nil =>
          refine absurd ?_ (hrest d)
          rw [encode_nil, List.nil_append] at heq
          exact ⟨_, heq.symm⟩
      | cons c cs =>
          -- Both characters are what the octets begin with.
          obtain ⟨o, tail, hc, -⟩ := exists_front_encodeChar c
          obtain ⟨o', tail', hd, -⟩ := exists_front_encodeChar d
          rw [encode_cons, List.append_assoc, hc, hd, List.cons_append, List.cons_append] at heq
          obtain ⟨rfl, hbehind⟩ := List.cons.inj heq
          have hfront : front true o (tail ++ (encode cs ++ rest)) = .char c tail.length :=
            front_encodeChar_append hc
          rw [hbehind, front_encodeChar_append hd] at hfront
          obtain ⟨rfl, hlength⟩ := Front.char.inj hfront
          obtain ⟨-, hsame⟩ := List.append_inj hbehind hlength.symm
          exact List.cons_prefix_cons.mpr ⟨rfl, ih hsame rfl⟩

end KayLex.Encoding.Utf8
