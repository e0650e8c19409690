/-
  PlZero/Proofs/Text/Encoding.lean
  ================================
  **Strict decoding undoes encoding, and nothing else decodes** (`decodeUtf8_iff`).

  A reader that is inside a sequence knows which numbers the sequence can still come to
  (`Utf8Pending.Covers`), and the next byte narrows them down.  What is left of the sequence is
  the tail of its number (`continuation`).  Every number that a first byte leaves open is a
  character whose encoding begins with this byte (`utf8Lead_encodes`): overlong forms,
  surrogates and numbers past the last code point are kept out there and nowhere else.
-/
import PlZero.Text.Utf8
import Mathlib.Algebra.Order.Group.Nat

namespace PlZero.Text

/-! ### Sequences of several bytes -/

/-- The last `k` bytes of the encoding of a number. -/
def continuation : Nat → Nat → List UInt8
  | 0, _ => []
  | k + 1, v => UInt8.ofNat (v / 64 ^ k % 64 + 0x80) :: continuation k v

/-- The numbers that a sequence can still come to: their next digit is within the bounds. -/
def Utf8Pending.Covers (p : Utf8Pending) (v : Nat) : Prop :=
  64 * p.bits + (p.low - 0x80) ≤ v / 64 ^ (p.missing - 1) ∧
    v / 64 ^ (p.missing - 1) ≤ 64 * p.bits + (p.high - 0x80)

/-- A sequence lacks a byte, and the bytes that it can go on with begin no other. -/
structure Utf8Pending.Open (p : Utf8Pending) : Prop where
  missing : 1 ≤ p.missing
  low : 0x80 ≤ p.low
  bounds : p.low ≤ p.high
  high : p.high ≤ 0xBF

/-- A sequence behind a byte, where it lacks another. -/
def Utf8Pending.next (p : Utf8Pending) (b : UInt8) : Utf8Pending :=
  ⟨p.byte, p.start, p.missing - 1, 0x80, 0xBF, 64 * p.bits + (b.toNat - 0x80)⟩

variable {p : Utf8Pending} {b : UInt8} {v position : Nat} {done cs : List Char}
  {bytes rest : List UInt8}

theorem toNat_ofNat_of_lt {n : Nat} (h : n < 256) : (UInt8.ofNat n).toNat = n := by
  rw [UInt8.toNat_ofNat']
  exact Nat.mod_eq_of_lt h

theorem Utf8Pending.open_next (hmissing : 2 ≤ p.missing) : (p.next b).Open :=
  ⟨Nat.le_sub_of_add_le hmissing, Nat.le_refl _, Nat.le_of_ble_eq_true rfl, Nat.le_refl _⟩

/-- The numbers that are left behind a further byte: this byte is their next digit. -/
theorem Utf8Pending.covers_next (hmissing : 2 ≤ p.missing) : (p.next b).Covers v ↔
    v / 64 ^ (p.missing - 1) = 64 * p.bits + (b.toNat - 0x80) := by
  obtain ⟨k, hk⟩ : ∃ k, p.missing = k + 2 := ⟨p.missing - 2, by omega⟩
  have hdigits : v / 64 ^ (k + 1) = v / 64 ^ k / 64 := by
    rw [Nat.pow_succ, Nat.div_div_eq_div_mul]
  have hless : p.missing - 1 - 1 = k := by omega
  have hone : p.missing - 1 = k + 1 := by omega
  unfold Covers next
  dsimp only
  rw [hless, hone, hdigits]
  generalize v / 64 ^ k = w
  omega

theorem continuation_of_pos {k : Nat} (h : 1 ≤ k) : continuation k v =
    UInt8.ofNat (v / 64 ^ (k - 1) % 64 + 0x80) :: continuation (k - 1) v := by
  obtain ⟨n, rfl⟩ := Nat.exists_eq_add_of_le' h
  rfl

/-- The next byte of a number that a sequence can come to is within the bounds. -/
theorem Utf8Pending.continuation_of_covers (hp : p.Open) (hv : p.Covers v) :
    ∃ b, continuation p.missing v = b :: continuation (p.missing - 1) v ∧
      p.low ≤ b.toNat ∧ b.toNat ≤ p.high ∧
      v / 64 ^ (p.missing - 1) = 64 * p.bits + (b.toNat - 0x80) := by
  obtain ⟨hmissing, hlow, hbounds, hhigh⟩ := hp
  obtain ⟨hleft, hright⟩ := hv
  refine ⟨_, continuation_of_pos hmissing, ?_⟩
  rw [toNat_ofNat_of_lt (by omega)]
  generalize v / 64 ^ (p.missing - 1) = w at *
  omega

/-- A byte within the bounds is the next byte of the numbers that are left behind it. -/
theorem Utf8Pending.covers_of_byte (hp : p.Open) (hlow : p.low ≤ b.toNat)
    (hhigh : b.toNat ≤ p.high)
    (hv : v / 64 ^ (p.missing - 1) = 64 * p.bits + (b.toNat - 0x80)) :
    p.Covers v ∧ continuation p.missing v = b :: continuation (p.missing - 1) v := by
  obtain ⟨hmissing, hleast, -, hmost⟩ := hp
  unfold Covers
  rw [continuation_of_pos hmissing, hv]
  have hdigit : (64 * p.bits + (b.toNat - 0x80)) % 64 + 0x80 = b.toNat := by omega
  rw [hdigit, UInt8.ofNat_toNat]
  exact ⟨by omega, rfl⟩

/-- What a reader does inside a sequence with a byte that it can go on with. -/
theorem decodeUtf8From_within (hlow : p.low ≤ b.toNat) (hhigh : b.toNat ≤ p.high) :
    decodeUtf8From position (some p) done (b :: rest) =
      if p.missing ≤ 1 then decodeUtf8From (position + 1) none
        (Char.ofNat (64 * p.bits + (b.toNat - 0x80)) :: done) rest
      else decodeUtf8From (position + 1) (some (p.next b)) done rest := by
  rw [decodeUtf8From, if_pos ⟨hlow, hhigh⟩]
  rfl

/-- The tail of a number takes a reader to the end of the sequence. -/
theorem decodeUtf8From_continuation (position : Nat) (hp : p.Open) (hv : p.Covers v) :
    ∃ behind, decodeUtf8From position (some p) done (continuation p.missing v ++ rest) =
      decodeUtf8From behind none (Char.ofNat v :: done) rest := by
  obtain ⟨k, hk⟩ : ∃ k, p.missing = k + 1 := Nat.exists_eq_add_of_le' hp.missing
  induction k generalizing p position with
  | zero =>
    obtain ⟨b, hb, hlow, hhigh, hdigit⟩ := Utf8Pending.continuation_of_covers hp hv
    have hlast : v = 64 * p.bits + (b.toNat - 0x80) := by
      rw [← hdigit, hk]
      simp
    refine ⟨position + 1, ?_⟩
    rw [hb, List.cons_append, decodeUtf8From_within hlow hhigh, if_pos (Nat.le_of_eq hk), ← hlast,
      hk]
    rfl
  | succ k ih =>
    obtain ⟨b, hb, hlow, hhigh, hdigit⟩ := Utf8Pending.continuation_of_covers hp hv
    have hmissing : 2 ≤ p.missing := by omega
    have hless : (p.next b).missing = k + 1 := by
      show p.missing - 1 = k + 1
      omega
    have hrest := ih (position + 1) (Utf8Pending.open_next (b := b) hmissing)
      ((Utf8Pending.covers_next hmissing).mpr hdigit) hless
    rw [hb, List.cons_append, decodeUtf8From_within hlow hhigh, if_neg (by omega)]
    exact hrest

/-- A reader that comes to the end of a sequence has read the tail of a number. -/
theorem decodeUtf8From_pending (hp : p.Open)
    (h : decodeUtf8From position (some p) done bytes = .ok cs) :
    ∃ v behind rest, p.Covers v ∧ bytes = continuation p.missing v ++ rest ∧
      decodeUtf8From behind none (Char.ofNat v :: done) rest = .ok cs := by
  induction bytes generalizing p position with
  | nil => cases h
  | cons b bytes ih =>
    by_cases hb : p.low ≤ b.toNat ∧ b.toNat ≤ p.high
    · obtain ⟨hlow, hhigh⟩ := hb
      rw [decodeUtf8From_within hlow hhigh] at h
      by_cases hlast : p.missing ≤ 1
      · have hone : p.missing - 1 = 0 := by omega
        obtain ⟨hcovers, htail⟩ := Utf8Pending.covers_of_byte hp hlow hhigh
          (v := 64 * p.bits + (b.toNat - 0x80)) (by rw [hone]; simp)
        rw [if_pos hlast] at h
        refine ⟨_, position + 1, bytes, hcovers, ?_, h⟩
        rw [htail, hone]
        rfl
      · rw [if_neg hlast] at h
        have hmissing : 2 ≤ p.missing := by omega
        obtain ⟨v, behind, rest, hcovers, rfl, hrest⟩ :=
          ih (Utf8Pending.open_next hmissing) h
        obtain ⟨hcovers', htail⟩ := Utf8Pending.covers_of_byte hp hlow hhigh
          ((Utf8Pending.covers_next hmissing).mp hcovers)
        exact ⟨v, behind, rest, hcovers', by rw [htail]; rfl, hrest⟩
    · rw [decodeUtf8From, if_neg hb] at h
      cases h

/-! ### Characters -/

/-- The encoding of a character, by the number of its bytes. -/
theorem utf8EncodeChar_one {c : Char} (h : c.toNat < 0x80) :
    String.utf8EncodeChar c = [UInt8.ofNat c.toNat] :=
  if_pos (Nat.le_of_lt_succ h)

section

variable {c : Char}

theorem utf8EncodeChar_two (h : 0x80 ≤ c.toNat) (h' : c.toNat < 0x800)
    (hb : b.toNat = c.toNat / 64 + 0xC0) :
    String.utf8EncodeChar c = b :: continuation 1 c.toNat := by
  have hlead : UInt8.ofNat (c.toNat / 64 % 32 + 192) = b := by
    rw [Nat.mod_eq_of_lt (by omega), ← hb, UInt8.ofNat_toNat]
  unfold String.utf8EncodeChar
  dsimp only
  rw [if_neg (by exact Nat.not_le_of_lt h), if_pos (by exact Nat.le_of_lt_succ h')]
  show [UInt8.ofNat (c.toNat / 64 % 32 + 192), _] = _
  rw [hlead]
  simp [continuation]

theorem utf8EncodeChar_three (h : 0x800 ≤ c.toNat) (h' : c.toNat < 0x10000)
    (hb : b.toNat = c.toNat / 4096 + 0xE0) :
    String.utf8EncodeChar c = b :: continuation 2 c.toNat := by
  have hlead : UInt8.ofNat (c.toNat / 4096 % 16 + 224) = b := by
    rw [Nat.mod_eq_of_lt (by omega), ← hb, UInt8.ofNat_toNat]
  unfold String.utf8EncodeChar
  dsimp only
  rw [if_neg (by show ¬ c.toNat ≤ 127; omega), if_neg (by exact Nat.not_le_of_lt h),
    if_pos (by exact Nat.le_of_lt_succ h')]
  show [UInt8.ofNat (c.toNat / 4096 % 16 + 224), _, _] = _
  rw [hlead]
  simp [continuation]

theorem utf8EncodeChar_four (h : 0x10000 ≤ c.toNat) (hb : b.toNat = c.toNat / 262144 + 0xF0) :
    String.utf8EncodeChar c = b :: continuation 3 c.toNat := by
  have hvalid : c.toNat < 0xD800 ∨ 0xDFFF < c.toNat ∧ c.toNat < 0x110000 := c.valid
  have hlead : UInt8.ofNat (c.toNat / 262144 % 8 + 240) = b := by
    rw [Nat.mod_eq_of_lt (by omega), ← hb, UInt8.ofNat_toNat]
  unfold String.utf8EncodeChar
  dsimp only
  rw [if_neg (by show ¬ c.toNat ≤ 127; omega), if_neg (by show ¬ c.toNat ≤ 2047; omega),
    if_neg (by exact Nat.not_le_of_lt h)]
  show [UInt8.ofNat (c.toNat / 262144 % 8 + 240), _, _, _] = _
  rw [hlead]
  simp [continuation]

end

/-- The character of a number that is one. -/
theorem toNat_ofNat_of_valid (h : v.isValidChar) : (Char.ofNat v).toNat = v := by
  rw [Char.ofNat, dif_pos h]
  rfl

/-! ### First bytes -/

section

variable {start : Nat} (h : utf8Lead b start = some p)
include h

theorem utf8Lead_open : p.Open := by
  unfold utf8Lead at h
  dsimp only at h
  split_ifs at h <;>
  · cases h
    constructor <;> simp

/-- A first byte keeps out the numbers of no character. -/
theorem utf8Lead_valid (hv : p.Covers v) : v.isValidChar := by
  unfold utf8Lead at h
  dsimp only at h
  unfold Nat.isValidChar
  split_ifs at h <;>
  · cases h
    simp only [Utf8Pending.Covers, Nat.reduceSub, Nat.reducePow, Nat.div_one] at hv
    omega

/-- A first byte keeps out the characters whose encoding begins with another. -/
theorem utf8Lead_encodes {c : Char} (hc : p.Covers c.toNat) :
    String.utf8EncodeChar c = b :: continuation p.missing c.toNat := by
  unfold utf8Lead at h
  dsimp only at h
  split_ifs at h <;> cases h <;>
    simp only [Utf8Pending.Covers, Nat.reduceSub, Nat.reducePow, Nat.div_one] at hc
  · exact utf8EncodeChar_two (by omega) (by omega) (by omega)
  · exact utf8EncodeChar_three (by omega) (by omega) (by omega)
  · exact utf8EncodeChar_three (by omega) (by omega) (by omega)
  · exact utf8EncodeChar_three (by omega) (by omega) (by omega)
  · exact utf8EncodeChar_four (by omega) (by omega)
  · exact utf8EncodeChar_four (by omega) (by omega)
  · exact utf8EncodeChar_four (by omega) (by omega)

end

/-- Every character past the first 128 is left open by a byte that is none of them. -/
theorem utf8Lead_covers {c : Char} (h : 0x80 ≤ c.toNat) (start : Nat) :
    ∃ b p, 0x80 ≤ b.toNat ∧ utf8Lead b start = some p ∧ p.Covers c.toNat := by
  have hvalid : c.toNat < 0xD800 ∨ 0xDFFF < c.toNat ∧ c.toNat < 0x110000 := c.valid
  generalize c.toNat = v at *
  obtain ⟨n, hn, hlead⟩ : ∃ n, n < 256 ∧ ((v < 0x800 ∧ n = v / 64 + 0xC0) ∨
      (0x800 ≤ v ∧ v < 0x10000 ∧ n = v / 4096 + 0xE0) ∨
      (0x10000 ≤ v ∧ n = v / 262144 + 0xF0)) := by
    by_cases htwo : v < 0x800
    · exact ⟨v / 64 + 0xC0, by omega, .inl ⟨htwo, rfl⟩⟩
    · by_cases hthree : v < 0x10000
      · exact ⟨v / 4096 + 0xE0, by omega, .inr (.inl ⟨by omega, hthree, rfl⟩)⟩
      · exact ⟨v / 262144 + 0xF0, by omega, .inr (.inr ⟨by omega, rfl⟩)⟩
  have hb : (UInt8.ofNat n).toNat = n := toNat_ofNat_of_lt hn
  refine ⟨UInt8.ofNat n, ?_⟩
  unfold utf8Lead
  dsimp only
  rw [hb]
  split_ifs with h₁ h₂ h₃ h₄ h₅ h₆ h₇
  on_goal 8 => omega
  all_goals
    refine ⟨_, by omega, rfl, ?_⟩
    simp only [Utf8Pending.Covers, Nat.reduceSub, Nat.reducePow, Nat.div_one]
    omega

/-! ### Texts -/

/-- A reader takes the encoding of a character for this character. -/
theorem decodeUtf8From_encoded (c : Char) : ∃ behind,
    decodeUtf8From position none done (String.utf8EncodeChar c ++ rest) =
      decodeUtf8From behind none (c :: done) rest := by
  by_cases h : c.toNat < 0x80
  · have hbyte : (UInt8.ofNat c.toNat).toNat = c.toNat := toNat_ofNat_of_lt (by omega)
    refine ⟨position + 1, ?_⟩
    rw [utf8EncodeChar_one h, List.singleton_append, decodeUtf8From, hbyte,
      if_pos h, Char.ofNat_toNat]
  · obtain ⟨b, p, hb, hlead, hc⟩ := utf8Lead_covers (c := c) (by omega) position
    obtain ⟨behind, hbehind⟩ :=
      decodeUtf8From_continuation (position + 1) (utf8Lead_open hlead) hc
    refine ⟨behind, ?_⟩
    rw [utf8Lead_encodes hlead hc, List.cons_append, decodeUtf8From,
      if_neg (Nat.not_lt.mpr hb), hlead]
    dsimp only
    rw [hbehind, Char.ofNat_toNat]

/-- A text is decoded from its encoding. -/
theorem decodeUtf8From_text (cs : List Char) :
    decodeUtf8From position none done (cs.flatMap String.utf8EncodeChar) =
      .ok (done.reverse ++ cs) := by
  induction cs generalizing position done with
  | nil => rw [List.flatMap_nil, decodeUtf8From, List.append_nil]
  | cons c cs ih =>
    obtain ⟨behind, hbehind⟩ : ∃ behind, decodeUtf8From position none done
        (String.utf8EncodeChar c ++ cs.flatMap String.utf8EncodeChar) =
          decodeUtf8From behind none (c :: done) (cs.flatMap String.utf8EncodeChar) :=
      decodeUtf8From_encoded c
    rw [List.flatMap_cons, hbehind, ih, List.reverse_cons, List.append_assoc,
      List.singleton_append]

/-- Bytes that are decoded are the encoding of a text. -/
theorem encoded_of_decodeUtf8From
    (h : decodeUtf8From position none done bytes = .ok cs) :
    ∃ ds, cs = done.reverse ++ ds ∧ bytes = ds.flatMap String.utf8EncodeChar := by
  induction hlength : bytes.length using Nat.strongRecOn generalizing position done bytes with
  | ind n ih =>
    subst hlength
    cases bytes with
    | nil => exact ⟨[], by rw [List.append_nil]; exact (Except.ok.inj h).symm, rfl⟩
    | cons b rest =>
      by_cases hb : b.toNat < 0x80
      · rw [decodeUtf8From, if_pos hb] at h
        have hc : (Char.ofNat b.toNat).toNat = b.toNat := toNat_ofNat_of_valid (.inl (by omega))
        obtain ⟨ds, rfl, rfl⟩ := ih _ (Nat.lt_succ_self _) h rfl
        refine ⟨Char.ofNat b.toNat :: ds, by simp, ?_⟩
        rw [List.flatMap_cons, utf8EncodeChar_one (by omega), hc, UInt8.ofNat_toNat]
        rfl
      · rw [decodeUtf8From, if_neg hb] at h
        cases hlead : utf8Lead b position with
        | none => simp [hlead] at h
        | some p =>
          rw [hlead] at h
          obtain ⟨v, behind, rest, hv, rfl, hrest⟩ :=
            decodeUtf8From_pending (utf8Lead_open hlead) h
          have hc : (Char.ofNat v).toNat = v := toNat_ofNat_of_valid (utf8Lead_valid hlead hv)
          have hless : rest.length < (b :: (continuation p.missing v ++ rest)).length := by
            rw [List.length_cons, List.length_append]
            omega
          obtain ⟨ds, rfl, rfl⟩ := ih _ hless hrest rfl
          refine ⟨Char.ofNat v :: ds, by simp, ?_⟩
          rw [List.flatMap_cons, utf8Lead_encodes hlead (hc.symm ▸ hv), hc]
          rfl

/-- Bytes are decoded to a text just if they are its encoding. -/
theorem decodeUtf8_iff : decodeUtf8 bytes = .ok cs ↔ bytes = cs.flatMap String.utf8EncodeChar := by
  constructor
  · intro h
    obtain ⟨ds, rfl, rfl⟩ := encoded_of_decodeUtf8From h
    rfl
  · rintro rfl
    exact decodeUtf8From_text cs

end PlZero.Text
